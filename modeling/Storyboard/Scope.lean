/-
  Storyboard.Scope

  Scopes: a stack of frames, each holding the names declared in it. A name is
  looked up from the innermost frame outwards, and declared in the innermost one,
  where a name that is there already stays as it is.
-/
import Storyboard.Source.Location

namespace Storyboard

/-- What a name stands for. -/
inductive SymbolKind where
  | binding
  | function
  | parameter
  deriving DecidableEq, Inhabited

/-- The kind of a symbol in words. -/
def SymbolKind.word : SymbolKind → String
  | .binding => "variable"
  | .function => "function"
  | .parameter => "parameter"

/-- A declared name: what it stands for and where it was declared. -/
structure Symbol where
  name : String
  kind : SymbolKind
  location : Location
  deriving DecidableEq, Inhabited

/-- The names declared in one frame, the latest first. -/
abbrev Frame := List Symbol

/-- The symbol of a name in a frame. -/
def Frame.find? (frame : Frame) (name : String) : Option Symbol :=
  List.find? (fun symbol => symbol.name = name) frame

/-- Frames, the innermost first. -/
structure Scope where
  frames : List Frame
  deriving DecidableEq, Inhabited

namespace Scope

/-- What cannot be done without a frame. -/
inductive Fault where
  | nowhereToDeclare
  | nothingToLeave
  deriving DecidableEq, Inhabited

/-- No frames at all. -/
def empty : Scope := ⟨[]⟩

/-- How many frames there are. -/
def depth (scope : Scope) : Nat := scope.frames.length

/-- Opens a frame with no names in it. -/
def enter (scope : Scope) : Scope := ⟨[] :: scope.frames⟩

/-- Closes the innermost frame. -/
def leave (scope : Scope) : Except Fault Scope :=
  match scope.frames with
  | [] => .error .nothingToLeave
  | _ :: outer => .ok ⟨outer⟩

/-- Declares a symbol in the innermost frame. If its name is there already, nothing changes and
    the symbol that has it is given. -/
def declare (scope : Scope) (symbol : Symbol) : Except Fault (Option Symbol × Scope) :=
  match scope.frames with
  | [] => .error .nowhereToDeclare
  | frame :: outer =>
    match frame.find? symbol.name with
    | some previous => .ok (some previous, scope)
    | none => .ok (none, ⟨(symbol :: frame) :: outer⟩)

/-- The symbol that a name stands for. -/
def lookup (scope : Scope) (name : String) : Option Symbol :=
  scope.frames.findSome? fun frame => frame.find? name

end Scope

end Storyboard
