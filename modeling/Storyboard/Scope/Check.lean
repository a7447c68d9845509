/-
  Storyboard.Scope.Check

  The scope check: every name has to be declared before it is used, and once in a
  frame. The program, each function and each scene have a frame; the bodies of
  `if` and `repeat` belong to the frame around them. The functions of a list of
  statements are declared before its statements are looked at, and a `let`
  declares its name after its value. What an `animate` block holds is not
  checked.

  Errors do not stop the check; a foreign value does.
-/
import Storyboard.Diagnostic
import Storyboard.Scope
import Storyboard.Tree

namespace Storyboard

/-! ## Errors -/

/-- A broken rule of names. -/
inductive NamingError where
  /-- The name is in the frame already. -/
  | redeclared (kind : SymbolKind) (id : Identifier) (previous : Location)
  | undefined (id : Identifier)
  deriving DecidableEq, Inhabited

namespace NamingError

/-- A word with its first letter in upper case. -/
def capitalized (word : String) : String :=
  match word.toList with
  | [] => ""
  | c :: cs => String.ofList (c.toUpper :: cs)

/-- The error as a diagnostic. -/
def diagnostic : NamingError → Diagnostic
  | .redeclared kind id previous =>
    ⟨.naming, capitalized kind.word ++ " '" ++ id.name ++ "' is already declared in this scope",
      some id.location, some ("previous declaration at " ++ previous.describe)⟩
  | .undefined id => ⟨.naming, "Undefined variable '" ++ id.name ++ "'", some id.location, none⟩

end NamingError

/-! ## What an expression uses -/

/-- What the check meets in an expression: a name in use, or a foreign value. -/
inductive Leaf where
  | name (id : Identifier)
  | foreign (value : Foreign)
  deriving DecidableEq, Inhabited

mutual

/-- The leaves of an expression from left to right. -/
def Expr.leaves : Expr → List Leaf
  | .identifier id => [.name id]
  | .number .. | .string .. | .color .. => []
  | .binary _ left right _ => left.leaves ++ right.leaves
  | .call callee arguments _ => callee.leaves ++ Expr.allLeaves arguments
  | .circle ⟨x, y⟩ size fill _ => x.leaves ++ y.leaves ++ size.leaves ++ fill.leaves
  | .rect ⟨x, y⟩ width height fill _ =>
    x.leaves ++ y.leaves ++ width.leaves ++ height.leaves ++ fill.leaves
  | .line ⟨x₁, y₁⟩ ⟨x₂, y₂⟩ fill _ =>
    x₁.leaves ++ y₁.leaves ++ x₂.leaves ++ y₂.leaves ++ fill.leaves
  | .triangle corners fill _ => Expr.pointLeaves corners ++ fill.leaves
  | .foreign value => [.foreign value]
termination_by structural e => e

/-- The leaves of several expressions. -/
def Expr.allLeaves : List Expr → List Leaf
  | [] => []
  | e :: others => e.leaves ++ Expr.allLeaves others
termination_by structural es => es

/-- The leaves of several points. -/
def Expr.pointLeaves : List (Point Expr) → List Leaf
  | [] => []
  | ⟨x, y⟩ :: others => x.leaves ++ y.leaves ++ Expr.pointLeaves others
termination_by structural points => points

end

/-! ## The check -/

namespace Check

/-- What ends the check: a foreign value where a statement or an expression belongs, or a frame
    that is missing. -/
inductive Fault where
  | unhandledStatement (value : Foreign)
  | unhandledExpression (value : Foreign)
  | scope (fault : Scope.Fault)
  deriving DecidableEq, Inhabited

/-- A foreign value as a diagnostic; a missing frame has none. -/
def Fault.diagnostic? : Fault → Option Diagnostic
  | .unhandledStatement value =>
    some ⟨.internal, "Unhandled statement kind " ++ value.typeName, value.location, none⟩
  | .unhandledExpression value =>
    some ⟨.internal, "Unhandled expression kind " ++ value.typeName, value.location, none⟩
  | .scope _ => none

/-- The scope reached and the errors found so far. -/
structure State where
  scope : Scope
  errors : List NamingError
  deriving DecidableEq, Inhabited

/-- The check before anything was looked at. -/
def State.fresh : State := ⟨.empty, []⟩

/-- A step of the check. -/
abbrev Checker := EStateM Fault State

/-- Adds an error. -/
def report (error : NamingError) : Checker Unit := fun s =>
  .ok () { s with errors := s.errors ++ [error] }

/-- Opens a frame. -/
def enter : Checker Unit := fun s => .ok () { s with scope := s.scope.enter }

/-- Closes the innermost frame. -/
def leave : Checker Unit := fun s =>
  match s.scope.leave with
  | .ok scope => .ok () { s with scope := scope }
  | .error fault => .error (.scope fault) s

/-- Declares a name, and reports it if the frame has it already. -/
def declare (kind : SymbolKind) (id : Identifier) : Checker Unit := fun s =>
  match s.scope.declare ⟨id.name, kind, id.location⟩ with
  | .ok (none, scope) => .ok () { s with scope := scope }
  | .ok (some previous, _) => report (.redeclared kind id previous.location) s
  | .error fault => .error (.scope fault) s

/-- Reports a name that is declared nowhere. -/
def resolve (id : Identifier) : Checker Unit := fun s =>
  match s.scope.lookup id.name with
  | some _ => .ok () s
  | none => report (.undefined id) s

/-- Looks at one leaf. -/
def leaf : Leaf → Checker Unit
  | .name id => resolve id
  | .foreign value => throw (.unhandledExpression value)

/-- Looks at all leaves of an expression. -/
def expression (e : Expr) : Checker Unit := e.leaves.forM leaf

/-- The names of the functions in a list of statements. -/
def functionNames (body : List Stmt) : List Identifier :=
  body.filterMap fun
    | .function name _ _ _ => some name
    | _ => none

/-- Declares the functions of a list of statements. -/
def hoist (body : List Stmt) : Checker Unit := (functionNames body).forM (declare .function)

mutual

/-- Looks at a statement. -/
def statement : Stmt → Checker Unit
  | .binding name value _ => do
    expression value
    declare .binding name
  | .function _ parameters body _ => do
    enter
    parameters.forM (declare .parameter)
    hoist body
    each body
    leave
  | .giveBack none _ => pure ()
  | .giveBack (some value) _ => expression value
  | .branch condition thenBody none _ => do
    expression condition
    hoist thenBody
    each thenBody
  | .branch condition thenBody (some elseBody) _ => do
    expression condition
    hoist thenBody
    each thenBody
    hoist elseBody
    each elseBody
  | .loop times body _ => do
    expression times
    hoist body
    each body
  | .animation .. => pure ()
  | .scene _ body _ => do
    enter
    hoist body
    each body
    leave
  | .expression value _ => expression value
  | .foreign value => throw (.unhandledStatement value)
termination_by structural stmt => stmt

/-- Looks at statements one after the other. -/
def each : List Stmt → Checker Unit
  | [] => pure ()
  | stmt :: others => do
    statement stmt
    each others
termination_by structural body => body

end

/-- Looks at a list of statements: its functions are declared first. -/
def block (body : List Stmt) : Checker Unit := do
  hoist body
  each body

/-- Checks a program in a scope of its own and gives the errors found in it. Errors found
    before stay. -/
def program (p : Program) : Checker (List NamingError) := fun s =>
  match (do enter; block p.body; leave) { s with scope := .empty } with
  | .ok () t => .ok (t.errors.drop s.errors.length) t
  | .error fault t => .error fault t

end Check

/-- The naming errors of a program. -/
def analyze (p : Program) : Except Check.Fault (List NamingError) :=
  match Check.program p .fresh with
  | .ok errors _ => .ok errors
  | .error fault _ => .error fault

end Storyboard
