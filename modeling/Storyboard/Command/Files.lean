/-
  Storyboard.Command.Files

  Files: what a command needs of its surroundings, and surroundings in memory.

  `Host` is the interface: reading a text, making a directory, writing a text,
  the two output channels, and a way to stop. `Memory` carries it out on a tree of files that is
  a plain value, so that what a command does can be computed and reasoned about.
  A path is a text whose steps are divided by slashes; it starts at the working
  directory. A path and each of its steps may only be so long, in bytes of UTF-8.
-/
import Storyboard.Text.Basic
import Storyboard.Text.Quoted

namespace Storyboard.Command

/-! ## Faults -/

/-- Why something cannot be done with a path. -/
inductive PathProblem where
  | missing
  | exists
  | notDirectory
  | isDirectory
  | nameTooLong
  /-- A text with a NUL character is no path; it is refused before a system sees it. -/
  | holdsNul
  deriving DecidableEq, Inhabited

/-- The problem of a path in words. What a system reports comes with its number there. -/
def PathProblem.text (problem : PathProblem) (path : String) : String :=
  match problem with
  | .missing => reported "[Errno 2] No such file or directory"
  | .exists => reported "[Errno 17] File exists"
  | .notDirectory => reported "[Errno 20] Not a directory"
  | .isDirectory => reported "[Errno 21] Is a directory"
  | .nameTooLong => reported "[Errno 36] File name too long"
  | .holdsNul => "embedded null byte"
where
  /-- A report with the path that it is about. -/
  reported (report : String) : String := report ++ ": " ++ Text.quoted path

/-- What stops a command. -/
inductive Fault where
  | path (problem : PathProblem) (path : String)
  /-- The bytes of the source file are no text. -/
  | notText
  /-- The switch for the source text got no text. -/
  | noSource
  /-- The switch for the output directory got no text. -/
  | noDirectory
  deriving DecidableEq, Inhabited

/-- The fault in words; bytes that are no text have none. -/
def Fault.text : Fault → String
  | .path problem place => problem.text place
  | .notText => ""
  | .noSource => "'list' object has no attribute 'split'"
  | .noDirectory => "expected str, bytes or os.PathLike object, not list"

/-- The surroundings of a command. -/
class Host (m : Type → Type) where
  /-- The text of a file; its bytes have to be UTF-8. -/
  readText : String → m String
  /-- Makes a directory and those around it, unless they are there. -/
  makeDirectories : String → m Unit
  /-- Writes a text to a file, in place of what it held before. -/
  writeText : String → String → m Unit
  /-- Prints on the output channel. -/
  print : String → m Unit
  /-- Prints on the channel for errors. -/
  printError : String → m Unit
  /-- Stops the command. -/
  stop {α : Type} : Fault → m α

/-! ## Trees of files -/

/-- The steps to a place: from the working directory, or from the root if the first is a slash.
    Places above the working directory begin with `..`. -/
abbrev Place := List String

/-- What is at a place. -/
inductive Entry where
  | directory
  | file (content : ByteArray)
  deriving Inhabited

/-- Files and directories. The working directory, those above it, the root and the empty file
    `/dev/null` are always there. -/
structure FileTree where
  entries : List (Place × Entry)
  deriving Inhabited

/-- A change of files, which may fail half-way. -/
abbrev Change := EStateM Fault FileTree Unit

namespace FileTree

/-- Whether a place is the working directory, above it, or the root. -/
def isBase (place : Place) : Bool := place.all (· = "..") || place = ["/"]

/-- What is at a place in every tree. -/
def standing? (place : Place) : Option Entry :=
  if isBase place || place = ["/", "dev"] then some .directory
  else if place = ["/", "dev", "null"] then some (.file .empty)
  else none

/-- What is at a place, if there is something. -/
def get? (tree : FileTree) (place : Place) : Option Entry :=
  standing? place <|> tree.entries.lookup place

/-- Puts something at a place. -/
def put (tree : FileTree) (place : Place) (entry : Entry) : FileTree :=
  ⟨(place, entry) :: tree.entries.filter fun e => e.1 ≠ place⟩

/-- The place around a place; the root stays where it is. -/
def parent (place : Place) : Place :=
  if place = ["/"] then place
  else if isBase place then ".." :: place
  else place.dropLast

/-- Where a path starts. -/
def origin (path : String) : Place := if path.toList.head? = some '/' then ["/"] else []

/-- The steps of a path. -/
def steps (path : String) : List String :=
  (Text.pieces '/' path.toList).map String.ofList

/-- The most bytes in one step of a path. -/
def maxStepSize : Nat := 255

/-- The most bytes in a path. -/
def maxPathSize : Nat := 4095

/-- What keeps a text from being a path, if anything does. -/
def textProblem? (path : String) : Option PathProblem :=
  if path = "" then some .missing
  else if path.toList.contains '\x00' then some .holdsNul
  else if maxPathSize < path.utf8ByteSize then some .nameTooLong
  else none

/-- Follows steps from a place. Every place that is left for another must be a directory, and only
    there is the length of a step looked at. -/
def follow (tree : FileTree) (place : Place) : List String → Except PathProblem (Place × Entry)
  | [] =>
    match tree.get? place with
    | some entry => pure (place, entry)
    | none => throw .missing
  | step :: others =>
    match tree.get? place with
    | none => throw .missing
    | some (.file _) => throw .notDirectory
    | some .directory =>
      if step = "" || step = "." then tree.follow place others
      else if step = ".." then tree.follow (parent place) others
      else if maxStepSize < step.utf8ByteSize then throw .nameTooLong
      else tree.follow (place ++ [step]) others

/-- What a path leads to. -/
def resolve (tree : FileTree) (path : String) : Except PathProblem (Place × Entry) :=
  match textProblem? path with
  | some problem => throw problem
  | none => tree.follow (origin path) (steps path)

/-- Whether a path leads to something. -/
def leads (tree : FileTree) (path : String) : Bool := (tree.resolve path).isOk

/-- Whether a path leads to a directory. -/
def isDirectory (tree : FileTree) (path : String) : Bool :=
  match tree.resolve path with
  | .ok (_, .directory) => true
  | _ => false

/-- A path without slashes at its end. -/
def trimmed (path : String) : List Char := Text.dropEnd (· = '/') path.toList

/-- The directory that a path stands in, and its last step. -/
def target (tree : FileTree) (path : String) : Except PathProblem (Place × String) := do
  let all := steps (String.ofList (trimmed path))
  let (place, entry) ← tree.follow (origin path) all.dropLast
  match entry with
  | .directory => return (place, all.getLastD "")
  | .file _ => throw .notDirectory

/-- Makes one directory, which must not be there while the one around it must. -/
def makeDirectory (tree : FileTree) (path : String) : Except PathProblem FileTree :=
  match textProblem? path with
  | some problem => throw problem
  | none => do
    let (place, name) ← tree.target path
    if name = "" || name = "." || name = ".." then throw .exists
    if maxStepSize < name.utf8ByteSize then throw .nameTooLong
    match tree.get? (place ++ [name]) with
    | some _ => throw .exists
    | none => return tree.put (place ++ [name]) .directory

/-- A path cut at its last slash, slashes at the end of the first part taken off. -/
def cutLast (path : List Char) : List Char × List Char :=
  let last := (path.reverse.takeWhile (· ≠ '/')).reverse
  let before := path.take (path.length - last.length)
  let head := Text.dropEnd (· = '/') before
  (if head.isEmpty then before else head, last)

/-- The directory around a path and its last step, not counting slashes at its end. -/
def cutPath (path : List Char) : List Char × List Char :=
  let (head, last) := cutLast path
  if last.isEmpty then cutLast head else (head, last)

/-- Makes one directory unless it is there. -/
def ensureDirectory (path : String) : Change := fun tree =>
  match tree.makeDirectory path with
  | .ok made => .ok () made
  | .error problem =>
    if tree.isDirectory path then .ok () tree else .error (.path problem path) tree

/-- Makes a directory and those around it, unless they are there. A last step `.` asks for
    nothing more once the directory around it has been made. That something else is in the place
    of the directory around it is left to the next step to notice. -/
def makeDirectories (path : List Char) : Change := fun tree =>
  let (head, last) := cutPath path
  let finish : Change := if last = ['.'] then pure () else ensureDirectory (String.ofList path)
  if head ≠ [] ∧ last ≠ [] ∧ head.length < path.length ∧
      ¬ tree.leads (String.ofList head) then
    match makeDirectories head tree with
    | .ok () made => finish made
    | .error (.path .exists _) made => finish made
    | .error fault made => .error fault made
  else ensureDirectory (String.ofList path) tree
termination_by path.length

/-- The bytes of the file that a path leads to. -/
def read (tree : FileTree) (path : String) : Except Fault ByteArray :=
  match tree.resolve path with
  | .ok (_, .file content) => pure content
  | .ok (_, .directory) => throw (.path .isDirectory path)
  | .error problem => throw (.path problem path)

/-- Writes a file, whose directory must be there. -/
def write (path content : String) : Change := fun tree =>
  match tree.resolve path with
  | .ok (_, .directory) => .error (.path .isDirectory path) tree
  | .ok (place, .file _) => .ok () (tree.put place (.file content.toUTF8))
  | .error .missing =>
    match tree.target path with
    | .ok (place, name) => .ok () (tree.put (place ++ [name]) (.file content.toUTF8))
    | .error problem => .error (.path problem path) tree
  | .error problem => .error (.path problem path) tree

/-- A tree of the given files, with the directories around them. -/
def ofFiles (files : List (String × ByteArray)) : FileTree :=
  files.foldl (fun tree (path, content) =>
    let place := steps path
    let around := (List.range place.length).map fun n => place.take n
    (around.foldl (fun t p => if (t.get? p).isSome then t else t.put p .directory) tree).put
      place (.file content)) ⟨[]⟩

end FileTree

/-! ## Surroundings in memory -/

/-- Files, and what was printed on the two channels. -/
structure Memory where
  tree : FileTree
  output : String
  errors : String
  deriving Inhabited

/-- What a command does in memory. -/
abbrev InMemory := EStateM Fault Memory

/-- Changes the files. -/
def onTree (change : Change) : InMemory Unit := fun w =>
  match change w.tree with
  | .ok () tree => .ok () { w with tree := tree }
  | .error fault tree => .error fault { w with tree := tree }

instance : Host InMemory where
  readText path := fun w =>
    match w.tree.read path with
    | .error fault => .error fault w
    | .ok content =>
      match String.fromUTF8? content with
      | some text => .ok text w
      | none => .error .notText w
  makeDirectories path := onTree (FileTree.makeDirectories path.toList)
  writeText path content := onTree (FileTree.write path content)
  print text := fun w => .ok () { w with output := w.output ++ text }
  printError text := fun w => .ok () { w with errors := w.errors ++ text }
  stop fault := fun w => .error fault w

end Storyboard.Command
