/-
  Storyboard.Script.Stmt

  Statements of a script. They are written line by line at the present
  indentation. Scenes and animations become routines, whose names must differ;
  loops number their counters by how many loops are around them.

  A foreign value stops the writing. The lines, the names of routines and the
  count of open loops stay as they are then, and the indentation goes back to
  where it was.
-/
import Storyboard.Diagnostic
import Storyboard.Script.Expr

namespace Storyboard.Script

/-- A script in the making: its lines, the indentation, the count of the loops around the present
    place, and the names of routines that are taken. Both numbers may be any. -/
structure Draft where
  lines : List String
  indent : Int
  loops : Int
  routines : List String
  deriving DecidableEq, Inhabited

/-- A script before its first line. -/
def Draft.fresh : Draft := ⟨[], 0, 0, []⟩

/-- A foreign value as a diagnostic. -/
def noRule (value : Foreign) : Diagnostic :=
  ⟨.internal, "No code generation rule for " ++ value.typeName, value.location, none⟩

/-- A step of writing. -/
abbrev Writer := EStateM Foreign Draft

/-- Writes one line at the present indentation. -/
def emit (code : String) : Writer Unit := fun d =>
  .ok () { d with lines := d.lines ++ [margin d.indent ++ code] }

/-- Writes something one level deeper. -/
def deeper {α : Type} (inner : Writer α) : Writer α := fun d =>
  match inner { d with indent := d.indent + 1 } with
  | .ok a e => .ok a { e with indent := e.indent - 1 }
  | .error value e => .error value { e with indent := e.indent - 1 }

/-- Writes something inside one more loop. -/
def looped (inner : Writer Unit) : Writer Unit := do
  modify fun d => { d with loops := d.loops + 1 }
  inner
  modify fun d => { d with loops := d.loops - 1 }

/-- Takes a name for a routine that no other routine has. -/
def routine (base : String) : Writer String := fun d =>
  let name := freshName d.routines base
  .ok name { d with routines := d.routines ++ [name] }

/-- The text of an expression at the present indentation. -/
def expression (e : Expr) : Writer String := fun d =>
  match e.script d.indent with
  | .ok text => .ok text d
  | .error value => .error value d

/-- The text of a command: what it does to the state of the animation. -/
def command : Command → Writer String
  | .move amount direction _ => do
    let target := match direction with
      | .up => "y -="
      | .down => "y +="
      | .left => "x -="
      | .right => "x +="
    return "animationState." ++ target ++ " " ++ (← expression amount) ++ ";"
  | .rotate angle _ => return "animationState.rotation += " ++ (← expression angle) ++ ";"
  | .scale factor _ => return "animationState.scale *= " ++ (← expression factor) ++ ";"
  | .fade amount _ => return "animationState.opacity -= " ++ (← expression amount) ++ ";"
  | .foreign value => throw value

/-- Writes commands one after the other. -/
def commands : List Command → Writer Unit
  | [] => pure ()
  | c :: others => do
    emit (← command c)
    commands others

/-- Whether an expression is written in parentheses of its own. -/
def hasParens : Expr → Bool
  | .binary .. => true
  | _ => false

mutual

/-- Writes a statement. -/
def statement : Stmt → Writer Unit
  | .binding name value _ => do
    let text ← expression value
    emit ("var " ++ userName name.name ++ " = " ++ text ++ ";")
  | .function name parameters body _ => do
    let names := ", ".intercalate (parameters.map fun p => userName p.name)
    emit ("function " ++ userName name.name ++ "(" ++ names ++ ") \x7b")
    deeper (each body)
    emit "\x7d"
  | .giveBack none _ => emit "return;"
  | .giveBack (some value) _ => do
    let text ← expression value
    emit ("return " ++ text ++ ";")
  | .branch condition thenBody none _ => do
    let text ← expression condition
    emit ("if " ++ (if hasParens condition then text else "(" ++ text ++ ")") ++ " \x7b")
    deeper (each thenBody)
    emit "\x7d"
  | .branch condition thenBody (some elseBody) _ => do
    let text ← expression condition
    emit ("if " ++ (if hasParens condition then text else "(" ++ text ++ ")") ++ " \x7b")
    deeper (each thenBody)
    emit "\x7d else \x7b"
    deeper (each elseBody)
    emit "\x7d"
  | .loop times body _ => do
    let depth := (← get).loops
    let text ← expression times
    let counter := s!"__i{depth}"
    let bound := s!"__n{depth}"
    emit ("for (let " ++ counter ++ " = 0, " ++ bound ++ " = " ++ text ++ "; " ++
      counter ++ " < " ++ bound ++ "; " ++ counter ++ "++) \x7b")
    looped (deeper (each body))
    emit "\x7d"
  | .animation steps _ => do
    let name ← routine "animate"
    emit "// Animation loop"
    emit ("function " ++ name ++ "() \x7b")
    deeper do
      emit "clear();"
      commands steps
      emit ("requestAnimationFrame(" ++ name ++ ");")
    emit "\x7d"
    emit (name ++ "();")
  | .scene title body _ => do
    let name ← routine ("scene_" ++ title)
    emit ("// Scene: " ++ title)
    emit ("function " ++ name ++ "() \x7b")
    deeper (each body)
    emit "\x7d"
    emit (name ++ "();")
  | .expression value _ => do
    let text ← expression value
    emit (text ++ ";")
  | .foreign value => throw value
termination_by structural stmt => stmt

/-- Writes statements one after the other. -/
def each : List Stmt → Writer Unit
  | [] => pure ()
  | stmt :: others => do
    statement stmt
    each others
termination_by structural body => body

end

end Storyboard.Script
