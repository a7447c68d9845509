/-
  Storyboard.Compile.Session

  Compilers that are used again. A compiler keeps the tree, the log and the stage of
  its last compilation, for whoever asks afterwards, and writes over them step by step
  in the next one. A fault leaves them as they are at that step.
-/
import Storyboard.Compile

namespace Storyboard

/-- A compiler between two compilations: the name of its sources, and what is left of the last
    compilation, if there was one. -/
structure Compiler where
  name : String
  program : Option Program
  log : Option Log
  stage : Option Stage
  deriving Inhabited

namespace Compiler

/-- A compiler that was not used yet. -/
def new (name : String) : Compiler := ⟨name, none, none, none⟩

/-- What a compilation gives to its caller. -/
structure Answer where
  stage : Stage
  output : Option String
  errors : List Diagnostic
  program : Option Program
  deriving Inhabited

/-- A step of a compiler. -/
abbrev Action := EStateM Compilation.Fault Compiler

/-- The result of a stage, or its fault. -/
def stageResult {α : Type} : Except Compilation.Fault α → Action α
  | .ok a => pure a
  | .error fault => throw fault

/-- Notes how far the compilation came. -/
def reach (stage : Stage) : Action Unit := modify fun c => { c with stage := some stage }

/-- Adds diagnostics to the log, and tells whether it has any then. -/
def note (found : List Diagnostic) : Action Bool := do
  modify fun c => { c with log := c.log.map (Log.append · found) }
  return (← get).log.any Log.hasErrors

/-- Ends a compilation with the diagnostics of its log. -/
def failed (stage : Stage) : Action Answer := do
  reach stage
  return ⟨stage, none, ((← get).log.map Log.entries).getD [], none⟩

/-- Compiles a text, whatever was compiled before. -/
def compile (content : String) : Action Answer := do
  modify fun c => { c with log := some (.empty (some ⟨c.name, content⟩)), program := none }
  let tokens := tokenize content
  reach .lexed
  let (program, syntaxErrors) ← stageResult ((parse tokens).mapError .parsing)
  modify fun c => { c with program := some program }
  if ← note (syntaxErrors.map SyntaxError.diagnostic) then return ← failed .syntaxFailed
  reach .parsed
  let namingErrors ← stageResult ((analyze program).mapError .checking)
  if ← note (namingErrors.map NamingError.diagnostic) then return ← failed .semanticFailed
  reach .analyzed
  let script ← stageResult ((generate program).mapError .writing)
  reach .generated
  return ⟨.generated, some script, [], some program⟩

end Compiler

end Storyboard
