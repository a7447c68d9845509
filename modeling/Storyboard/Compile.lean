/-
  Storyboard.Compile

  Compilation: from a source text to a script, through tokens, tree and scope
  check. Syntax errors end it before the scope check, naming errors before the
  script is written. The report tells how far it came.
-/
import Storyboard.Parse.Stmt
import Storyboard.Scope.Check
import Storyboard.Script.Program
import Storyboard.Token.Scanner

namespace Storyboard

/-- How far a compilation came. -/
inductive Stage where
  | lexed
  | parsed
  | analyzed
  | generated
  | syntaxFailed
  | semanticFailed
  deriving DecidableEq, Inhabited

namespace Stage

/-- Each stage with its label. -/
def labels : List (Stage × String) :=
  [(.lexed, "LEXED"), (.parsed, "PARSED"), (.analyzed, "ANALYZED"), (.generated, "GENERATED"),
   (.syntaxFailed, "SYNTAX_FAILED"), (.semanticFailed, "SEMANTIC_FAILED")]

/-- The label of a stage. -/
def label (stage : Stage) : String := (labels.lookup stage).getD ""

/-- The stage of a label. -/
def ofLabel? (label : String) : Option Stage :=
  (labels.find? fun entry => entry.2 = label).map Prod.fst

end Stage

/-- A compilation that has ended: what was read, how far it came, and either the script or the
    diagnostics. The tree is kept after a failure too. -/
structure Compilation where
  tokens : List Token
  program : Program
  stage : Stage
  output : Option String
  log : Log
  deriving Inhabited

namespace Compilation

/-- What no source text leads to: a number token without a number, or a foreign value. -/
inductive Fault where
  | parsing (failure : Parse.Failure)
  | checking (fault : Check.Fault)
  | writing (value : Foreign)
  deriving DecidableEq, Inhabited

/-- Whether a script was written. -/
def succeeded (c : Compilation) : Bool := c.stage = .generated

/-- The tree that a compilation hands out, which it does only if a script was written. -/
def delivered (c : Compilation) : Option Program := if c.succeeded then some c.program else none

/-- The diagnostics on one line each. -/
def messages (c : Compilation) : List String := c.log.entries.map Diagnostic.summary

/-- The diagnostics with excerpts and hints. -/
def rendered (c : Compilation) : List String := c.log.entries.map c.log.render

/-- Compiles a source text. -/
def ofSource (source : SourceText) : Except Fault Compilation := do
  let log := Log.empty (some source)
  let tokens := tokenize source.content
  let (program, syntaxErrors) ← (parse tokens).mapError .parsing
  let log := log.append (syntaxErrors.map SyntaxError.diagnostic)
  if log.hasErrors then return ⟨tokens, program, .syntaxFailed, none, log⟩
  let namingErrors ← (analyze program).mapError .checking
  let log := log.append (namingErrors.map NamingError.diagnostic)
  if log.hasErrors then return ⟨tokens, program, .semanticFailed, none, log⟩
  let script ← (generate program).mapError .writing
  return ⟨tokens, program, .generated, some script, log⟩

/-! ## Report -/

/-- How many tokens there are, line ends and the end of input apart. -/
def tokenCount (c : Compilation) : Nat :=
  (c.tokens.filter fun t => t.kind ≠ .endOfInput && t.kind ≠ .newline).length

/-- How many lines a text has, each of them closed by a newline. -/
def lineCount (text : String) : Nat := text.toList.count '\n'

/-- A diagnostic as an entry of the report, all its lines indented. -/
def errorEntry (rendered : String) : String :=
  "    [ERROR] " ++ String.ofList
    (rendered.toList.flatMap fun c => if c = '\n' then "\n    ".toList else [c])

/-- A failed phase and why it failed. -/
def failureLines (c : Compilation) (phase : String) : List String :=
  ("  ✗ " ++ phase ++ " FAILED") :: c.rendered.map errorEntry

/-- The lines about the script. -/
def scriptLines (c : Compilation) : List String :=
  let count := lineCount (c.output.getD "")
  ["  ✓ Validation PASSED", "\n[PHASE 4: CODE GENERATION]",
   s!"  ✓ JavaScript generated ({count} lines)"]

/-- The lines about the scope check and what follows it. -/
def checkLines (c : Compilation) : List String :=
  [s!"  ✓ {c.program.body.length} top-level statements", "\n[PHASE 3: SEMANTIC ANALYSIS]"] ++
    if c.stage = .semanticFailed then c.failureLines "Validation" else c.scriptLines

/-- The lines at the head of a report. -/
def bannerLines : List String :=
  let rule := Text.copies 60 "="
  [rule, "MFLOW COMPILER", rule]

/-- All lines of the report. -/
def reportLines (c : Compilation) : List String :=
  bannerLines ++ ["\n[PHASE 1: LEXICAL ANALYSIS]", s!"  ✓ {c.tokenCount} tokens",
   "\n[PHASE 2: PARSING]"] ++
    if c.stage = .syntaxFailed then c.failureLines "Syntax" else c.checkLines

/-- Lines as a text, each closed by a newline. -/
def closeLines (lines : List String) : String :=
  "".intercalate (lines.map (· ++ "\n"))

/-- The head of a report. -/
def banner : String := closeLines bannerLines

/-- The report. -/
def report (c : Compilation) : String := closeLines c.reportLines

end Compilation

/-- Compiles a text under a name. -/
def compile (name content : String) : Except Compilation.Fault Compilation :=
  Compilation.ofSource ⟨name, content⟩

end Storyboard
