/-
  Storyboard.SelfCheck

  The self-check: a table of small programs, each with what is expected of its
  compilation. A case gives a problem or none. A table is gone through category
  by category, with counts for each of them and for all, and the names of the
  cases that failed at the end.
-/
import Storyboard.Compile
import Storyboard.Text.Quoted

namespace Storyboard.SelfCheck

/-! ## Expectations -/

/-- What is expected of a compilation, besides that it succeeds or fails. -/
inductive Expectation where
  | stage (stage : Stage)
  | contains (snippets : List String)
  | excludes (snippets : List String)
  | errorCount (count : Int)
  | errorContains (text : String)
  | unknown (key : String)
  deriving DecidableEq, Inhabited

/-- What an expectation is about. There is at most one expectation about each thing. -/
def Expectation.key : Expectation → String
  | .stage _ => "state"
  | .contains _ => "contains"
  | .excludes _ => "excludes"
  | .errorCount _ => "error_count"
  | .errorContains _ => "error_contains"
  | .unknown key => key

/-- Puts an expectation in the place of one about the same thing, or at the end. -/
def replace (expectation : Expectation) : List Expectation → List Expectation
  | [] => [expectation]
  | e :: others =>
    if e.key = expectation.key then expectation :: others else e :: replace expectation others

/-- Expectations given one after the other: of those about the same thing the last counts, in
    the place of the first. -/
def settle (given : List Expectation) : List Expectation :=
  given.foldl (fun settled e => replace e settled) []

/-- An expectation that nobody knows how to check. -/
structure UnknownExpectation where
  key : String
  deriving DecidableEq, Inhabited

/-- The unknown expectation in words. -/
def UnknownExpectation.text (e : UnknownExpectation) : String :=
  "Unknown expectation " ++ Text.quoted e.key

/-- Whether a text occurs in another. -/
def occursIn (part : List Char) : List Char → Bool
  | [] => part.isEmpty
  | c :: cs => part.isPrefixOf (c :: cs) || occursIn part cs

/-! ## Problems -/

/-- How a compilation differs from what is expected. -/
inductive Problem where
  | outcome (shouldPass : Bool) (messages : List String)
  | stage (expected found : Stage)
  | missing (snippet : String)
  | unwanted (snippet : String)
  | errorCount (expected : Int) (messages : List String)
  | unmentioned (text : String) (messages : List String)
  deriving DecidableEq, Inhabited

/-- The problem in words. -/
def Problem.text : Problem → String
  | .outcome true messages =>
    "expected pass, got fail: " ++ Text.quotedList (messages.take 2)
  | .outcome false messages =>
    "expected fail, got pass: " ++ Text.quotedList (messages.take 2)
  | .stage expected found => "expected state " ++ expected.label ++ ", got " ++ found.label
  | .missing snippet => "output is missing " ++ Text.quoted snippet
  | .unwanted snippet => "output unexpectedly contains " ++ Text.quoted snippet
  | .errorCount expected messages =>
    "expected " ++ toString expected ++ " error(s), got " ++ toString messages.length ++ ": " ++
      Text.quotedList messages
  | .unmentioned text messages =>
    "no error mentions " ++ Text.quoted text ++ ": " ++ Text.quotedList messages

/-- The problem of one expectation. -/
def Expectation.problem? (c : Compilation) :
    Expectation → Except UnknownExpectation (Option Problem)
  | .stage wanted => pure (if c.stage = wanted then none else some (.stage wanted c.stage))
  | .contains snippets =>
    let output := (c.output.getD "").toList
    pure ((snippets.find? fun s => !occursIn s.toList output).map .missing)
  | .excludes snippets =>
    let output := (c.output.getD "").toList
    pure ((snippets.find? fun s => occursIn s.toList output).map .unwanted)
  | .errorCount count =>
    pure (if (c.messages.length : Int) = count then none else some (.errorCount count c.messages))
  | .errorContains text =>
    pure (if c.messages.any fun m => occursIn text.toList m.toList then none
      else some (.unmentioned text c.messages))
  | .unknown key => throw ⟨key⟩

/-- The first problem of several expectations; those after it are not looked at. -/
def firstProblem? (c : Compilation) :
    List Expectation → Except UnknownExpectation (Option Problem)
  | [] => pure none
  | e :: others => do
    match ← e.problem? c with
    | some problem => return some problem
    | none => firstProblem? c others

/-! ## Cases -/

/-- A small program and what is expected of it. -/
structure Case where
  name : String
  source : String
  shouldPass : Bool
  expectations : List Expectation
  deriving Inhabited

/-- What keeps a case from being checked. -/
inductive Fault where
  | expectation (unknown : UnknownExpectation)
  | compilation (fault : Compilation.Fault)
  deriving DecidableEq, Inhabited

namespace Case

/-- The problem of a case, if there is one. -/
def problem? (entry : Case) : Except Fault (Option Problem) := do
  let c ← (compile "<check>" entry.source).mapError .compilation
  if c.succeeded ≠ entry.shouldPass then return some (.outcome entry.shouldPass c.messages)
  (firstProblem? c entry.expectations).mapError .expectation

/-- The category of a case: its name up to the first colon. -/
def category (entry : Case) : String := String.ofList (entry.name.toList.takeWhile (· ≠ ':'))

end Case

/-! ## Tables -/

/-- Cases by category, in the order in which the categories were met. -/
abbrev Groups := List (String × List Case)

/-- Puts a case behind those of its category; a category that is new comes last. -/
def Groups.add (entry : Case) : Groups → Groups
  | [] => [(entry.category, [entry])]
  | (category, members) :: others =>
    if category = entry.category then (category, members ++ [entry]) :: others
    else (category, members) :: Groups.add entry others

/-- The cases of a table by category. -/
def grouped (cases : List Case) : Groups :=
  cases.foldl (fun groups entry => Groups.add entry groups) []

/-- What was counted and printed so far, and the names of the cases that failed. -/
structure Tally where
  passed : Nat
  failed : Nat
  failures : List String
  lines : List String
  deriving Inhabited

namespace Tally

/-- Checks a case. -/
def check (tally : Tally) (entry : Case) : Except Fault Tally := do
  match ← entry.problem? with
  | none =>
    return { tally with
      passed := tally.passed + 1
      lines := tally.lines ++ ["  ✓ " ++ entry.name] }
  | some problem =>
    return { tally with
      failed := tally.failed + 1
      failures := tally.failures ++ [entry.name]
      lines := tally.lines ++ ["  ✗ " ++ entry.name, "      " ++ problem.text] }

/-- Checks the cases of a category, which has counts of its own that are then added up. -/
def checkGroup (total : Tally) (group : String × List Case) : Except Fault Tally := do
  let own ← group.2.foldlM check
    { total with passed := 0, failed := 0, lines := total.lines ++ ["\n[" ++ group.1 ++ "]"] }
  return { own with
    passed := total.passed + own.passed
    failed := total.failed + own.failed
    lines := own.lines ++ [s!"  [{own.passed}/{own.passed + own.failed} passed]"] }

end Tally

/-- What a table of cases gave. -/
structure Summary where
  passed : Nat
  failed : Nat
  text : String
  deriving Inhabited

/-- A line across the page. -/
def rule : String := Text.copies 70 "="

/-- The list of the cases that failed, if any did. -/
def failedLines (names : List String) : List String :=
  if names.isEmpty then [] else "\nFailed tests:" :: names.map ("  - " ++ ·)

/-- Checks a table of cases, category by category. -/
def run (cases : List Case) : Except Fault Summary := do
  let total ← (grouped cases).foldlM Tally.checkGroup ⟨0, 0, [], ["\n" ++ rule, "TEST SUITE", rule]⟩
  let footer :=
    ["\n" ++ rule, s!"TOTAL: {total.passed}/{total.passed + total.failed} tests passed"] ++
      failedLines total.failures ++ [rule]
  return ⟨total.passed, total.failed, Compilation.closeLines (total.lines ++ footer)⟩

end Storyboard.SelfCheck
