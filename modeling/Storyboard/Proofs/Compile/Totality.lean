/-
  Storyboard.Proofs.Compile.Totality

  Every text is compiled, and the compilation reports what its stages found.

  No fault can occur: number tokens of a text hold numbers, so parsing gives a tree;
  the tree is native, also when parsing went on after errors, so it can be checked and
  written. `Compilation.Reports` says what a compilation has to look like, given what
  each of the stages finds on its own.
-/
import Storyboard.Compile
import Storyboard.Proofs.Scope.Violations
import Storyboard.Proofs.Script.Native
import Storyboard.Proofs.Token.Numbers

namespace Storyboard

/-- What is left of an outcome without its errors is its result. -/
theorem eq_ok_of_toOption {ε α : Type} {outcome : Except ε α} {a : α}
    (h : outcome.toOption = some a) : outcome = .ok a := by
  cases outcome with
  | error e => change none = some a at h; cases h
  | ok b => exact congrArg Except.ok (Option.some.inj h)

namespace Compilation

/-- A compilation that ended as its stages say: with the first of them that found errors, and with
    these errors only, or with the script and the tree if there were none. -/
structure Reports (c : Compilation) (p : Program) (syntaxErrors : List SyntaxError)
    (namingErrors : List NamingError) (script : String) : Prop where
  syntaxFailed : c.stage = .syntaxFailed ↔ syntaxErrors ≠ []
  semanticFailed : c.stage = .semanticFailed ↔ syntaxErrors = [] ∧ namingErrors ≠ []
  generated : c.stage = .generated ↔ syntaxErrors = [] ∧ namingErrors = []
  ofGrammar : c.stage = .syntaxFailed →
    c.log.entries = syntaxErrors.map SyntaxError.diagnostic ∧
      ∀ d ∈ c.log.entries, d.category = .grammar
  ofNames : c.stage = .semanticFailed →
    c.log.entries = namingErrors.map NamingError.diagnostic ∧
      ∀ d ∈ c.log.entries, d.category = .naming
  withScript : c.stage = .generated →
    c.log.entries = [] ∧ c.output = some script ∧ c.delivered = some p
  withoutScript : c.stage = .syntaxFailed ∨ c.stage = .semanticFailed →
    c.output = none ∧ c.delivered = none

variable {p : Program} {syntaxErrors : List SyntaxError} {namingErrors : List NamingError}
  {script : String}

/-- Errors of the grammar are of its category. -/
theorem category_of_mem_syntaxErrors :
    ∀ d ∈ syntaxErrors.map SyntaxError.diagnostic, d.category = .grammar := by
  simp [SyntaxError.diagnostic]

/-- Errors about names are of their category. -/
theorem category_of_mem_namingErrors :
    ∀ d ∈ namingErrors.map NamingError.diagnostic, d.category = .naming := by
  intro d hd
  obtain ⟨error, -, rfl⟩ := List.mem_map.mp hd
  cases error <;> rfl

/-- What a source text is compiled to, if each of its stages gives a result. -/
theorem ofSource_reports (source : SourceText)
    (hparse : parse (tokenize source.content) = .ok (p, syntaxErrors))
    (hanalyze : analyze p = .ok namingErrors) (hgenerate : generate p = .ok script) :
    ∃ c, ofSource source = .ok c ∧ c.program = p ∧ c.log.source = some source ∧
      c.Reports p syntaxErrors namingErrors script := by
  dsimp only [ofSource]
  rw [hparse]
  -- The first stage that reports anything is the last; in each case one part of the report is about
  -- that stage and the others are void.
  cases syntaxErrors with
  | cons first others =>
    refine ⟨_, rfl, rfl, rfl, ?_⟩
    constructor
    case ofGrammar => exact fun _ => ⟨rfl, category_of_mem_syntaxErrors⟩
    all_goals simp [delivered, succeeded]
  | nil =>
    change ∃ c, ((analyze p).mapError Fault.checking >>= _) = Except.ok c ∧ _
    rw [hanalyze]
    cases namingErrors with
    | cons first others =>
      refine ⟨_, rfl, rfl, rfl, ?_⟩
      constructor
      case ofNames => exact fun _ => ⟨rfl, category_of_mem_namingErrors⟩
      all_goals simp [delivered, succeeded]
    | nil =>
      change ∃ c, ((generate p).mapError Fault.writing >>= _) = Except.ok c ∧ _
      rw [hgenerate]
      refine ⟨_, rfl, rfl, rfl, ?_⟩
      constructor
      case withScript => exact fun _ => ⟨rfl, rfl, rfl⟩
      all_goals simp

end Compilation

/-- Every text is parsed to a native tree, also after errors, and that tree has a script. -/
theorem exists_parsed (content : String) :
    ∃ p syntaxErrors script, parse (tokenize content) = .ok (p, syntaxErrors) ∧
      Stmt.allNative p.body = true ∧ generate p = .ok script := by
  obtain ⟨p, syntaxErrors, hparse⟩ := (numbersReadable_tokenize content).exists_parse
  have hnative := (parse_ok hparse).1
  obtain ⟨script, hgenerate⟩ := generate_eq_ok hnative
  exact ⟨p, syntaxErrors, script, hparse, hnative, hgenerate⟩

/-- Every text is compiled, and there is a script just if that succeeded. -/
theorem Compilation.ofSource_ends (source : SourceText) :
    ∃ c, ofSource source = .ok c ∧ (c.succeeded = true → ∃ script, c.output = some script) ∧
      (c.succeeded = false → c.output = none) := by
  obtain ⟨p, syntaxErrors, script, hparse, hnative, hgenerate⟩ := exists_parsed source.content
  obtain ⟨c, hcompile, -, -, hreports⟩ :=
    ofSource_reports source hparse (analyze_eq_ok hnative) hgenerate
  refine ⟨c, hcompile, ?_, ?_⟩
  · intro hsucceeded
    exact ⟨script, (hreports.withScript (by simpa [succeeded] using hsucceeded)).2.1⟩
  · intro hfailed
    have hstage : ¬c.stage = .generated := by simpa [succeeded] using hfailed
    rw [hreports.generated] at hstage
    refine (hreports.withoutScript ?_).1
    rw [hreports.syntaxFailed, hreports.semanticFailed]
    by_cases hgrammar : syntaxErrors = []
    · exact .inr ⟨hgrammar, fun hnaming => hstage ⟨hgrammar, hnaming⟩⟩
    · exact .inl hgrammar

/-- What a compilation that succeeded was made from: no stage found an error, and the last wrote the
    script. -/
theorem Compilation.stages_of_succeeded {name content : String} {c : Compilation}
    (hcompile : compile name content = .ok c) (hsucceeded : c.succeeded = true) :
    parse (tokenize content) = .ok (c.program, []) ∧ analyze c.program = .ok [] ∧
      ∃ script, generate c.program = .ok script ∧ c.output = some script := by
  obtain ⟨p, syntaxErrors, script, hparse, hnative, hgenerate⟩ := exists_parsed content
  have hanalyze := analyze_eq_ok hnative
  obtain ⟨c', hcompile', hprogram, -, hreports⟩ :=
    ofSource_reports ⟨name, content⟩ hparse hanalyze hgenerate
  obtain rfl : c' = c := Except.ok.inj (hcompile'.symm.trans hcompile)
  have hstage : c'.stage = .generated := by simpa [succeeded] using hsucceeded
  obtain ⟨hgrammar, hnaming⟩ := hreports.generated.mp hstage
  rw [hprogram, hparse, hanalyze, hgrammar, hnaming]
  exact ⟨rfl, rfl, script, hgenerate, (hreports.withScript hstage).2.1⟩

/-- What a compilation with a script was made from. -/
theorem Compilation.parse_and_generate_of_output {name content : String} {c : Compilation}
    {script : String} (hcompile : compile name content = .ok c) (houtput : c.output = some script) :
    parse (tokenize content) = .ok (c.program, []) ∧ generate c.program = .ok script := by
  obtain ⟨c', hcompile', -, hfailed⟩ := ofSource_ends ⟨name, content⟩
  obtain rfl : c' = c := Except.ok.inj (hcompile'.symm.trans hcompile)
  have hsucceeded : c'.succeeded = true := by
    refine eq_true_of_ne_false fun hnot => ?_
    rw [hfailed hnot] at houtput
    cases houtput
  obtain ⟨hparse, -, script', hgenerate, houtput'⟩ := stages_of_succeeded hcompile hsucceeded
  rw [hgenerate, Option.some.inj (houtput'.symm.trans houtput)]
  exact ⟨hparse, rfl⟩

/-- Compilation is total and consistent. For every text each stage gives a result, and the
    compilation ends with the errors of the first stage that has any, or else with the script. -/
theorem compile_reports (name content : String) :
    ∃ c p syntaxErrors namingErrors script,
      compile name content = .ok c ∧
      parse (tokenize content) = .ok (p, syntaxErrors) ∧
      analyze p = .ok namingErrors ∧
      generate p = .ok script ∧
      c.Reports p syntaxErrors namingErrors script := by
  obtain ⟨p, syntaxErrors, hparse⟩ := @parse_eq_ok (tokenize content) fun token hmem =>
    numbersReadable_tokenize content token ((List.takeWhile_prefix _).subset hmem)
  have hnative := (parse_ok hparse).1
  have hanalyze := analyze_eq_ok hnative
  obtain ⟨script, hgenerate⟩ := generate_eq_ok hnative
  obtain ⟨c, hcompile, -, -, hreports⟩ :=
    Compilation.ofSource_reports ⟨name, content⟩ hparse hanalyze hgenerate
  exact ⟨c, p, syntaxErrors, _, script, hcompile, hparse, hanalyze, hgenerate, hreports⟩

end Storyboard
