/-
  Storyboard.Proofs.Compile.Sense

  Layout and the case of keywords do not matter. Two texts whose tokens have the same
  sense are parsed to the same tree, places apart; the scope check then finds as many
  errors in both, and the script is the same.
-/
import Storyboard.Proofs.Compile.Totality
import Storyboard.Proofs.Parse.Sense
import Storyboard.Proofs.Scope.Sense
import Storyboard.Proofs.Script.Sense

namespace Storyboard

namespace Compilation

/-- Two compilations that a reader of their results cannot tell apart: they end at the same stage,
    with diagnostics of the same categories in the same order, and with the same script. -/
structure SameOutcome (c c' : Compilation) : Prop where
  stage : c.stage = c'.stage
  categories : c.log.entries.map Diagnostic.category = c'.log.entries.map Diagnostic.category
  output : c.output = c'.output

/-- Diagnostics that are all of one category. -/
theorem map_category_eq {entries entries' : List Diagnostic} {category : Category}
    (h : ∀ d ∈ entries, d.category = category) (h' : ∀ d ∈ entries', d.category = category)
    (hlength : entries.length = entries'.length) :
    entries.map Diagnostic.category = entries'.map Diagnostic.category := by
  rw [List.map_congr_left h, List.map_congr_left h', List.map_const', List.map_const', hlength]

/-- Compilations whose stages found as many errors and wrote the same script. -/
theorem Reports.sameOutcome {c c' : Compilation} {p p' : Program}
    {syntaxErrors syntaxErrors' : List SyntaxError} {namingErrors namingErrors' : List NamingError}
    {script : String} (h : c.Reports p syntaxErrors namingErrors script)
    (h' : c'.Reports p' syntaxErrors' namingErrors' script)
    (hgrammarLength : syntaxErrors.length = syntaxErrors'.length)
    (hnaming : namingErrors.length = namingErrors'.length) : c.SameOutcome c' := by
  have hgrammarNil : syntaxErrors = [] ↔ syntaxErrors' = [] := by
    rw [← List.length_eq_zero_iff, ← List.length_eq_zero_iff, hgrammarLength]
  have hnamingNil : namingErrors = [] ↔ namingErrors' = [] := by
    rw [← List.length_eq_zero_iff, ← List.length_eq_zero_iff, hnaming]
  -- The stage reached is decided by which lists of errors are empty, and so by their lengths.
  by_cases hgrammar : syntaxErrors = []
  · by_cases hnames : namingErrors = []
    · have hstage := h.generated.mpr ⟨hgrammar, hnames⟩
      have hstage' := h'.generated.mpr ⟨hgrammarNil.mp hgrammar, hnamingNil.mp hnames⟩
      obtain ⟨hentries, houtput, -⟩ := h.withScript hstage
      obtain ⟨hentries', houtput', -⟩ := h'.withScript hstage'
      exact ⟨hstage.trans hstage'.symm, by rw [hentries, hentries'], houtput.trans houtput'.symm⟩
    · have hstage := h.semanticFailed.mpr ⟨hgrammar, hnames⟩
      have hstage' :=
        h'.semanticFailed.mpr ⟨hgrammarNil.mp hgrammar, fun hnil => hnames (hnamingNil.mpr hnil)⟩
      obtain ⟨hentries, hcategory⟩ := h.ofNames hstage
      obtain ⟨hentries', hcategory'⟩ := h'.ofNames hstage'
      have hlength : c.log.entries.length = c'.log.entries.length := by
        rw [hentries, hentries', List.length_map, List.length_map, hnaming]
      exact ⟨hstage.trans hstage'.symm, map_category_eq hcategory hcategory' hlength,
        (h.withoutScript (.inr hstage)).1.trans (h'.withoutScript (.inr hstage')).1.symm⟩
  · have hstage := h.syntaxFailed.mpr hgrammar
    have hstage' := h'.syntaxFailed.mpr fun hnil => hgrammar (hgrammarNil.mpr hnil)
    obtain ⟨hentries, hcategory⟩ := h.ofGrammar hstage
    obtain ⟨hentries', hcategory'⟩ := h'.ofGrammar hstage'
    have hlength : c.log.entries.length = c'.log.entries.length := by
      rw [hentries, hentries', List.length_map, List.length_map, hgrammarLength]
    exact ⟨hstage.trans hstage'.symm, map_category_eq hcategory hcategory' hlength,
      (h.withoutScript (.inl hstage)).1.trans (h'.withoutScript (.inl hstage')).1.symm⟩

end Compilation

/-- Layout and the case of keywords do not matter. Two texts whose tokens agree one by one in
    kind, and in text unless they are keywords, are both compiled, and the compilations end at the
    same stage, with as many errors of the same categories, and with the same script. -/
theorem compile_sameOutcome (name name' content content' : String)
    (h : (tokenize content).map Token.sense = (tokenize content').map Token.sense) :
    ∃ c c', compile name content = .ok c ∧ compile name' content' = .ok c' ∧
      c.SameOutcome c' := by
  obtain ⟨p, syntaxErrors, script, hparse, hnative, hgenerate⟩ := exists_parsed content
  obtain ⟨p', syntaxErrors', hparse', hbare, hlength⟩ := parse_alike h hparse
  have hnative' := (parse_ok hparse').1
  have hanalyze := analyze_eq_ok hnative
  have hanalyze' := analyze_eq_ok hnative'
  have hgenerate' : generate p' = .ok script := by
    rw [← generate_bare hnative', ← hbare, generate_bare hnative, hgenerate]
  obtain ⟨c, hcompile, -, -, hreports⟩ :=
    Compilation.ofSource_reports ⟨name, content⟩ hparse hanalyze hgenerate
  obtain ⟨c', hcompile', -, -, hreports'⟩ :=
    Compilation.ofSource_reports ⟨name', content'⟩ hparse' hanalyze' hgenerate'
  exact ⟨c, c', hcompile, hcompile', hreports.sameOutcome hreports' hlength
    (length_analyze_eq hbare hanalyze hanalyze')⟩

/-- Keywords in another case, a comment, and blanks that are added or left out. -/
theorem compile_sameOutcome_sample :
    let content := "scene s \x7b let x = 2\n circle at (x, 1) size 3 color red \x7d"
    let content' := "SCENE s\x7b\tLet x=2 // two\n    CIRCLE AT (x,1) Size 3 COLOR red\x7d"
    content ≠ content' ∧
    (tokenize content).map Token.sense = (tokenize content').map Token.sense ∧
    ∃ c c', compile "a" content = .ok c ∧ compile "b" content' = .ok c' ∧ c.SameOutcome c' := by
  intro content content'
  have hsense : (tokenize content).map Token.sense = (tokenize content').map Token.sense := by
    decide +kernel
  exact ⟨by decide +kernel, hsense, compile_sameOutcome "a" "b" content content' hsense⟩

end Storyboard
