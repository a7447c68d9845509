/-
  Storyboard.Proofs.Compile.Locations

  Diagnostics point at the right text.

  The places in a tree are those of tokens, and so are those of syntax errors and of the
  names in naming errors. So every place that a diagnostic mentions is that of a token,
  and what stands there in the text is the token's own lexeme. In an excerpt the line is
  shown with a tab as one blank and without the carriage returns at its end; neither
  moves or hides the character that a token begins with.
-/
import Storyboard.Proofs.Compile.Totality
import Storyboard.Proofs.Scope.Provenance
import Storyboard.Proofs.Source.Places

namespace Storyboard

-- ============================================================================
-- Places
-- ============================================================================

namespace SourceText

/-- A place in a text: on one of its lines, and at most right behind the last character of it. -/
structure Contains (source : SourceText) (place : Location) : Prop where
  line_pos : 1 ≤ place.line
  line_le : place.line ≤ source.lines.length
  column_pos : 1 ≤ place.column
  column_le : place.column ≤ (source.line place.line).length + 1

/-- The word that begins at a place. -/
def wordAt (source : SourceText) (place : Location) : String :=
  String.ofList
    (Lexeme.word ((source.line place.line).toList.drop (place.column - 1).toNat))

variable {source : SourceText} {before after : List Char}

theorem contains_placeAfter (h : source.content.toList = before ++ after) :
    source.Contains (Lexical.placeAfter before) := by
  obtain ⟨hpos, hle, hcolumn, hline⟩ := line_placeAfter h
  have hlength := congrArg List.length hline
  rw [String.length_toList, List.length_append] at hlength
  exact ⟨hpos, hle, by omega, by omega⟩

/-- No word goes on behind a newline. -/
theorem word_takeWhile (text : List Char) :
    Lexeme.word (text.takeWhile (· ≠ '\n')) = Lexeme.word text := by
  induction text with
  | nil => rfl
  | cons c text ih =>
    unfold Lexeme.word at ih ⊢
    by_cases hc : Lexeme.isWordChar c = true
    · have hnewline : c ≠ '\n' := by
        rintro rfl
        cases hc
      rw [List.takeWhile_cons_of_pos (by simpa using hnewline), List.takeWhile_cons_of_pos hc, ih,
        List.takeWhile_cons_of_pos hc]
    · rw [List.takeWhile_cons_of_neg hc, List.takeWhile_cons]
      split
      · rw [List.takeWhile_cons_of_neg hc]
      · rfl

/-- The word at a place is the word that the text goes on with there. -/
theorem wordAt_placeAfter (h : source.content.toList = before ++ after) :
    source.wordAt (Lexical.placeAfter before) = String.ofList (Lexeme.word after) := by
  obtain ⟨-, -, hcolumn, hline⟩ := line_placeAfter h
  have hindex : ((Lexical.placeAfter before).column - 1).toNat =
      (Lexical.lastLine before).length := by omega
  rw [wordAt, hline, hindex, List.drop_left, word_takeWhile]

end SourceText

/-- The word of a text at the place of one of its names. -/
theorem Identifier.From.wordAt {source : SourceText} {id : Identifier}
    (h : id.From (InText source.content)) : source.wordAt id.location = id.name := by
  obtain ⟨token, htoken, hkind, rfl⟩ := h
  obtain ⟨-, before, after, hcontent, hplace, hword⟩ := isName_of_mem_tokenize htoken.1 hkind
  rw [hplace, source.wordAt_placeAfter hcontent, hword, String.ofList_toList]

-- ============================================================================
-- Carets
-- ============================================================================

/-- The character that a token begins with in its text. -/
def Token.firstChar? (token : Token) : Option Char :=
  if token.kind = .string then some '\x22' else token.text.toList.head?

/-- A line and, below it, a caret under the given character. -/
def CaretUnder (shown : List String) (c : Option Char) : Prop :=
  ∃ line caret i, shown = [line, caret] ∧ caret.toList = List.replicate i ' ' ++ ['^'] ∧
    line.toList[i]? = c

/-- Nothing is dropped from the end of a text before a character that stays. -/
theorem dropEnd_append_cons {dropped : Char → Bool} {c : Char} (hc : dropped c = false)
    (front back : List Char) :
    Text.dropEnd dropped (front ++ c :: back) = front ++ c :: Text.dropEnd dropped back := by
  unfold Text.dropEnd
  rw [List.reverse_append, List.reverse_cons, List.append_assoc, List.dropWhile_append]
  split
  · rename_i hempty
    rw [List.isEmpty_iff.mp hempty, List.singleton_append,
      List.dropWhile_cons_of_neg (by simp [hc])]
    simp
  · simp

/-- The caret of an excerpt stands under what follows the place. -/
theorem excerpt_caretUnder {source : SourceText} {before rest : List Char} {c : Char}
    (h : source.content.toList = before ++ c :: rest) (hc : c ≠ '\n' ∧ c ≠ '\r' ∧ c ≠ '\t')
    (hshown : Diagnostic.excerpt source (Lexical.placeAfter before) ≠ []) :
    CaretUnder (Diagnostic.excerpt source (Lexical.placeAfter before)) (some c) := by
  obtain ⟨-, -, hcolumn, hline⟩ := SourceText.line_placeAfter h
  have hindex : ((Lexical.placeAfter before).column - 1).toNat =
      (Lexical.lastLine before).length := by omega
  rw [List.takeWhile_cons_of_pos (by simpa using hc.1)] at hline
  unfold Diagnostic.excerpt at hshown ⊢
  rw [hline, dropEnd_append_cons (by simpa using hc.2.1), hindex] at hshown ⊢
  dsimp only at hshown ⊢
  split at hshown
  · exact absurd rfl hshown
  · rename_i hblank
    rw [if_neg hblank]
    refine ⟨_, _, (Lexical.lastLine before).length + 4, rfl, ?_, ?_⟩
    · simp [List.replicate_succ]
    · simp [hc.2.2]

/-- The caret of an excerpt stands under the character that the token at the place begins with. -/
theorem InText.caretUnder {source : SourceText} {token : Token}
    (h : InText source.content token) (hkind : token.kind ≠ .endOfInput)
    (hshown : Diagnostic.excerpt source token.location ≠ []) :
    CaretUnder (Diagnostic.excerpt source token.location) token.firstChar? := by
  obtain ⟨before, lexeme, rest, hcontent, hplace, ⟨hend, -⟩ | ⟨value, htext, hform, -⟩⟩ :=
    exists_lexeme_of_mem_tokenize h.1
  · exact absurd hend hkind
  · obtain ⟨c, cs, rfl, hc, hfirst⟩ := hform.exists_head h.2
    have hchar : token.firstChar? = some c := by
      rw [Token.firstChar?, htext, String.toList_ofList, hfirst]
    rw [hplace] at hshown ⊢
    rw [hchar]
    exact excerpt_caretUnder hcontent hc hshown

theorem InText.contains {source : SourceText} {token : Token} (h : InText source.content token) :
    source.Contains token.location := by
  obtain ⟨before, lexeme, rest, hcontent, hplace, -⟩ := exists_lexeme_of_mem_tokenize h.1
  rw [hplace]
  exact source.contains_placeAfter hcontent

-- ============================================================================
-- Diagnostics
-- ============================================================================

/-- A message about names quotes the word at its place; if it mentions an earlier declaration, the
    same word stands there, as a token. -/
inductive Diagnostic.Quotes (source : SourceText) (place : Location) : Diagnostic → Prop where
  | undefined : Quotes source place
      ⟨.naming, "Undefined variable '" ++ source.wordAt place ++ "'", some place, none⟩
  | redeclared {kind : SymbolKind} {previous : Token} : previous ∈ tokenize source.content →
      source.wordAt previous.location = source.wordAt place → Quotes source place
      ⟨.naming, NamingError.capitalized kind.word ++ " '" ++ source.wordAt place ++
          "' is already declared in this scope", some place,
        some ("previous declaration at " ++ previous.location.describe)⟩

/-- A diagnostic that points at a token. -/
structure Diagnostic.PointsAt (source : SourceText) (token : Token) (d : Diagnostic) : Prop where
  inText : InText source.content token
  location : d.location = some token.location
  quotes : d.category = .naming → d.Quotes source token.location

/-- Syntax errors point at tokens. -/
theorem SyntaxError.exists_pointsAt {source : SourceText} {error : SyntaxError}
    (h : Placed (InText source.content) error.location) :
    ∃ token, error.diagnostic.PointsAt source token := by
  obtain ⟨token, htoken, hplace⟩ := h
  exact ⟨token, htoken, congrArg some hplace, fun hcategory => by cases hcategory⟩

/-- Naming errors point at the names that they quote. -/
theorem NamingError.From.exists_pointsAt {source : SourceText} {error : NamingError}
    (h : error.From (InText source.content)) :
    ∃ token, error.diagnostic.PointsAt source token := by
  cases h with
  | @undefined id hid =>
    have hword := hid.wordAt
    obtain ⟨token, htoken, -, rfl⟩ := hid
    refine ⟨token, htoken, rfl, fun _ => ?_⟩
    rw [NamingError.diagnostic, ← hword]
    exact .undefined
  | @redeclared kind id previous hid hprevious hsame =>
    have hword := hid.wordAt
    have hprevWord := hprevious.wordAt
    obtain ⟨token, htoken, -, rfl⟩ := hid
    obtain ⟨prev, hprev, -, rfl⟩ := hprevious
    refine ⟨token, htoken, rfl, fun _ => ?_⟩
    rw [NamingError.diagnostic, ← hword]
    exact .redeclared hprev.1 (by rw [hprevWord, hsame, ← hword])

/-- Diagnostics point at the right text. Each of them has a place in the text at which a token
    begins; one about names quotes the word that stands there and at the earlier declaration that it
    mentions; and if the line is shown, then the caret stands under the token's first character,
    unless the place is the end of input. -/
theorem compile_points_at_tokens (source : SourceText) :
    ∃ c, compile source.name source.content = .ok c ∧ ∀ d ∈ c.log.entries,
      ∃ token ∈ tokenize source.content,
        d.location = some token.location ∧
        source.Contains token.location ∧
        (d.category = .naming → d.Quotes source token.location) ∧
        c.log.render d = "\n".intercalate
          (d.summary :: Diagnostic.excerpt source token.location ++ d.hintLines) ∧
        (Diagnostic.excerpt source token.location ≠ [] → token.kind ≠ .endOfInput →
          CaretUnder (Diagnostic.excerpt source token.location) token.firstChar?) := by
  obtain ⟨p, syntaxErrors, hparse⟩ := @parse_eq_ok (tokenize source.content) fun token hmem =>
    numbersReadable_tokenize source.content token ((List.takeWhile_prefix _).subset hmem)
  have hnative := (parse_ok hparse).1
  obtain ⟨hbody, herrors⟩ := parse_tokenize_from hparse
  have hanalyze := analyze_eq_ok hnative
  obtain ⟨script, hgenerate⟩ := generate_eq_ok hnative
  obtain ⟨c, hcompile, -, hsource, hreports⟩ :=
    Compilation.ofSource_reports source hparse hanalyze hgenerate
  -- The entries of a log come from one stage only, and each stage takes its places from tokens.
  have hpoints : ∀ d ∈ c.log.entries, ∃ token, d.PointsAt source token := by
    intro d hd
    by_cases hgrammar : syntaxErrors = []
    · by_cases hnaming : p.sites.filterMap Site.violation? = []
      · have hgenerated := hreports.generated.mpr ⟨hgrammar, hnaming⟩
        rw [(hreports.withScript hgenerated).1] at hd
        cases hd
      · have hfailed := hreports.semanticFailed.mpr ⟨hgrammar, hnaming⟩
        rw [(hreports.ofNames hfailed).1] at hd
        obtain ⟨error, herror, rfl⟩ := List.mem_map.mp hd
        exact (analyze_from hnative hbody hanalyze error herror).exists_pointsAt
    · rw [(hreports.ofGrammar (hreports.syntaxFailed.mpr hgrammar)).1] at hd
      obtain ⟨error, herror, rfl⟩ := List.mem_map.mp hd
      exact SyntaxError.exists_pointsAt (herrors error herror)
  refine ⟨c, hcompile, fun d hd => ?_⟩
  obtain ⟨token, hinText, hlocation, hquotes⟩ := hpoints d hd
  refine ⟨token, hinText.1, hlocation, hinText.contains, hquotes, ?_, ?_⟩
  · simp only [Log.render, Diagnostic.render, hsource, hlocation]
  · exact fun hshown hkind => hinText.caretUnder hkind hshown

end Storyboard
