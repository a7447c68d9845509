/-
  Storyboard.Proofs.Token.Respelling

  Tokens written out and scanned again.

  A token is written by its text, and a string in quotes with a backslash before every
  quote in it. A single space between two tokens is enough to keep them apart, whatever
  they are: `Form.tokens_source` says of one token that it is read back and that what
  follows it is left alone. So a text and its tokens with spaces between them are scanned
  to the same words (`tokenize_sourceOf`), unless a string ends with a backslash, which
  would keep the closing quote from closing.
-/
import Storyboard.Proofs.Parse.Printed
import Storyboard.Proofs.Token.Joining

namespace Storyboard

-- ============================================================================
-- Tokens in a source
-- ============================================================================

/-- A character of a string in a source. -/
def sourceChar (c : Char) : List Char := if c = '\x22' then ['\\', '\x22'] else [c]

/-- A token as it is written in a source. -/
def Token.source (token : Token) : String :=
  if token.kind = .string then
    "\"" ++ String.ofList (token.text.toList.flatMap sourceChar) ++ "\""
  else token.text

/-- Tokens with single spaces between them. An end of input is written as nothing, which is its
    text. -/
def sourceOf (tokens : List Token) : String := " ".intercalate (tokens.map Token.source)

namespace Lexical

open Lexeme

theorem quoted_sourceChars (value : List Char) : Quoted (value.flatMap sourceChar) value := by
  induction value with
  | nil => exact .done
  | cons c value ih =>
    rw [List.flatMap_cons]
    by_cases hc : c = '\x22'
    · subst hc
      exact .quote ih
    · rw [sourceChar, if_neg hc]
      exact .plain hc ih

/-- A string and what is written for it end with a backslash together. -/
theorem getLast?_sourceChars {value : List Char} (h : value.getLast? ≠ some '\\') :
    (value.flatMap sourceChar).getLast? ≠ some '\\' := by
  obtain rfl | ⟨front, last, rfl⟩ := value.eq_nil_or_concat
  · exact h
  · rw [List.concat_eq_append] at h ⊢
    rw [List.getLast?_concat] at h
    rw [List.flatMap_append, List.flatMap_singleton]
    by_cases hc : last = '\x22'
    · rw [sourceChar, if_pos hc]
      simp
    · rw [sourceChar, if_neg hc]
      simpa using h

-- ============================================================================
-- Lexemes that stand alone
-- ============================================================================

/-- Whether a text begins without a quote and without a gap, also if a space follows it. -/
def standsAlone : List Char → Bool
  | [] => false
  | c :: cs => c ≠ '\x22' && !isSpace c && (c ≠ '/' || cs.isEmpty)

/-- A character of a class without quotes, slashes and spaces begins a text that stands alone. -/
theorem standsAlone_of_class {p : Char → Bool} {c : Char} (h : p c = true) (cs : List Char)
    (hp : (['\x22', ' ', '\t', '\r', '/'].all fun d => !p d) = true) :
    standsAlone (c :: cs) = true := by
  have hne : ∀ d ∈ ['\x22', ' ', '\t', '\r', '/'], c ≠ d := by
    rintro d hd rfl
    have hpd := List.all_eq_true.mp hp c hd
    rw [h] at hpd
    cases hpd
  simp only [List.forall_mem_cons] at hne
  simp [standsAlone, isSpace, hne]

/-- Every lexeme that is no string stands alone. -/
theorem Form.standsAlone {lexeme rest value : List Char} {kind : Kind}
    (h : Form lexeme rest kind value) (hkind : kind ≠ .string) :
    Lexical.standsAlone lexeme = true := by
  cases h with
  | newline => rfl
  | number hdigit => exact standsAlone_of_class hdigit _ rfl
  | keyword hstart => exact standsAlone_of_class hstart _ rfl
  | identifier hstart => exact standsAlone_of_class hstart _ rfl
  | color => rfl
  | closedString => exact absurd rfl hkind
  | openString => exact absurd rfl hkind
  | mark hmark =>
    have hall : (marks.all fun entry => Lexical.standsAlone entry.1) = true := rfl
    exact List.all_eq_true.mp hall _ hmark
  | @illegal c _ hopens hspace _ =>
    have hquote : c ≠ '\x22' := by
      rintro rfl
      exact absurd hopens (by decide)
    rw [← isSpace_iff] at hspace
    simp [Lexical.standsAlone, hquote, hspace]

/-- The value of a lexeme that is no string is the lexeme. -/
theorem Form.value_eq {lexeme rest value : List Char} {kind : Kind}
    (h : Form lexeme rest kind value) (hkind : kind ≠ .string) : value = lexeme := by
  cases h with
  | closedString => exact absurd rfl hkind
  | openString => exact absurd rfl hkind
  | _ => rfl

section StandsAlone

variable {lexeme next value : List Char} {kind : Kind}

/-- What stands alone begins no string. -/
theorem not_unclosed_of_standsAlone (h : standsAlone lexeme = true) (next : List Char) :
    ¬Unclosed (lexeme ++ next) := by
  rintro ⟨content, value, heq, -⟩
  cases lexeme with
  | nil => cases h
  | cons c cs =>
    obtain rfl : c = '\x22' := (List.cons.inj heq).1
    cases h

/-- What stands alone begins no gap, also if a space follows it. -/
theorem gap_of_standsAlone (h : standsAlone lexeme = true) (hnext : ∀ c ∈ next.head?, c = ' ') :
    gap (lexeme ++ next) = [] := by
  cases lexeme with
  | nil => cases h
  | cons c cs =>
    simp only [standsAlone, Bool.and_eq_true, Bool.not_eq_true', Bool.or_eq_true,
      decide_eq_true_eq, List.isEmpty_iff] at h
    obtain ⟨⟨-, hspace⟩, hslash⟩ := h
    refine gap_stop hspace _ ?_
    rintro ⟨rfl, hhead⟩
    obtain rfl := hslash.resolve_left fun hne => hne rfl
    exact absurd (hnext '/' hhead) (by decide)

/-- A lexeme that stands alone is taken as a whole, at the end of a text and before a space. -/
theorem Form.front_of_standsAlone (h : Form lexeme next kind value)
    (halone : Lexical.standsAlone lexeme = true) (hnext : ∀ c ∈ next.head?, c = ' ') :
    front (lexeme ++ next) = lexeme := by
  obtain ⟨c, cs, rfl⟩ := List.exists_cons_of_ne_nil h.ne_nil
  have hclosed := not_unclosed_of_standsAlone halone
  have hself : front (c :: cs) = c :: cs := by
    have hspace : isSpace c = false := by
      simp only [Lexical.standsAlone, Bool.and_eq_true, Bool.not_eq_true'] at halone
      exact halone.1.2
    obtain ⟨rest, heq, -⟩ := front_fits hspace cs
    have hle := (h.move (hclosed next) []).length_le
    rw [List.append_nil] at hle
    have hlength := congrArg List.length heq
    rw [List.length_append] at hlength
    obtain rfl : rest = [] := List.eq_nil_of_length_eq_zero (by omega)
    rw [List.append_nil] at heq
    exact heq.symm
  cases next with
  | nil => rwa [List.append_nil]
  | cons d more =>
    obtain rfl : d = ' ' := hnext d rfl
    have hclosed' := hclosed []
    rw [List.append_nil] at hclosed'
    rw [front_append_stop more (by decide) hclosed', hself]

end StandsAlone

-- ============================================================================
-- Reading tokens back
-- ============================================================================

/-- A token of a text, written out at the end or before a space, is read back, and what follows it
    is read next. -/
theorem Form.tokens_source {lexeme rest value : List Char} {kind : Kind}
    (h : Form lexeme rest kind value) (place : Location)
    (hlast : kind = .string → value.getLast? ≠ some '\\') {next : List Char}
    (hnext : ∀ c ∈ next.head?, c = ' ') (p : Position) :
    let token : Token := ⟨kind, String.ofList value, place⟩
    ∃ q, (Scanner.mk p (token.source.toList ++ next)).tokens.1 =
      ⟨kind, String.ofList value, p.location⟩ :: (Scanner.mk q next).tokens.1 := by
  intro token
  by_cases hkind : kind = .string
  · subst hkind
    have hquoted := quoted_sourceChars value
    have hends := getLast?_sourceChars (hlast rfl)
    have hsource : token.source.toList = '\x22' :: (value.flatMap sourceChar ++ ['\x22']) := by
      simp [token, Token.source]
    rw [hsource]
    exact ⟨_, @tokens_of_form [] _ next value .string rfl (.closedString hquoted hends)
      (front_closedString hquoted hends next) p⟩
  · obtain rfl := h.value_eq hkind
    have halone := h.standsAlone hkind
    have hform := h.move (not_unclosed_of_standsAlone halone rest) next
    have hsource : token.source.toList = value := by
      simp [token, Token.source, hkind]
    have hgap := gap_of_standsAlone halone hnext
    rw [hsource]
    exact ⟨_, @tokens_of_form [] value next value kind hgap hform
      (hform.front_of_standsAlone halone hnext) p⟩

/-- A space in front of a text is skipped. -/
theorem tokens_space (p : Position) (text : List Char) :
    (Scanner.mk p (' ' :: text)).tokens.1 = (Scanner.mk (p.next ' ') text).tokens.1 := by
  have hspace : gap (' ' :: text) = ' ' :: gap text := gap_space (by decide) text
  obtain hgap | ⟨skipped, lexeme, rest, kind, value, rfl, hgap, hfront, hform⟩ := cut_cases text
  · rw [hgap] at hspace
    rw [tokens_of_gap hspace, tokens_of_gap hgap]
    rfl
  · rw [tokens_of_form hgap hform hfront]
    rw [hgap] at hspace
    exact @tokens_of_form (' ' :: skipped) lexeme rest value kind hspace hform hfront p

/-- The source of several tokens begins with that of the first, and a space comes next if there are
    others. -/
theorem toList_sourceOf_cons (token : Token) (others : List Token) (ending : List Char) :
    (sourceOf (token :: others)).toList ++ ending = token.source.toList ++
      if others = [] then ending else ' ' :: ((sourceOf others).toList ++ ending) := by
  cases others with
  | nil => simp [sourceOf]
  | cons other others =>
    rw [if_neg (List.cons_ne_nil _ _)]
    simp [sourceOf, String.intercalate_cons_cons]

/-- An end of input behind other tokens adds the space before it. -/
theorem toList_sourceOf_concat (tokens : List Token) (place : Location) :
    (sourceOf (tokens ++ [⟨.endOfInput, "", place⟩])).toList =
      (sourceOf tokens).toList ++ if tokens = [] then [] else [' '] := by
  induction tokens with
  | nil => rfl
  | cons token tokens ih =>
    have hall := toList_sourceOf_cons token (tokens ++ [⟨.endOfInput, "", place⟩]) []
    rw [List.append_nil, if_neg (List.concat_ne_nil _ _), List.append_nil, ih] at hall
    rw [List.cons_append, hall, if_neg (List.cons_ne_nil _ _), toList_sourceOf_cons]
    split
    · rename_i hnone
      subst hnone
      rfl
    · rfl

/-- The tokens of a text written out, with nothing or a space behind them, are scanned to the same
    words. -/
theorem words_sourceOf (text : List Char) (p : Position)
    (h : ∀ token ∈ (Scanner.mk p text).tokens.1, token.kind = .string →
      token.text.toList.getLast? ≠ some '\\') :
    ∃ tokens place, (Scanner.mk p text).tokens.1 = tokens ++ [⟨.endOfInput, "", place⟩] ∧
      ∀ ending, ending = [] ∨ ending = [' '] → ∀ q : Position,
        (Scanner.mk q ((sourceOf tokens).toList ++ ending)).tokens.1.map Token.word =
          tokens.map Token.word ++ [⟨.endOfInput, ""⟩] := by
  induction text using cut_induction generalizing p with
  | done skipped hgap =>
    refine ⟨[], _, tokens_of_gap hgap p, ?_⟩
    rintro ending (rfl | rfl) q
    · exact congrArg (List.map Token.word) (@tokens_of_gap [] rfl q)
    · exact congrArg (List.map Token.word) (@tokens_of_gap [' '] rfl q)
  | more skipped lexeme rest kind value hgap hfront hform ih =>
    rw [tokens_of_form hgap hform hfront] at h ⊢
    obtain ⟨htoken, hothers⟩ := List.forall_mem_cons.mp h
    obtain ⟨tokens, place, heq, hread⟩ := ih _ hothers
    rw [heq]
    refine ⟨_ :: tokens, place, rfl, ?_⟩
    intro ending hending q
    rw [toList_sourceOf_cons]
    -- Behind a token there is a space or nothing, whether it is the last or not; that is all its
    -- lexeme depends on.
    generalize hfollows : (if tokens = [] then ending else
      ' ' :: ((sourceOf tokens).toList ++ ending)) = next
    have hnext : ∀ c ∈ next.head?, c = ' ' := by
      subst hfollows
      split
      · obtain rfl | rfl := hending <;> simp
      · simp
    have hlater : ∀ q : Position, (Scanner.mk q next).tokens.1.map Token.word =
        tokens.map Token.word ++ [⟨.endOfInput, ""⟩] := by
      intro q
      subst hfollows
      split
      · rename_i hnone
        subst hnone
        exact hread ending hending q
      · rw [tokens_space]
        exact hread ending hending _
    rw [String.toList_ofList] at htoken
    obtain ⟨q', hscan⟩ := hform.tokens_source (p.after skipped).location htoken hnext q
    rw [hscan, List.map_cons, hlater]
    rfl

end Lexical

/-- Tokens written out are scanned to the same words. For every text in whose tokens no string ends
    with a backslash, its tokens with single spaces between them, strings in quotes and the end of
    input as nothing, have the kinds and texts that they had. A space before the end of input
    makes no difference. -/
theorem tokenize_sourceOf (content : String)
    (h : ∀ token ∈ tokenize content, token.kind = .string →
      token.text.toList.getLast? ≠ some '\\') :
    (tokenize (sourceOf (tokenize content))).map Token.word =
        (tokenize content).map Token.word ∧
      (tokenize (sourceOf (tokenize content).dropLast)).map Token.word =
        (tokenize content).map Token.word := by
  obtain ⟨tokens, place, heq, hread⟩ := Lexical.words_sourceOf content.toList .start h
  have htokens : tokenize content = tokens ++ [⟨.endOfInput, "", place⟩] := heq
  have hwords : (tokenize content).map Token.word =
      tokens.map Token.word ++ [⟨.endOfInput, ""⟩] := by
    rw [htokens, List.map_append]
    rfl
  have hsource : ∀ ending, ending = [] ∨ ending = [' '] →
      ∀ text : String, text.toList = (sourceOf tokens).toList ++ ending →
        (tokenize text).map Token.word = (tokenize content).map Token.word := by
    intro ending hending text htext
    rw [tokenize, Scanner.ofText, htext, hread ending hending, hwords]
  constructor
  · refine hsource _ ?_ _ (by rw [htokens, Lexical.toList_sourceOf_concat])
    split
    · exact .inl rfl
    · exact .inr rfl
  · refine hsource [] (.inl rfl) _ ?_
    rw [htokens, List.dropLast_concat, List.append_nil]

/-- A second dot, two slashes that are no comment, a lone mark, a string over two lines with a
    backslash and a quote in it, and one that is not closed. -/
theorem tokenize_sourceOf_sample :
    let content := "1../ /#gLeT!\"\\\\\"\n\"\"c"
    (∀ token ∈ tokenize content, token.kind = .string →
        token.text.toList.getLast? ≠ some '\\') ∧
      sourceOf (tokenize content) = "1. . / / # gLeT ! \"\\\\\"\n\" \"c\" " ∧
      (tokenize (sourceOf (tokenize content))).map Token.word =
        (tokenize content).map Token.word := by
  intro content
  have hall : ((tokenize content).all fun token =>
      token.kind ≠ .string || token.text.toList.getLast? ≠ some '\\') = true := by decide +kernel
  have hlast : ∀ token ∈ tokenize content, token.kind = .string →
      token.text.toList.getLast? ≠ some '\\' := by
    intro token hmem hkind
    simpa [hkind] using List.all_eq_true.mp hall token hmem
  exact ⟨hlast, by decide +kernel, (tokenize_sourceOf content hlast).1⟩

end Storyboard
