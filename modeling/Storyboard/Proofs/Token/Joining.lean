/-
  Storyboard.Proofs.Token.Joining

  Texts put together line by line.

  A newline continues no gap and no lexeme but a string, so what stands before it is cut
  as if the text ended there, and what stands behind it as if the text began there. Only
  the places behind it are further down. `tokenize_append_line` says so of any two texts
  of which the first does not end inside a string.
-/
import Storyboard.Proofs.Token.Splitting

namespace Storyboard

namespace Lexical

open Lexeme
open Text (isAsciiDigit)

-- ============================================================================
-- Texts as gaps and lexemes
-- ============================================================================

/-- A text is only a gap, or it begins with a gap and a lexeme. -/
theorem cut_cases (text : List Char) :
    gap text = text ∨ ∃ skipped lexeme rest kind value, text = skipped ++ (lexeme ++ rest) ∧
      gap text = skipped ∧ front (lexeme ++ rest) = lexeme ∧ Form lexeme rest kind value := by
  obtain ⟨left, heq, -, hnext⟩ := gap_fits text
  cases left with
  | nil => exact .inl (by rw [List.append_nil] at heq; exact heq.symm)
  | cons c cs =>
    obtain ⟨rest, heq', kind, value, hform⟩ := front_fits (hnext c rfl) cs
    refine .inr ⟨gap text, front (c :: cs), rest, kind, value, ?_, rfl, ?_, hform⟩
    · rw [← heq']
      exact heq
    · rw [← heq']

/-- Induction on how a text is cut: a gap at its end, and before it gaps with lexemes. -/
theorem cut_induction {motive : List Char → Prop}
    (done : ∀ skipped, gap skipped = skipped → motive skipped)
    (more : ∀ skipped lexeme rest kind value, gap (skipped ++ (lexeme ++ rest)) = skipped →
      front (lexeme ++ rest) = lexeme → Form lexeme rest kind value → motive rest →
      motive (skipped ++ (lexeme ++ rest)))
    (text : List Char) : motive text := by
  -- Lexemes are not empty, so there is less text behind each of them.
  induction hlength : text.length using Nat.strongRecOn generalizing text with
  | ind length ih =>
    obtain hgap | ⟨skipped, lexeme, rest, kind, value, rfl, hgap, hfront, hform⟩ := cut_cases text
    · exact done text hgap
    · have hpos := List.length_pos_iff.mpr hform.ne_nil
      have hless : rest.length < length := by
        rw [← hlength, List.length_append, List.length_append]
        omega
      exact more skipped lexeme rest kind value hgap hfront hform (ih rest.length hless rest rfl)

/-- A text that is only a gap has no tokens but the end of input. -/
theorem tokens_of_gap {skipped : List Char} (h : gap skipped = skipped) (p : Position) :
    (Scanner.mk p skipped).tokens.1 = [⟨.endOfInput, "", (p.after skipped).location⟩] := by
  have hskip : (Scanner.mk p skipped).skipGap = ⟨p.after skipped, []⟩ := by
    have hall := @skipGap_eq ⟨p, skipped⟩ [] (by rw [h, List.append_nil])
    rwa [h] at hall
  rw [tokens_of_end (by rw [hskip]), hskip]
  rfl

/-- The scanner's step over a gap and a lexeme. -/
theorem tokens_of_form {gap lexeme rest value : List Char} {kind : Kind}
    (hgap : Lexeme.gap (gap ++ (lexeme ++ rest)) = gap) (hform : Form lexeme rest kind value)
    (hfront : front (lexeme ++ rest) = lexeme) (p : Position) :
    (Scanner.mk p (gap ++ (lexeme ++ rest))).tokens.1 =
      ⟨kind, String.ofList value, (p.after gap).location⟩ ::
        (Scanner.mk ((p.after gap).after lexeme) rest).tokens.1 := by
  have hskip : (Scanner.mk p (gap ++ (lexeme ++ rest))).skipGap =
      ⟨p.after gap, lexeme ++ rest⟩ := by
    have h := @skipGap_eq ⟨p, gap ++ (lexeme ++ rest)⟩ (lexeme ++ rest) (by rw [hgap])
    rwa [hgap] at h
  have hmore : (Scanner.mk p (gap ++ (lexeme ++ rest))).skipGap.rest ≠ [] := by
    rw [hskip]
    exact List.append_ne_nil_of_left_ne_nil hform.ne_nil rest
  rw [tokens_of_more hmore, hskip, hform.scanToken_eq hfront]

-- ============================================================================
-- Strings that are not closed
-- ============================================================================

/-- A string without a closing quote, up to the end of a text. -/
def Unclosed (text : List Char) : Prop :=
  ∃ content value, text = '\x22' :: content ∧ Quoted content value

/-- A text that ends inside a string: cut by the lexical rules, it has a string without a closing
    quote as its last lexeme. -/
inductive EndsInString : (text : List Char) → Prop where
  | here {gap lexeme : List Char} :
      Longest Gap gap lexeme → Unclosed lexeme → EndsInString (gap ++ lexeme)
  | later {gap lexeme rest : List Char} :
      Longest Gap gap (lexeme ++ rest) → Longest IsLexeme lexeme rest → EndsInString rest →
      EndsInString (gap ++ lexeme ++ rest)

theorem longest_of_gap {skipped rest : List Char} (h : gap (skipped ++ rest) = skipped) :
    Longest Gap skipped rest := by
  obtain ⟨rest', heq, hlongest, -⟩ := longest_gap (skipped ++ rest)
  rw [h] at heq hlongest
  rwa [List.append_cancel_left heq]

theorem Form.longest {lexeme rest value : List Char} {kind : Kind}
    (h : Form lexeme rest kind value) (hfront : front (lexeme ++ rest) = lexeme) :
    Longest IsLexeme lexeme rest := by
  refine ⟨⟨kind, value, h⟩, ?_⟩
  rintro other left hother ⟨kind', value', hother'⟩
  have hle := hother'.length_le
  rwa [hother, hfront] at hle

/-- A text that is only a gap does not end inside a string. -/
theorem not_endsInString_of_gap {skipped : List Char} (h : gap skipped = skipped) :
    ¬EndsInString skipped := by
  have hlongest : Longest Gap skipped [] := longest_of_gap (by rw [List.append_nil, h])
  intro hends
  generalize htext : skipped = text at hends
  cases hends with
  | here hgap hopen =>
    obtain ⟨-, rfl⟩ := hlongest.unique hgap (by rw [List.append_nil, htext])
    obtain ⟨content, value, hnil, -⟩ := hopen
    cases hnil
  | later hgap hlexeme _ =>
    obtain ⟨-, hnil⟩ := hlongest.unique hgap (by rw [List.append_nil, htext, List.append_assoc])
    obtain ⟨kind, value, hform⟩ := hlexeme.fits
    exact hform.ne_nil (List.append_eq_nil_iff.mp hnil).1

/-- A text ends inside a string if it goes on with one that is not closed, or if what is left behind
    its first lexeme ends inside one. -/
theorem endsInString_iff {skipped lexeme rest value : List Char} {kind : Kind}
    (hgap : gap (skipped ++ (lexeme ++ rest)) = skipped)
    (hfront : front (lexeme ++ rest) = lexeme) (hform : Form lexeme rest kind value) :
    EndsInString (skipped ++ (lexeme ++ rest)) ↔ Unclosed (lexeme ++ rest) ∨ EndsInString rest := by
  have hlongest := longest_of_gap hgap
  constructor
  · intro hends
    generalize htext : skipped ++ (lexeme ++ rest) = text at hends
    cases hends with
    | here hgap' hopen =>
      obtain ⟨-, rfl⟩ := hlongest.unique hgap' htext.symm
      exact .inl hopen
    | later hgap' hlexeme hrest =>
      rw [List.append_assoc] at htext
      obtain ⟨-, hsame⟩ := hlongest.unique hgap' htext.symm
      obtain ⟨-, rfl⟩ := (hform.longest hfront).unique hlexeme hsame
      exact .inr hrest
  · rintro (hopen | hrest)
    · exact .here hlongest hopen
    · rw [← List.append_assoc]
      exact .later hlongest (hform.longest hfront) hrest

/-- Only a string without a closing quote has to stand at the end of a text. -/
theorem Form.move {lexeme rest value : List Char} {kind : Kind} (h : Form lexeme rest kind value)
    (hclosed : ¬Unclosed (lexeme ++ rest)) (rest' : List Char) : Form lexeme rest' kind value := by
  cases h with
  | newline => exact .newline
  | number hdigit hall hcount => exact .number hdigit hall hcount
  | keyword hstart hall hspells => exact .keyword hstart hall hspells
  | identifier hstart hall hno => exact .identifier hstart hall hno
  | color hall => exact .color hall
  | closedString hquoted hlast => exact .closedString hquoted hlast
  | openString hquoted => exact absurd ⟨_, _, List.append_nil _, hquoted⟩ hclosed
  | mark hmark => exact .mark hmark
  | illegal hopens hspace hmarks => exact .illegal hopens hspace hmarks

-- ============================================================================
-- Characters that end lexemes
-- ============================================================================

/-- Whether some lexeme that is no string goes on with this character. -/
def continuesLexeme (c : Char) : Bool := isWordChar c || isHexDigit c || c = '.' || c = '='

section Stop

variable {d : Char} (more : List Char)

theorem takeWhile_append_stop {p : Char → Bool} (hd : p d = false) (cs : List Char) :
    (cs ++ d :: more).takeWhile p = cs.takeWhile p := by
  induction cs with
  | nil => exact List.takeWhile_cons_of_neg (by simp [hd])
  | cons c cs ih =>
    rw [List.cons_append, List.takeWhile_cons, List.takeWhile_cons, ih]

theorem numeralFrom_append_stop (hdigit : isAsciiDigit d = false) (hdot : d ≠ '.')
    (seenDot : Bool) (cs : List Char) :
    numeralFrom seenDot (cs ++ d :: more) = numeralFrom seenDot cs := by
  fun_induction numeralFrom seenDot cs with
  | case1 seenDot => simp [numeralFrom, hdigit, hdot]
  | case2 seenDot c cs hc ih => rw [List.cons_append, numeralFrom, if_pos hc, ih]
  | case3 seenDot c cs hc hpoint ih =>
    rw [List.cons_append, numeralFrom, if_neg hc, if_pos hpoint, ih]
  | case4 seenDot c cs hc hpoint => rw [List.cons_append, numeralFrom, if_neg hc, if_neg hpoint]

/-- No operator of two characters has anything but an equals sign in the second place. -/
theorem ofPair?_of_ne (c : Char) (hd : d ≠ '=') : Kind.ofPair? c d = none := by
  unfold Kind.ofPair?
  split <;> simp_all

/-- A closed string ends with its closing quote, whatever follows. -/
theorem front_closedString {content value : List Char} (h : Quoted content value)
    (hlast : content.getLast? ≠ some '\\') (next : List Char) :
    front ('\x22' :: (content ++ ['\x22']) ++ next) = '\x22' :: (content ++ ['\x22']) := by
  change '\x22' :: stringBody (content ++ ['\x22'] ++ next) = _
  rw [List.append_assoc, List.singleton_append, (h.closed hlast next).1]

/-- A character that continues no lexeme leaves the one before it as it is. -/
theorem front_append_stop (hd : continuesLexeme d = false) {c : Char} {cs : List Char}
    (hclosed : ¬Unclosed (c :: cs)) : front (c :: cs ++ d :: more) = front (c :: cs) := by
  simp only [continuesLexeme, isWordChar, Bool.or_eq_false_iff, decide_eq_false_iff_not] at hd
  obtain ⟨⟨⟨⟨hstart, hdigit⟩, hhex⟩, hdot⟩, hequals⟩ := hd
  have hword : isWordChar d = false := by rw [isWordChar, hstart, hdigit, Bool.or_self]
  by_cases hopens : opensLexeme c = true
  · simp only [opensLexeme, Bool.or_eq_true, decide_eq_true_eq] at hopens
    obtain (((rfl | hc) | rfl) | rfl) | hc := hopens
    · rfl
    · rw [List.cons_append, (scanToken_digit _ .start hc).1, (scanToken_digit _ .start hc).1]
      exact numeralFrom_append_stop more hdigit hdot false (c :: cs)
    · -- The string is closed before the end of the text.
      obtain ⟨content, value, rest, rfl, hquoted, hlast⟩ | ⟨value, hquoted⟩ := exists_quoted cs
      · have hfront : ∀ next, front ('\x22' :: (content ++ '\x22' :: (rest ++ next))) =
            '\x22' :: (content ++ ['\x22']) := by
          intro next
          simpa using front_closedString hquoted hlast (rest ++ next)
        have hnone := hfront []
        rw [List.append_nil] at hnone
        rw [hnone, List.cons_append, List.append_assoc, List.cons_append, hfront]
      · exact absurd ⟨cs, value, rfl, hquoted⟩ hclosed
    · exact congrArg ('#' :: ·) (takeWhile_append_stop more hhex cs)
    · rw [List.cons_append, (scanToken_word _ .start hc).1, (scanToken_word _ .start hc).1]
      exact takeWhile_append_stop more hword (c :: cs)
  · rw [Bool.not_eq_true] at hopens
    rw [List.cons_append, (scanToken_mark _ .start hopens).1, (scanToken_mark _ .start hopens).1]
    -- A single mark at the end might have made a pair with the new character, but only an equals
    -- sign ends a pair.
    cases cs with
    | nil =>
      rw [List.headD_nil, ofPair?_null]
      change (if (Kind.ofPair? c d).isSome then _ else _) = _
      rw [ofPair?_of_ne c hequals]
      rfl
    | cons e cs => rfl

end Stop

/-- A newline continues no gap. -/
theorem gap_append_newline (cs more : List Char) : gap (cs ++ '\n' :: more) = gap cs := by
  induction cs with
  | nil => exact gap_stop (by decide) more fun h => absurd h.1 (by decide)
  | cons c cs ih =>
    obtain ⟨rfl, ds, rfl⟩ | hspace | ⟨hspace, hstop⟩ := gap_cases c cs
    · rw [List.cons_append, List.cons_append, gap_comment, gap_comment,
        takeWhile_append_stop more (by decide)]
    · rw [List.cons_append, gap_space hspace, gap_space hspace, ih]
    · rw [hstop]
      refine gap_stop hspace _ ?_
      rintro ⟨rfl, hhead⟩
      cases cs with
      | nil => exact absurd (Option.some.inj hhead) (by decide)
      | cons e cs =>
        obtain rfl : e = '/' := Option.some.inj hhead
        rw [gap_comment] at hstop
        cases hstop

-- ============================================================================
-- Lines
-- ============================================================================

theorem tokens_newline (p : Position) (more : List Char) :
    (Scanner.mk p ('\n' :: more)).tokens.1 =
      ⟨.newline, "\n", p.location⟩ :: (Scanner.mk (p.next '\n') more).tokens.1 :=
  @tokens_of_form [] ['\n'] more ['\n'] .newline
    (gap_stop (by decide) more fun h => absurd h.1 (by decide)) .newline rfl p

/-- What stands before a newline is cut as if the text ended there. -/
theorem tokens_append_newline {text : List Char} (h : ¬EndsInString text) (p : Position)
    (more : List Char) :
    ∃ tokens, (Scanner.mk p text).tokens.1 =
        tokens ++ [⟨.endOfInput, "", (p.after text).location⟩] ∧
      (Scanner.mk p (text ++ '\n' :: more)).tokens.1 =
        tokens ++ (Scanner.mk (p.after text) ('\n' :: more)).tokens.1 := by
  induction text using cut_induction generalizing p with
  | done skipped hgap =>
    have hmore : gap (skipped ++ (['\n'] ++ more)) = skipped := by
      rw [List.singleton_append, gap_append_newline, hgap]
    refine ⟨[], tokens_of_gap hgap p, ?_⟩
    rw [tokens_newline]
    exact tokens_of_form hmore .newline rfl p
  | more skipped lexeme rest kind value hgap hfront hform ih =>
    -- The lexeme is no string without an end, so it stays the same with the newline behind it.
    obtain ⟨hclosed, hrest⟩ := not_or.mp (mt (endsInString_iff hgap hfront hform).mpr h)
    obtain ⟨tokens, hend, hjoined⟩ := ih hrest ((p.after skipped).after lexeme)
    have hafter : p.after (skipped ++ (lexeme ++ rest)) =
        ((p.after skipped).after lexeme).after rest := by
      rw [Position.after, List.foldl_append, List.foldl_append]
      rfl
    refine ⟨⟨kind, String.ofList value, (p.after skipped).location⟩ :: tokens, ?_, ?_⟩
    · rw [tokens_of_form hgap hform hfront, hend, hafter]
      rfl
    · have hgap' : gap (skipped ++ (lexeme ++ (rest ++ '\n' :: more))) = skipped := by
        rw [← List.append_assoc, ← List.append_assoc, gap_append_newline, List.append_assoc, hgap]
      have hfront' : front (lexeme ++ (rest ++ '\n' :: more)) = lexeme := by
        obtain ⟨c, cs, hcons⟩ := List.exists_cons_of_ne_nil
          (List.append_ne_nil_of_left_ne_nil hform.ne_nil rest)
        rw [← List.append_assoc]
        rw [hcons] at hclosed hfront ⊢
        rw [front_append_stop more (by decide) hclosed, hfront]
      rw [List.append_assoc, List.append_assoc,
        tokens_of_form hgap' (hform.move hclosed _) hfront', hjoined, hafter]
      rfl

end Lexical

namespace Position

/-- A position a number of lines further down. -/
def Below (lines : Nat) (p q : Position) : Prop := q.line = p.line + lines ∧ q.column = p.column

theorem Below.after {lines : Nat} {p q : Position} (h : Below lines p q) (cs : List Char) :
    Below lines (p.after cs) (q.after cs) := by
  induction cs generalizing p q with
  | nil => exact h
  | cons c cs ih =>
    refine ih ?_
    obtain ⟨hline, hcolumn⟩ := h
    unfold next
    split
    · exact ⟨by rw [hline, Nat.add_right_comm], rfl⟩
    · exact ⟨hline, by rw [hcolumn]⟩

end Position

/-- The token a number of lines further down. -/
def Token.movedDown (lines : Nat) (token : Token) : Token :=
  { token with location := ⟨token.location.line + lines, token.location.column⟩ }

theorem Position.Below.movedDown {lines : Nat} {p q : Position} (h : p.Below lines q) (kind : Kind)
    (text : String) :
    Token.mk kind text q.location = (Token.mk kind text p.location).movedDown lines := by
  simp only [Token.movedDown, location, h.1, h.2, Int.natCast_add]

/-- The same text further down has the same tokens further down. -/
theorem Lexical.tokens_movedDown {lines : Nat} {p q : Position} (h : p.Below lines q)
    (text : List Char) :
    (Scanner.mk q text).tokens.1 = (Scanner.mk p text).tokens.1.map (Token.movedDown lines) := by
  induction text using cut_induction generalizing p q with
  | done skipped hgap =>
    rw [tokens_of_gap hgap, tokens_of_gap hgap, (h.after skipped).movedDown]
    rfl
  | more skipped lexeme rest kind value hgap hfront hform ih =>
    rw [tokens_of_form hgap hform hfront, tokens_of_form hgap hform hfront, List.map_cons,
      (h.after skipped).movedDown, ih ((h.after skipped).after lexeme)]

/-- Scanning goes line by line. If a text does not end inside a string, then the tokens of it, a
    newline and any other text are: its own without the end of input, a newline where that end was,
    and those of the other text, below by one line and as many as there are newlines before. -/
theorem tokenize_append_line (text other : String) (h : ¬Lexical.EndsInString text.toList) :
    ∃ tokens place, tokenize text = tokens ++ [⟨.endOfInput, "", place⟩] ∧
      tokenize (text ++ "\n" ++ other) = tokens ++ ⟨.newline, "\n", place⟩ ::
        (tokenize other).map (Token.movedDown (1 + text.toList.count '\n')) := by
  obtain ⟨tokens, hend, hjoined⟩ := Lexical.tokens_append_newline h .start other.toList
  have hplace : (Position.after .start text.toList).location =
      Lexical.placeAfter text.toList := @Lexical.location_after .start [] rfl text.toList
  have hbelow : Position.Below (1 + text.toList.count '\n') .start
      ((Position.after .start text.toList).next '\n') := by
    have hline := congrArg Location.line hplace
    simp only [Position.location, Lexical.placeAfter] at hline
    refine ⟨?_, rfl⟩
    change (Position.after .start text.toList).line + 1 = 1 + _
    omega
  refine ⟨tokens, _, hend, ?_⟩
  rw [tokenize, Scanner.ofText, String.toList_append, String.toList_append, List.append_assoc]
  exact hjoined.trans (by rw [Lexical.tokens_newline, Lexical.tokens_movedDown hbelow]; rfl)

/-- A string over two lines with a quote in it, and a comment that opens another; the other text
    ends inside a string. -/
theorem tokenize_append_line_sample :
    let text := "\"a\\\"\n\" / // \""
    let other := "/ \"b"
    ¬Lexical.EndsInString text.toList ∧
      ∃ tokens place, tokenize text = tokens ++ [⟨.endOfInput, "", place⟩] ∧
        tokenize (text ++ "\n" ++ other) = tokens ++ ⟨.newline, "\n", place⟩ ::
          (tokenize other).map (Token.movedDown (1 + text.toList.count '\n')) := by
  intro text other
  have hquoted : Lexical.Quoted ['a', '\\', '\x22', '\n'] ['a', '\x22', '\n'] :=
    .plain (by decide) (.quote (.plain (by decide) .done))
  have hstring := @Lexical.endsInString_iff [] _ [' ', '/', ' ', '/', '/', ' ', '\x22'] _ _
    rfl rfl (.closedString hquoted (by decide))
  have hmark := @Lexical.endsInString_iff [' '] ['/'] [' ', '/', '/', ' ', '\x22'] _
    (.multiplicative .divide) rfl rfl (.mark (by decide))
  have hends : ¬Lexical.EndsInString text.toList := by
    have htext : text.toList = [] ++ ('\x22' :: (['a', '\\', '\x22', '\n'] ++ ['\x22']) ++
      [' ', '/', ' ', '/', '/', ' ', '\x22']) := by decide +kernel
    rw [htext]
    intro hends
    obtain ⟨content, value, heq, hopen⟩ | hends := hstring.mp hends
    · cases heq
      exact absurd hopen.unclosed.1 (by decide)
    obtain ⟨content, value, heq, -⟩ | hends := hmark.mp hends
    · exact absurd (List.cons.inj heq).1 (by decide)
    · exact Lexical.not_endsInString_of_gap rfl hends
  exact ⟨hends, tokenize_append_line text other hends⟩

end Storyboard
