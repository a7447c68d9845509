/-
  Storyboard.Proofs.Token.Splitting

  The scanner cuts a text by the lexical rules, and in no other way.

  For each class of lexemes there are two lemmas: what the scanner takes off the front
  of a text is of the class, and nothing at the front that is of the class is longer.
  `front` names the lexeme that the scanner takes, so that the lemmas of all classes
  can be put together: it is the longest lexeme (`longest_front`), and whatever form it
  has, the scanner makes the token of that form (`Form.scanToken_eq`). With the same
  two facts about gaps, `tokenize_eq_iff_splits` follows by an induction on what is
  left of the text.
-/
import Storyboard.Proofs.Token.Lexical

namespace Storyboard.Lexical

open Lexeme
open Text (isAsciiDigit)

-- ============================================================================
-- Gaps
-- ============================================================================

/-- A beginning whose characters all pass a test is no longer than the run of such characters. -/
theorem length_le_takeWhile {p : Char → Bool} {other : List Char}
    (hall : ∀ c ∈ other, p c = true) (left : List Char) :
    other.length ≤ ((other ++ left).takeWhile p).length := by
  rw [List.takeWhile_append_of_pos hall, List.length_append]
  exact Nat.le_add_right _ _

theorem forall_mem_takeWhile (p : Char → Bool) (cs : List Char) :
    ∀ c ∈ cs.takeWhile p, p c = true := List.all_eq_true.mp List.all_takeWhile

theorem isSpace_iff {c : Char} : isSpace c = true ↔ c = ' ' ∨ c = '\t' ∨ c = '\r' := by
  simp [isSpace, or_assoc]

theorem gapFrom_true (cs : List Char) : gapFrom true cs = cs.takeWhile (· ≠ '\n') := by
  induction cs with
  | nil => rfl
  | cons c cs ih =>
    by_cases hc : c = '\n'
    · simp [gapFrom, hc]
    · simp [gapFrom, hc, ih]

theorem gap_comment (cs : List Char) :
    gap ('/' :: '/' :: cs) = '/' :: '/' :: cs.takeWhile (· ≠ '\n') := by
  rw [gap, gapFrom, gapFrom_true]

theorem gap_space {c : Char} (h : isSpace c = true) (cs : List Char) :
    gap (c :: cs) = c :: gap cs := by
  have hslash : c ≠ '/' := by
    rintro rfl
    exact absurd h (by decide)
  rw [gap, gapFrom, if_pos h, gap]
  intro ds hc _
  exact hslash hc

theorem gap_stop {c : Char} (hspace : isSpace c = false) (cs : List Char)
    (hslash : ¬ (c = '/' ∧ cs.head? = some '/')) : gap (c :: cs) = [] := by
  rw [gap, gapFrom, if_neg (by simp [hspace])]
  rintro ds rfl rfl
  exact hslash ⟨rfl, rfl⟩

/-- A text begins with a comment, with a space, or without a gap. -/
theorem gap_cases (c : Char) (cs : List Char) :
    (c = '/' ∧ ∃ ds, cs = '/' :: ds) ∨ isSpace c = true ∨
      (isSpace c = false ∧ gap (c :: cs) = []) := by
  by_cases hspace : isSpace c = true
  · exact .inr (.inl hspace)
  · rw [Bool.not_eq_true] at hspace
    by_cases hslash : c = '/' ∧ cs.head? = some '/'
    · exact .inl ⟨hslash.1, List.head?_eq_some_iff.mp hslash.2⟩
    · exact .inr (.inr ⟨hspace, gap_stop hspace cs hslash⟩)

theorem endsLine_dropWhile (cs : List Char) : EndsLine (cs.dropWhile (· ≠ '\n')) := by
  induction cs with
  | nil => exact .inl rfl
  | cons c cs ih =>
    by_cases hc : c = '\n'
    · exact .inr ⟨cs, by simp [hc]⟩
    · simpa [hc] using ih

/-- What ends a line does not begin with a space. -/
theorem EndsLine.head?_not_space {text : List Char} (h : EndsLine text) :
    ∀ c ∈ text.head?, isSpace c = false := by
  obtain rfl | ⟨more, rfl⟩ := h
  · simp
  · simp [isSpace]

/-- The gap at the front of a text is a gap in front of the rest, and no space comes next. -/
theorem gap_fits (cs : List Char) :
    ∃ rest, cs = gap cs ++ rest ∧ Gap (gap cs) rest ∧ ∀ c ∈ rest.head?, isSpace c = false := by
  induction cs with
  | nil => exact ⟨[], rfl, .done, by simp⟩
  | cons c cs ih =>
    obtain ⟨rfl, ds, rfl⟩ | hspace | ⟨hspace, hstop⟩ := gap_cases c cs
    · have hends := endsLine_dropWhile ds
      have hbody : '\n' ∉ ds.takeWhile (· ≠ '\n') := fun hmem => by
        simpa using forall_mem_takeWhile _ _ _ hmem
      have hcomment : Gap ('/' :: '/' :: (ds.takeWhile (· ≠ '\n') ++ [])) _ :=
        .comment hbody hends .done
      rw [List.append_nil] at hcomment
      rw [gap_comment]
      refine ⟨ds.dropWhile (· ≠ '\n'), ?_, hcomment, hends.head?_not_space⟩
      rw [List.cons_append, List.cons_append, List.takeWhile_append_dropWhile]
    · obtain ⟨rest, heq, hgap, hnext⟩ := ih
      rw [gap_space hspace]
      exact ⟨rest, congrArg (c :: ·) heq, .space (isSpace_iff.mp hspace) hgap, hnext⟩
    · rw [hstop]
      exact ⟨c :: cs, rfl, .done, by simpa using hspace⟩

/-- Where a line ends there is no gap. -/
theorem Gap.eq_nil_of_endsLine {gap rest : List Char} (h : Gap gap rest)
    (hends : EndsLine (gap ++ rest)) : gap = [] := by
  cases h with
  | done => rfl
  | space hc _ =>
    have hnot := hends.head?_not_space _ rfl
    rw [isSpace_iff.mpr hc] at hnot
    cases hnot
  | comment =>
    obtain hnil | ⟨more, hmore⟩ := hends
    · cases hnil
    · exact absurd (List.cons.inj hmore).1 (by decide)

/-- No gap at the front of a text is longer than the one taken. -/
theorem Gap.length_le {other left : List Char} (h : Gap other left) :
    other.length ≤ (gap (other ++ left)).length := by
  induction h with
  | done => exact Nat.zero_le _
  | space hc _ ih =>
    rw [List.cons_append, gap_space (isSpace_iff.mpr hc)]
    exact Nat.succ_le_succ ih
  | @comment body gap rest hbody hends hgap _ =>
    obtain rfl := hgap.eq_nil_of_endsLine hends
    have hall : ∀ c ∈ body, decide (c ≠ '\n') = true := by
      intro c hc
      simpa using fun heq : c = '\n' => hbody (heq ▸ hc)
    rw [List.append_nil, List.cons_append, List.cons_append, gap_comment]
    exact Nat.succ_le_succ (Nat.succ_le_succ (length_le_takeWhile hall rest))

/-- The gap at the front of a text is the longest. -/
theorem longest_gap (cs : List Char) :
    ∃ rest, cs = gap cs ++ rest ∧ Longest Gap (gap cs) rest ∧
      ∀ c ∈ rest.head?, isSpace c = false := by
  obtain ⟨rest, heq, hgap, hnext⟩ := gap_fits cs
  refine ⟨rest, heq, ⟨hgap, ?_⟩, hnext⟩
  intro other left hother hform
  have hle := hform.length_le
  rwa [hother, ← heq] at hle

-- ============================================================================
-- Classes of lexemes
-- ============================================================================

/-! ### Numbers -/

theorem ne_dot_of_isAsciiDigit {c : Char} (h : isAsciiDigit c = true) : c ≠ '.' := by
  rintro rfl
  exact absurd h (by decide)

/-- How many dots a numeral may have. -/
def dotsLeft (seenDot : Bool) : Nat := if seenDot then 0 else 1

/-- A numeral begins the text, and holds digits and no more dots than it may. -/
theorem numeralFrom_fits (seenDot : Bool) (cs : List Char) :
    numeralFrom seenDot cs <+: cs ∧
      (∀ d ∈ numeralFrom seenDot cs, isAsciiDigit d = true ∨ d = '.') ∧
      (numeralFrom seenDot cs).count '.' ≤ dotsLeft seenDot := by
  fun_induction numeralFrom seenDot cs with
  | case1 seenDot => simp
  | case2 seenDot c cs hdigit ih =>
    obtain ⟨hbegins, hall, hcount⟩ := ih
    refine ⟨(List.prefix_cons_inj c).mpr hbegins, ?_, ?_⟩
    · exact List.forall_mem_cons.mpr ⟨.inl hdigit, hall⟩
    · rwa [List.count_cons_of_ne (ne_dot_of_isAsciiDigit hdigit)]
  | case3 seenDot c cs hdigit hdot ih =>
    obtain ⟨hbegins, hall, hcount⟩ := ih
    rw [Bool.and_eq_true, decide_eq_true_eq, Bool.not_eq_true'] at hdot
    obtain ⟨rfl, rfl⟩ := hdot
    refine ⟨(List.prefix_cons_inj '.').mpr hbegins, ?_, ?_⟩
    · exact List.forall_mem_cons.mpr ⟨.inr rfl, hall⟩
    · rw [List.count_cons_self]
      exact Nat.succ_le_succ hcount
  | case4 seenDot c cs hdigit hdot => simp

/-- No beginning of digits and as many dots is longer. -/
theorem length_le_numeralFrom {seenDot : Bool} {other : List Char}
    (hall : ∀ d ∈ other, isAsciiDigit d = true ∨ d = '.')
    (hcount : other.count '.' ≤ dotsLeft seenDot) (left : List Char) :
    other.length ≤ (numeralFrom seenDot (other ++ left)).length := by
  induction other generalizing seenDot with
  | nil => exact Nat.zero_le _
  | cons c other ih =>
    obtain ⟨hc, hothers⟩ := List.forall_mem_cons.mp hall
    rw [List.cons_append, numeralFrom]
    by_cases hdigit : isAsciiDigit c = true
    · rw [List.count_cons_of_ne (ne_dot_of_isAsciiDigit hdigit)] at hcount
      rw [if_pos hdigit]
      exact Nat.succ_le_succ (ih hothers hcount)
    · obtain rfl := hc.resolve_left hdigit
      -- There may be a dot only if none was seen, and then there may be none behind it.
      rw [List.count_cons_self] at hcount
      cases seenDot with
      | true => exact absurd hcount (by simp [dotsLeft])
      | false =>
        rw [if_neg hdigit, if_pos (by decide)]
        exact Nat.succ_le_succ (ih hothers (Nat.le_of_succ_le_succ hcount))

/-! ### Words -/

theorem isAsciiDigit_of_startsWord {c : Char} (h : startsWord c = true) :
    isAsciiDigit c = false := by
  simp only [startsWord, isAsciiDigit, Bool.or_eq_true, Bool.and_eq_true, decide_eq_true_eq,
    Bool.and_eq_false_iff, decide_eq_false_iff_not, Char.le_def, UInt32.le_iff_toNat_le] at h ⊢
  rcases h with (⟨h, _⟩ | ⟨h, _⟩) | rfl
  · right
    simp at h ⊢
    omega
  · right
    simp at h ⊢
    omega
  · right
    decide

theorem isWordChar_of_startsWord {c : Char} (h : startsWord c = true) : isWordChar c = true := by
  rw [isWordChar, h, Bool.true_or]

/-- No two keywords are spelled alike, so looking a spelling up is to find it in the table. -/
theorem lookup_spellings_iff {text : String} {keyword : Keyword} :
    Keyword.spellings.lookup text = some keyword ↔ (text, keyword) ∈ Keyword.spellings := by
  constructor
  · intro h
    obtain ⟨before, after, heq, -⟩ := List.lookup_eq_some_iff.mp h
    rw [heq]
    exact List.mem_append_right before List.mem_cons_self
  · have hall : ∀ entry ∈ Keyword.spellings,
        Keyword.spellings.lookup entry.1 = some entry.2 := by decide
    exact hall (text, keyword)

theorem ofWord_of_spells {text : List Char} {keyword : Keyword} (h : Spells text keyword) :
    Kind.ofWord text = .keyword keyword := by
  rw [Kind.ofWord, Keyword.ofWord?, lookup_spellings_iff.mpr h]

theorem ofWord_of_not_spells {text : List Char} (h : ∀ keyword, ¬ Spells text keyword) :
    Kind.ofWord text = .identifier := by
  rw [Kind.ofWord, Keyword.ofWord?]
  cases hlookup : Keyword.spellings.lookup (String.ofList (text.map Char.toLower)) with
  | none => rfl
  | some keyword => exact absurd (lookup_spellings_iff.mp hlookup) (h keyword)

/-! ### Strings -/

/-- A character that is no quote, and no backslash before one, stands for itself. -/
theorem stringBody_plain {c : Char} {cs : List Char} (hc : c ≠ '\x22')
    (hescape : ¬ (c = '\\' ∧ cs.head? = some '\x22')) :
    stringBody (c :: cs) = c :: stringBody cs ∧ stringValue (c :: cs) = c :: stringValue cs := by
  have hpair : ∀ ds, c = '\\' → cs = '\x22' :: ds → False := by
    rintro ds rfl rfl
    exact hescape ⟨rfl, rfl⟩
  constructor
  · rw [stringBody, if_neg hc]
    exact hpair
  · rw [stringValue, if_neg hc]
    exact hpair

/-- What may stand between quotes does not begin with one. -/
theorem Quoted.head?_ne {content value : List Char} (h : Quoted content value) :
    content.head? ≠ some '\x22' := by
  cases h with
  | done => simp
  | quote => simp
  | plain hc => simpa using hc

/-- What may stand between quotes, with a quote behind it: the string ends there. -/
theorem Quoted.closed {content value : List Char} (h : Quoted content value)
    (hlast : content.getLast? ≠ some '\\') (rest : List Char) :
    stringBody (content ++ '\x22' :: rest) = content ++ ['\x22'] ∧
      stringValue (content ++ '\x22' :: rest) = value := by
  induction h with
  | done => exact ⟨rfl, rfl⟩
  | @quote content value _ ih =>
    obtain ⟨hbody, hvalue⟩ := ih (by cases content <;> simp_all)
    simp only [List.cons_append, stringBody, stringValue, hbody, hvalue, and_self]
  | @plain c content value hc hcontent ih =>
    obtain ⟨hbody, hvalue⟩ := ih (by cases content <;> simp_all)
    have hescape : ¬ (c = '\\' ∧ (content ++ '\x22' :: rest).head? = some '\x22') := by
      rintro ⟨rfl, hhead⟩
      cases content with
      | nil => exact hlast rfl
      | cons d content => exact hcontent.head?_ne hhead
    obtain ⟨hplain, hplain'⟩ := stringBody_plain hc hescape
    rw [List.cons_append, hplain, hplain', hbody, hvalue]
    exact ⟨rfl, rfl⟩

/-- What may stand between quotes, with nothing behind it: the string runs to the end. -/
theorem Quoted.unclosed {content value : List Char} (h : Quoted content value) :
    stringBody content = content ∧ stringValue content = value := by
  induction h with
  | done => exact ⟨rfl, rfl⟩
  | quote _ ih =>
    obtain ⟨hbody, hvalue⟩ := ih
    simp only [stringBody, stringValue, hbody, hvalue, and_self]
  | @plain c content value hc hcontent ih =>
    obtain ⟨hplain, hplain'⟩ := stringBody_plain hc fun h => hcontent.head?_ne h.2
    rw [hplain, hplain', ih.1, ih.2]
    exact ⟨rfl, rfl⟩

/-- Behind an opening quote there is a closing one, or the string runs to the end. -/
theorem exists_quoted (cs : List Char) :
    (∃ content value rest, cs = content ++ '\x22' :: rest ∧ Quoted content value ∧
      content.getLast? ≠ some '\\') ∨ ∃ value, Quoted cs value := by
  fun_induction stringBody cs with
  | case1 => exact .inr ⟨[], .done⟩
  | case2 cs ih =>
    obtain ⟨content, value, rest, rfl, hquoted, hlast⟩ | ⟨value, hquoted⟩ := ih
    · refine .inl ⟨'\\' :: '\x22' :: content, '\x22' :: value, rest, rfl, .quote hquoted, ?_⟩
      cases content <;> simp_all
    · exact .inr ⟨'\x22' :: value, .quote hquoted⟩
  | case3 cs hpair => exact .inl ⟨[], [], cs, rfl, .done, by simp⟩
  | case4 c cs hpair hc ih =>
    obtain ⟨content, value, rest, rfl, hquoted, hlast⟩ | ⟨value, hquoted⟩ := ih
    · refine .inl ⟨c :: content, c :: value, rest, rfl, .plain hc hquoted, ?_⟩
      cases content with
      | nil => simpa using fun h => hpair rest h rfl
      | cons d content => simpa using hlast
    · exact .inr ⟨c :: value, .plain hc hquoted⟩

/-! ### Marks -/

/-- An operator of two characters is a mark. -/
theorem mem_marks_of_ofPair? {a b : Char} {kind : Kind} (h : Kind.ofPair? a b = some kind) :
    ([a, b], kind) ∈ marks := by
  unfold Kind.ofPair? at h
  split at h <;> simp_all [marks]

/-- No operator of two characters ends with the null character. -/
theorem ofPair?_null (c : Char) : Kind.ofPair? c '\x00' = none := by
  unfold Kind.ofPair?
  split <;> simp_all

/-- A character of a kind of its own is a mark. -/
theorem mem_marks_of_ofChar {c : Char} (h : Kind.ofChar c ≠ .illegal) :
    ([c], Kind.ofChar c) ∈ marks := by
  unfold Kind.ofChar at h ⊢
  split <;> simp_all [marks]

/-- A character without a kind of its own is no mark. -/
theorem not_mem_marks_of_ofChar {c : Char} (h : Kind.ofChar c = .illegal) (kind : Kind) :
    ([c], kind) ∉ marks := by
  unfold Kind.ofChar at h
  split at h <;> simp_all [marks]

/-- A mark has two characters or one, and no other lexeme begins with the first of them. -/
theorem mark_cases {text : List Char} {kind : Kind} (h : (text, kind) ∈ marks) :
    (∃ a b, text = [a, b] ∧ opensLexeme a = false ∧ Kind.ofPair? a b = some kind) ∨
      ∃ a, text = [a] ∧ opensLexeme a = false ∧ Kind.ofChar a = kind := by
  simp only [marks, List.mem_cons, List.not_mem_nil, or_false, Prod.mk.injEq] at h
  rcases h with h | h | h | h | h | h | h | h | h | h | h | h | h | h | h | h | h | h
  all_goals obtain ⟨rfl, rfl⟩ := h
  iterate 4 exact .inl ⟨_, _, rfl, rfl, rfl⟩
  all_goals exact .inr ⟨_, rfl, rfl, rfl⟩

-- ============================================================================
-- The lexeme at the front
-- ============================================================================

/-- The lexeme that the scanner takes off the front of a text where no gap is. -/
def front : List Char → List Char
  | [] => []
  | c :: cs =>
    if c = '\n' then [c]
    else if isAsciiDigit c then numeral (c :: cs)
    else if c = '\x22' then quotedString (c :: cs)
    else if c = '#' then hexColor (c :: cs)
    else if startsWord c then word (c :: cs)
    else if (Kind.ofPair? c (cs.headD '\x00')).isSome then c :: cs.take 1
    else [c]

section Front

variable {c : Char} (cs : List Char) (p : Position)

/-- A digit begins a number. -/
theorem scanToken_digit (h : isAsciiDigit c = true) :
    front (c :: cs) = numeral (c :: cs) ∧
      (Scanner.mk p (c :: cs)).scanToken =
        (Scanner.mk p (c :: cs)).take .number (numeral (c :: cs)) := by
  have hnewline : c ≠ '\n' := by
    rintro rfl
    exact absurd h (by decide)
  exact ⟨by simp [front, hnewline, h],
    by simp [Scanner.scanToken, Scanner.peek, Scanner.scanNumber, hnewline, h]⟩

/-- A letter or an underscore begins a word. -/
theorem scanToken_word (h : startsWord c = true) :
    front (c :: cs) = word (c :: cs) ∧
      (Scanner.mk p (c :: cs)).scanToken =
        (Scanner.mk p (c :: cs)).take (.ofWord (word (c :: cs))) (word (c :: cs)) := by
  have hdigit := isAsciiDigit_of_startsWord h
  have hother : c ≠ '\n' ∧ c ≠ '\x22' ∧ c ≠ '#' := by
    refine ⟨?_, ?_, ?_⟩
    all_goals
      rintro rfl
      exact absurd h (by decide)
  exact ⟨by simp [front, hother, hdigit, h],
    by simp [Scanner.scanToken, Scanner.peek, Scanner.scanWord, hother, hdigit, h]⟩

/-- A character with which no other lexeme begins is a mark, the first of one, or illegal. -/
theorem scanToken_mark (h : opensLexeme c = false) :
    front (c :: cs) =
        (if (Kind.ofPair? c (cs.headD '\x00')).isSome then c :: cs.take 1 else [c]) ∧
      (Scanner.mk p (c :: cs)).scanToken = (Scanner.mk p (c :: cs)).scanMark := by
  simp only [opensLexeme, Bool.or_eq_false_iff, decide_eq_false_iff_not] at h
  obtain ⟨⟨⟨⟨hnewline, hdigit⟩, hquote⟩, hhash⟩, hword⟩ := h
  exact ⟨by simp [front, hnewline, hdigit, hquote, hhash, hword],
    by simp [Scanner.scanToken, Scanner.peek, hnewline, hdigit, hquote, hhash, hword]⟩

end Front

/-- A lexeme is not empty. -/
theorem Form.ne_nil {lexeme rest value : List Char} {kind : Kind}
    (h : Form lexeme rest kind value) : lexeme ≠ [] := by
  cases h with
  | mark hmark =>
    obtain ⟨a, b, rfl, -⟩ | ⟨a, rfl, -⟩ := mark_cases hmark
    · exact List.cons_ne_nil a [b]
    · exact List.cons_ne_nil a []
  | _ => exact List.cons_ne_nil _ _

/-- No lexeme at the front of a text is longer than the one taken. -/
theorem Form.length_le {other left value : List Char} {kind : Kind}
    (h : Form other left kind value) : other.length ≤ (front (other ++ left)).length := by
  cases h with
  | newline => exact Nat.le_refl 1
  | @number c cs left hdigit hall hcount =>
    rw [List.cons_append, (scanToken_digit _ .start hdigit).1, ← List.cons_append, numeral]
    refine length_le_numeralFrom (List.forall_mem_cons.mpr ⟨.inl hdigit, hall⟩) ?_ left
    rwa [List.count_cons_of_ne (ne_dot_of_isAsciiDigit hdigit)]
  | @keyword c cs left keyword hstart hall _ | @identifier c cs left hstart hall _ =>
    rw [List.cons_append, (scanToken_word _ .start hstart).1, ← List.cons_append, word]
    exact length_le_takeWhile
      (List.forall_mem_cons.mpr ⟨isWordChar_of_startsWord hstart, hall⟩) left
  | color hall => exact Nat.succ_le_succ (length_le_takeWhile hall left)
  | @closedString content value left hquoted hlast =>
    have hbody := (hquoted.closed hlast left).1
    change _ ≤ ('\x22' :: stringBody (content ++ ['\x22'] ++ left)).length
    exact Nat.le_of_eq (by rw [List.append_assoc, List.singleton_append, hbody])
  | @openString content value hquoted =>
    change _ ≤ ('\x22' :: stringBody (content ++ [])).length
    exact Nat.le_of_eq (by rw [List.append_nil, hquoted.unclosed.1])
  | mark hmark =>
    obtain ⟨a, b, rfl, hopens, hpair⟩ | ⟨a, rfl, hopens, -⟩ := mark_cases hmark
    · rw [List.cons_append, (scanToken_mark _ .start hopens).1]
      simp [hpair]
    · rw [List.cons_append, (scanToken_mark _ .start hopens).1]
      split <;> simp
  | illegal hopens =>
    rw [List.cons_append, (scanToken_mark _ .start hopens).1]
    split <;> simp

/-- The front of a text without a gap before it is a lexeme. -/
theorem front_fits {c : Char} (hspace : isSpace c = false) (cs : List Char) :
    ∃ rest, c :: cs = front (c :: cs) ++ rest ∧ IsLexeme (front (c :: cs)) rest := by
  -- By the first character: a newline, a digit, a quote, a number sign or a letter, and all else
  -- are marks.
  by_cases hopens : opensLexeme c = true
  · simp only [opensLexeme, Bool.or_eq_true, decide_eq_true_eq] at hopens
    obtain (((rfl | hdigit) | rfl) | rfl) | hstart := hopens
    · exact ⟨cs, rfl, _, _, .newline⟩
    · obtain ⟨⟨rest, heq⟩, hall, hcount⟩ := numeralFrom_fits false cs
      have hnumeral : front (c :: cs) = c :: numeralFrom false cs := by
        rw [(scanToken_digit cs .start hdigit).1, numeral, numeralFrom, if_pos hdigit]
      rw [hnumeral]
      exact ⟨rest, by rw [List.cons_append, heq], _, _, .number hdigit hall hcount⟩
    · have hstring : front ('\x22' :: cs) = '\x22' :: stringBody cs := rfl
      rw [hstring]
      obtain ⟨content, value, rest, rfl, hquoted, hlast⟩ | ⟨value, hquoted⟩ := exists_quoted cs
      · rw [(hquoted.closed hlast rest).1]
        exact ⟨rest, by simp, _, _, .closedString hquoted hlast⟩
      · rw [hquoted.unclosed.1]
        exact ⟨[], by simp, _, _, .openString hquoted⟩
    · refine ⟨cs.dropWhile isHexDigit, ?_, _, _, .color (forall_mem_takeWhile _ cs)⟩
      exact congrArg ('#' :: ·) List.takeWhile_append_dropWhile.symm
    · have hword : front (c :: cs) = c :: cs.takeWhile isWordChar := by
        rw [(scanToken_word cs .start hstart).1, word,
          List.takeWhile_cons_of_pos (isWordChar_of_startsWord hstart)]
      rw [hword]
      refine ⟨cs.dropWhile isWordChar, ?_, ?_⟩
      · rw [List.cons_append, List.takeWhile_append_dropWhile]
      · have hall := forall_mem_takeWhile isWordChar cs
        by_cases hspells : ∃ keyword, Spells (c :: cs.takeWhile isWordChar) keyword
        · obtain ⟨keyword, hspells⟩ := hspells
          exact ⟨_, _, .keyword hstart hall hspells⟩
        · exact ⟨_, _, .identifier hstart hall (not_exists.mp hspells)⟩
  · rw [Bool.not_eq_true] at hopens
    rw [(scanToken_mark cs .start hopens).1]
    cases hpair : Kind.ofPair? c (cs.headD '\x00') with
    | some kind =>
      cases cs with
      | nil => exact absurd hpair (by rw [List.headD_nil, ofPair?_null]; simp)
      | cons d cs => exact ⟨cs, rfl, _, _, .mark (mem_marks_of_ofPair? hpair)⟩
    | none =>
      refine ⟨cs, rfl, ?_⟩
      by_cases hkind : Kind.ofChar c = .illegal
      · refine ⟨_, _, .illegal hopens ?_ (not_mem_marks_of_ofChar hkind)⟩
        rw [← isSpace_iff, hspace]
        exact Bool.false_ne_true
      · exact ⟨_, _, .mark (mem_marks_of_ofChar hkind)⟩

/-- The front of a text without a gap before it is its longest lexeme. -/
theorem longest_front {c : Char} (hspace : isSpace c = false) (cs : List Char) :
    ∃ rest, c :: cs = front (c :: cs) ++ rest ∧ Longest IsLexeme (front (c :: cs)) rest := by
  obtain ⟨rest, heq, hform⟩ := front_fits hspace cs
  refine ⟨rest, heq, hform, ?_⟩
  rintro other left hother ⟨kind, value, hother'⟩
  have hle := hother'.length_le
  rwa [hother, ← heq] at hle

-- ============================================================================
-- Tokens of lexemes
-- ============================================================================

/-- A lexeme that is taken as it stands. -/
theorem take_eq (lexeme rest : List Char) (kind : Kind) (p : Position) :
    (Scanner.mk p (lexeme ++ rest)).take kind lexeme =
      (⟨kind, String.ofList lexeme, p.location⟩, ⟨p.after lexeme, rest⟩) := by
  rw [Scanner.take, Scanner.consume, List.take_left, List.drop_left]
  rfl

/-- Where there is an operator of two characters, it is taken. -/
theorem scanMark_of_some {s : Scanner} {kind : Kind}
    (h : Kind.ofPair? (s.peek 0) (s.peek 1) = some kind) :
    s.scanMark = s.take kind (s.rest.take 2) := by
  rw [Scanner.scanMark, h]

/-- Where there is none, a single character is taken. -/
theorem scanMark_of_none {s : Scanner} (h : Kind.ofPair? (s.peek 0) (s.peek 1) = none) :
    s.scanMark = s.take (.ofChar (s.peek 0)) (s.rest.take 1) := by
  rw [Scanner.scanMark, h]

/-- A single character is taken by itself only where there is no operator of two. -/
theorem scanToken_single {c : Char} {cs : List Char} (hopens : opensLexeme c = false)
    (hfront : front (c :: cs) = [c]) (p : Position) :
    (Scanner.mk p (c :: cs)).scanToken =
      (⟨Kind.ofChar c, String.ofList [c], p.location⟩, ⟨p.after [c], cs⟩) := by
  have hnone : Kind.ofPair? c ((Scanner.mk p (c :: cs)).peek 1) = none := by
    cases cs with
    | nil => exact ofPair?_null c
    | cons d cs =>
      rw [(scanToken_mark _ .start hopens).1] at hfront
      change Kind.ofPair? c d = none
      simpa using hfront
  rw [(scanToken_mark cs p hopens).2, scanMark_of_none (s := ⟨p, c :: cs⟩) hnone]
  exact take_eq [c] cs _ p

/-- Whatever form the lexeme at the front has, the scanner makes the token of that form. -/
theorem Form.scanToken_eq {lexeme rest value : List Char} {kind : Kind}
    (h : Form lexeme rest kind value) (hfront : front (lexeme ++ rest) = lexeme) (p : Position) :
    (Scanner.mk p (lexeme ++ rest)).scanToken =
      (⟨kind, String.ofList value, p.location⟩, ⟨p.after lexeme, rest⟩) := by
  -- The first character leads the scanner to the piece of this form, and the piece it takes is the
  -- front.
  cases h with
  | newline => exact take_eq ['\n'] rest .newline p
  | @number c cs rest hdigit hall hcount =>
    obtain ⟨hnumeral, hscan⟩ := scanToken_digit (cs ++ rest) p hdigit
    rw [List.cons_append] at hfront ⊢
    rw [hscan, ← hnumeral, hfront, ← List.cons_append, take_eq]
  | @keyword c cs rest keyword hstart hall hspells =>
    obtain ⟨hword, hscan⟩ := scanToken_word (cs ++ rest) p hstart
    rw [List.cons_append] at hfront ⊢
    rw [hscan, ← hword, hfront, ofWord_of_spells hspells, ← List.cons_append, take_eq]
  | @identifier c cs rest hstart hall hno =>
    obtain ⟨hword, hscan⟩ := scanToken_word (cs ++ rest) p hstart
    rw [List.cons_append] at hfront ⊢
    rw [hscan, ← hword, hfront, ofWord_of_not_spells hno, ← List.cons_append, take_eq]
  | @color cs rest hall =>
    have hscan : (Scanner.mk p ('#' :: cs ++ rest)).scanToken =
        (Scanner.mk p ('#' :: cs ++ rest)).take .color (front ('#' :: cs ++ rest)) := rfl
    rw [hscan, hfront, take_eq]
  | @closedString content value rest hquoted hlast =>
    have hscan : (Scanner.mk p ('\x22' :: (content ++ ['\x22']) ++ rest)).scanToken =
        (⟨.string, String.ofList (stringValue (content ++ ['\x22'] ++ rest)), p.location⟩,
          (Scanner.mk p ('\x22' :: (content ++ ['\x22']) ++ rest)).consume
            (front ('\x22' :: (content ++ ['\x22']) ++ rest)).length) := rfl
    rw [hscan, hfront, Scanner.consume, List.take_left, List.drop_left, List.append_assoc,
      List.singleton_append, (hquoted.closed hlast rest).2]
  | @openString content value hquoted =>
    have hscan : (Scanner.mk p ('\x22' :: content ++ [])).scanToken =
        (⟨.string, String.ofList (stringValue (content ++ [])), p.location⟩,
          (Scanner.mk p ('\x22' :: content ++ [])).consume
            (front ('\x22' :: content ++ [])).length) := rfl
    rw [hscan, hfront, Scanner.consume, List.take_left, List.drop_left, List.append_nil,
      hquoted.unclosed.2]
  | mark hmark =>
    obtain ⟨a, b, rfl, hopens, hpair⟩ | ⟨a, rfl, hopens, rfl⟩ := mark_cases hmark
    · have hscan := (scanToken_mark (b :: rest) p hopens).2
      rw [scanMark_of_some (s := ⟨p, a :: b :: rest⟩) hpair] at hscan
      exact hscan.trans (take_eq [a, b] rest kind p)
    · exact scanToken_single hopens hfront p
  | @illegal c rest hopens _ hmarks =>
    have hkind : Kind.ofChar c = .illegal :=
      Decidable.byContradiction fun h => hmarks _ (mem_marks_of_ofChar h)
    rw [← hkind]
    exact scanToken_single hopens hfront p

-- ============================================================================
-- Places
-- ============================================================================

/-- One more character moves the place as it moves the position. -/
theorem location_next {p : Position} {before : List Char} (h : p.location = placeAfter before)
    (c : Char) : (p.next c).location = placeAfter (before ++ [c]) := by
  simp only [Position.location, placeAfter, Location.mk.injEq] at h
  obtain ⟨hline, hcolumn⟩ := h
  by_cases hc : c = '\n'
  · subst hc
    simp [Position.next, Position.location, placeAfter, hline, Int.add_assoc]
  · simp [Position.next, Position.location, placeAfter, hc, hline, hcolumn, Int.add_assoc]

/-- The place behind a text follows from the place before it. -/
theorem location_after {p : Position} {before : List Char} (h : p.location = placeAfter before)
    (cs : List Char) : (p.after cs).location = placeAfter (before ++ cs) := by
  induction cs generalizing p before with
  | nil => rwa [List.append_nil]
  | cons c cs ih =>
    have hnext := ih (location_next h c)
    rwa [List.append_assoc, List.singleton_append] at hnext

-- ============================================================================
-- Texts
-- ============================================================================

/-- Skipping the gap of a text leaves the rest of it. -/
theorem skipGap_eq {s : Scanner} {rest : List Char} (h : s.rest = gap s.rest ++ rest) :
    s.skipGap = ⟨s.position.after (gap s.rest), rest⟩ := by
  rw [Scanner.skipGap, Scanner.consume]
  generalize gap s.rest = skipped at h ⊢
  rw [h, List.take_left, List.drop_left]

/-- The scanner's next step: the gap and the lexeme at the front, both the longest, and the token
    of any form that the lexeme has. -/
theorem scanToken_skipGap {s : Scanner} (h : s.skipGap.rest ≠ []) :
    ∃ gap lexeme rest, s.rest = gap ++ lexeme ++ rest ∧
      Longest Gap gap (lexeme ++ rest) ∧ Longest IsLexeme lexeme rest ∧
      ∀ {kind value}, Form lexeme rest kind value → s.skipGap.scanToken =
        (⟨kind, String.ofList value, (s.position.after gap).location⟩,
          ⟨(s.position.after gap).after lexeme, rest⟩) := by
  obtain ⟨text, heq, hgap, hnext⟩ := longest_gap s.rest
  rw [skipGap_eq heq] at h ⊢
  obtain ⟨c, cs, rfl⟩ := List.exists_cons_of_ne_nil h
  obtain ⟨rest, heq', hlexeme⟩ := longest_front (hnext c rfl) cs
  refine ⟨gap s.rest, front (c :: cs), rest, ?_, ?_, hlexeme, ?_⟩
  · rw [List.append_assoc, ← heq']
    exact heq
  · rw [← heq']
    exact hgap
  · intro kind value hform
    have hscan := hform.scanToken_eq (by rw [← heq']) (s.position.after (gap s.rest))
    rwa [← heq'] at hscan

/-- A text of which only a gap is left has no more tokens. -/
theorem tokens_of_end {s : Scanner} (h : s.skipGap.rest = []) :
    s.tokens.1 = [⟨.endOfInput, "", s.skipGap.location⟩] := by
  rw [Scanner.tokens]
  simp only [h, dite_true]

/-- Any other text has a token, and then those of what is left. -/
theorem tokens_of_more {s : Scanner} (h : s.skipGap.rest ≠ []) :
    s.tokens.1 = s.skipGap.scanToken.1 :: s.skipGap.scanToken.2.tokens.1 := by
  rw [Scanner.tokens]
  simp only [h, dite_false]

/-- The tokens of a text behind another one are those of its lexemes. -/
theorem splits_tokens (s : Scanner) (before : List Char)
    (hplace : s.location = placeAfter before) : Splits before s.rest s.tokens.1 := by
  -- Every token takes something off the text, so the induction is on how much is left of it.
  induction hlength : s.rest.length using Nat.strongRecOn generalizing s before with
  | ind length ih =>
    by_cases hend : s.skipGap.rest = []
    · obtain ⟨rest, heq, hgap, -⟩ := longest_gap s.rest
      rw [tokens_of_end hend]
      rw [skipGap_eq heq] at hend ⊢
      obtain rfl : rest = [] := hend
      rw [List.append_nil] at heq
      rw [← heq] at hgap ⊢
      have hlast : (Scanner.mk (s.position.after s.rest) []).location =
          placeAfter (before ++ s.rest) := location_after hplace s.rest
      rw [hlast]
      exact .done hgap
    · obtain ⟨gap, lexeme, rest, heq, hgap, hlexeme, hscan⟩ := scanToken_skipGap hend
      obtain ⟨kind, value, hform⟩ := hlexeme.fits
      have hless := Nat.lt_of_lt_of_le (Scanner.length_scanToken_lt hend)
        (Scanner.length_skipGap_le s)
      have hthere := location_after hplace gap
      rw [hscan hform, hlength] at hless
      have hrest := ih _ hless ⟨(s.position.after gap).after lexeme, rest⟩ (before ++ gap ++ lexeme)
        (location_after hthere lexeme) rfl
      rw [tokens_of_more hend, hscan hform, heq, hthere]
      exact .more hgap hlexeme hform hrest

/-- A text is cut in one way only, and the scanner finds it. -/
theorem Splits.tokens_eq {before text : List Char} {tokens : List Token}
    (h : Splits before text tokens) (p : Position) (hplace : p.location = placeAfter before) :
    (Scanner.mk p text).tokens.1 = tokens := by
  induction h generalizing p with
  | @done before skipped hgap =>
    obtain ⟨rest, heq, hgap', -⟩ := longest_gap skipped
    have hsame : skipped ++ [] = gap skipped ++ rest := by rw [List.append_nil, ← heq]
    obtain ⟨hskipped, hrest⟩ := hgap'.unique hgap hsame
    have hskip := skipGap_eq (s := ⟨p, skipped⟩) heq
    rw [← hskipped, ← hrest] at hskip
    rw [tokens_of_end (by rw [hskip]), hskip]
    exact congrArg (fun place => [Token.mk .endOfInput "" place]) (location_after hplace skipped)
  | @more before skipped lexeme rest value kind tokens hgap hlexeme hform _ ih =>
    have hne : (Scanner.mk p (skipped ++ lexeme ++ rest)).skipGap.rest ≠ [] := by
      obtain ⟨text, heq, hgap', -⟩ := longest_gap (skipped ++ lexeme ++ rest)
      obtain ⟨-, rfl⟩ := hgap'.unique hgap (by rw [← List.append_assoc, ← heq])
      rw [skipGap_eq heq]
      exact List.append_ne_nil_of_left_ne_nil hform.ne_nil rest
    obtain ⟨skipped', lexeme', rest', heq, hgap', hlexeme', hscan⟩ := scanToken_skipGap hne
    obtain ⟨rfl, htext⟩ := hgap.unique hgap' (by
      rw [← List.append_assoc, ← heq, List.append_assoc])
    obtain ⟨rfl, rfl⟩ := hlexeme.unique hlexeme' htext
    have hthere := location_after hplace skipped'
    rw [tokens_of_more hne, hscan hform, ih _ (location_after hthere lexeme'), hthere]

end Storyboard.Lexical

namespace Storyboard

/-- Scanning is exact and loses nothing: the tokens of a text are those of the lexemes into which
    the lexical rules cut it, each at the place of its lexeme, and an end of input at the end. -/
theorem tokenize_eq_iff_splits (text : String) (tokens : List Token) :
    tokenize text = tokens ↔ Lexical.Splits [] text.toList tokens := by
  constructor
  · rintro rfl
    exact Lexical.splits_tokens (.ofText text) [] rfl
  · intro h
    exact h.tokens_eq .start rfl

/-- A second dot, a string over two lines, a comment, a lone mark, and a string without an end. -/
example : (tokenize "1.2.3\"a\\\"\n\" // 1\n!LET\"\\\"").map
    (fun token => (token.kind, token.text, token.location)) =
      [(.number, "1.2", ⟨1, 1⟩), (.dot, ".", ⟨1, 4⟩), (.number, "3", ⟨1, 5⟩),
        (.string, "a\"\n", ⟨1, 6⟩), (.newline, "\n", ⟨2, 7⟩), (.illegal, "!", ⟨3, 1⟩),
        (.keyword (.statement .letWord), "LET", ⟨3, 2⟩), (.string, "\"", ⟨3, 5⟩),
        (.endOfInput, "", ⟨3, 8⟩)] := by decide +kernel

end Storyboard
