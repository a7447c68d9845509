/-
  Storyboard.Proofs.Script.Inline

  What a program brings into its script cannot upset brackets and margins. `Inline k`
  says of a text that, wherever `k` braces are open in code, a walk through it ends as
  it began; `Written k`, that it can be a line of its own there. Names are words with a
  mark at most, operators and numbers hold no brackets, and strings become literals that
  end on their line.
-/
import Storyboard.Proofs.Parse.Provenance
import Storyboard.Proofs.Script.Brackets
import Storyboard.Proofs.Source.Places
import Storyboard.Proofs.Text.Decoding

namespace Storyboard

namespace Script

-- ============================================================================
-- Texts within a line
-- ============================================================================

namespace Passes

/-- The walk through fixed characters. -/
theorem of_chars {s t : Spot} {cs : List Char} (h : s.walk cs = some t) :
    Passes s (String.ofList cs) t := by
  rw [Passes, String.toList_ofList]
  exact h

theorem append {s t u : Spot} {front back : String} (h : Passes s front t)
    (h' : Passes t back u) : Passes s (front ++ back) u := by
  unfold Passes at h h' ⊢
  rw [String.toList_append, Spot.walk_append, h]
  exact h'

end Passes

/-- A text that leaves the brackets as they are wherever it is code inside `k` braces. -/
def Inline (k : Nat) (text : String) : Prop :=
  ∀ opened, opened.count '\x7b' = k → Passes ⟨.code, opened⟩ text ⟨.code, opened⟩

/-- Whether a line of code may begin with a character. -/
def startsLine (c : Char) : Bool := !c.isWhitespace && c ≠ '/' && c ≠ '\x7d'

/-- A text with which a line of code may begin. -/
def Starts (text : String) : Prop :=
  ∃ c rest, text.toList = c :: rest ∧ startsLine c = true

/-- A text that can be a line of its own inside `k` braces. -/
structure Written (k : Nat) (text : String) : Prop where
  inline : Inline k text
  starts : Starts text

variable {k : Nat} {opened : List Char}

theorem Inline.append {front back : String} (h : Inline k front) (h' : Inline k back) :
    Inline k (front ++ back) :=
  fun opened hk => (h opened hk).append (h' opened hk)

theorem Starts.of_chars {c : Char} {cs : List Char} (h : startsLine c = true) :
    Starts (String.ofList (c :: cs)) := ⟨c, cs, String.toList_ofList, h⟩

theorem Starts.append {front : String} (h : Starts front) (back : String) :
    Starts (front ++ back) := by
  obtain ⟨c, rest, htext, hc⟩ := h
  exact ⟨c, rest ++ back.toList, by rw [String.toList_append, htext, List.cons_append], hc⟩

theorem Written.append {front back : String} (h : Written k front) (h' : Inline k back) :
    Written k (front ++ back) := ⟨h.inline.append h', h.starts.append back⟩

/-- Parentheses do not change how many braces are open. -/
theorem count_paren (hk : opened.count '\x7b' = k) : ('(' :: opened).count '\x7b' = k := by
  rw [List.count_cons_of_ne (by decide), hk]

theorem openParen_passes (opened : List Char) :
    Passes ⟨.code, opened⟩ "(" ⟨.code, '(' :: opened⟩ := .of_chars rfl

theorem closeParen_passes (opened : List Char) :
    Passes ⟨.code, '(' :: opened⟩ ")" ⟨.code, opened⟩ := .of_chars rfl

/-- A text in parentheses. -/
theorem Inline.parens {text : String} (h : Inline k text) : Inline k ("(" ++ text ++ ")") :=
  fun opened hk =>
    ((openParen_passes opened).append (h _ (count_paren hk))).append (closeParen_passes opened)

/-- Texts between commas. -/
theorem Inline.intercalate {texts : List String} (h : ∀ text ∈ texts, Inline k text) :
    Inline k (", ".intercalate texts) := by
  have hcomma : Inline k ", " := fun _ _ => .of_chars rfl
  induction texts with
  | nil => exact fun _ _ => rfl
  | cons first others ih =>
    obtain ⟨hfirst, hothers⟩ := List.forall_mem_cons.mp h
    cases others with
    | nil =>
      rw [String.intercalate_singleton]
      exact hfirst
    | cons second others =>
      rw [String.intercalate_cons_cons]
      exact (hfirst.append hcomma).append (ih hothers)

-- ============================================================================
-- Names, operators and numbers
-- ============================================================================

/-- Whether a character of code is no bracket, no quote and no newline. -/
def isPlain (c : Char) : Bool := !isBracket c && c ≠ '\n' && c ≠ '\x22'

theorem Inline.of_plain {text : String} (h : ∀ c ∈ text.toList, isPlain c = true) :
    Inline k text := by
  intro opened _
  unfold Passes
  generalize text.toList = text at h
  induction text with
  | nil => rfl
  | cons c text ih =>
    obtain ⟨hc, htext⟩ := List.forall_mem_cons.mp h
    have hstep : Spot.step ⟨.code, opened⟩ c = some ⟨.code, opened⟩ := by
      simp [isPlain, isBracket] at hc
      simp [Spot.step, Spot.allows, Mode.isCode, track, partner?, isBracket, Mode.next,
        Mode.behindCode, hc]
    rw [Spot.walk_cons, hstep]
    exact ih htext

/-- Characters of names and numbers. -/
def isSolid (c : Char) : Bool :=
  Lexeme.isWordChar c || c = '$' || c = '.' || c = '+' || c = '-'

/-- A text of such characters, at least one. -/
structure Solid (text : String) : Prop where
  ne_nil : text.toList ≠ []
  chars : ∀ c ∈ text.toList, isSolid c = true

/-- Fixed characters of names and numbers. -/
theorem forall_isSolid {cs : List Char} (h : cs.all isSolid = true) :
    ∀ c ∈ (String.ofList cs).toList, isSolid c = true := by
  rw [String.toList_ofList]
  exact List.all_eq_true.mp h

theorem isPlain_of_isSolid {c : Char} (h : isSolid c = true) :
    isPlain c = true ∧ startsLine c = true := by
  have hne : ∀ d, isSolid d = false → c ≠ d := by
    rintro d hd rfl
    rw [h] at hd
    cases hd
  have hbracket : isBracket c = false := by
    simp [isBracket, hne '(' rfl, hne ')' rfl, hne '\x7b' rfl, hne '\x7d' rfl]
  have hblank : c.isWhitespace = false := by
    simp [Char.isWhitespace, hne ' ' rfl, hne '\t' rfl, hne '\r' rfl, hne '\n' rfl]
  simp [isPlain, startsLine, hbracket, hblank, hne '\n' rfl, hne '\x22' rfl, hne '/' rfl,
    hne '\x7d' rfl]

namespace Solid

theorem of_chars {c : Char} {cs : List Char} (h : (c :: cs).all isSolid = true) :
    Solid (String.ofList (c :: cs)) := by
  refine ⟨?_, forall_isSolid h⟩
  rw [String.toList_ofList]
  exact List.cons_ne_nil c cs

theorem written {text : String} (h : Solid text) : Written k text := by
  refine ⟨.of_plain fun c hc => (isPlain_of_isSolid (h.chars c hc)).1, ?_⟩
  obtain ⟨c, rest, htext⟩ := List.exists_cons_of_ne_nil h.ne_nil
  have hc : c ∈ text.toList := by
    rw [htext]
    exact List.mem_cons_self
  exact ⟨c, rest, htext, (isPlain_of_isSolid (h.chars c hc)).2⟩

theorem append {front back : String} (h : Solid front)
    (h' : ∀ c ∈ back.toList, isSolid c = true) : Solid (front ++ back) := by
  refine ⟨?_, ?_⟩
  · rw [String.toList_append]
    exact List.append_ne_nil_of_left_ne_nil h.ne_nil _
  · rw [String.toList_append]
    exact List.forall_mem_append.mpr ⟨h.chars, h'⟩

theorem ofName {name : String} (h : IsName name.toList) : Solid name := by
  obtain ⟨c, cs, hname, -⟩ := h.starts
  refine ⟨by rw [hname]; exact List.cons_ne_nil c cs, fun d hd => ?_⟩
  simp [isSolid, h.wordChars d hd]

theorem userName {name : String} (h : IsName name.toList) : Solid (Script.userName name) := by
  unfold Script.userName
  split
  · exact (ofName h).append (forall_isSolid rfl)
  · exact ofName h

end Solid

/-- Digits are characters of numbers. -/
theorem isSolid_of_mem_toDigits {n : Nat} {c : Char} (h : c ∈ Nat.toDigits 10 n) :
    isSolid c = true := by
  have hdigit := Nat.isDigit_of_mem_toDigits (by decide) (by decide) h
  have hascii : Text.isAsciiDigit c = true := by
    simp only [Char.isDigit, Bool.and_eq_true, decide_eq_true_eq] at hdigit
    simp only [Text.isAsciiDigit, Bool.and_eq_true, decide_eq_true_eq]
    exact hdigit
  simp [isSolid, Lexeme.isWordChar, hascii]

theorem solid_toString (n : Nat) : Solid (toString n) := by
  have hdigits : (toString n).toList = Nat.toDigits 10 n := by simp
  refine ⟨?_, ?_⟩
  · rw [hdigits]
    exact List.ne_nil_of_length_pos Nat.length_toDigits_pos
  · rw [hdigits]
    exact fun c hc => isSolid_of_mem_toDigits hc

/-- So is a sign before them. -/
theorem solid_toString_int (n : Int) : Solid (toString n) := by
  cases n with
  | ofNat n => exact solid_toString n
  | negSucc n =>
    have hsign : Solid "-" := .of_chars rfl
    exact hsign.append (solid_toString (n + 1)).chars

/-- What stands before a text may be empty. -/
theorem Solid.of_append {front back : String} (h : ∀ c ∈ front.toList, isSolid c = true)
    (h' : Solid back) : Solid (front ++ back) := by
  refine ⟨?_, ?_⟩
  · rw [String.toList_append]
    exact List.append_ne_nil_of_right_ne_nil _ h'.ne_nil
  · rw [String.toList_append]
    exact List.forall_mem_append.mpr ⟨h, h'.chars⟩

theorem solid_positional (d : Decimal) : Solid d.positional := by
  have hdigits : ∀ c ∈ Nat.toDigits 10 d.digits, isSolid c = true :=
    fun c hc => isSolid_of_mem_toDigits hc
  have hzeros : ∀ n, ∀ c ∈ List.replicate n '0', isSolid c = true := by
    intro n c hc
    rw [(List.mem_replicate.mp hc).2]
    rfl
  have hdot : isSolid '.' = true := rfl
  have hzero : isSolid '0' = true := rfl
  unfold Decimal.positional
  refine ⟨?_, ?_⟩
  · rw [String.toList_ofList]
    split
    · exact List.cons_ne_nil _ _
    · split
      · simp
      · simp
  · rw [String.toList_ofList]
    split
    · simp only [List.forall_mem_cons, List.forall_mem_append, List.cons_append]
      exact ⟨hzero, hdot, hzeros _, hdigits⟩
    · split
      · simp only [List.forall_mem_cons, List.forall_mem_append]
        exact ⟨fun c hc => hdigits c (List.mem_of_mem_take hc), hdot,
          fun c hc => hdigits c (List.mem_of_mem_drop hc)⟩
      · simp only [List.forall_mem_cons, List.forall_mem_append]
        exact ⟨⟨hdigits, hzeros _⟩, hdot, hzero, by simp⟩

theorem solid_scientific (d : Decimal) : Solid d.scientific := by
  have hdigits : ∀ c ∈ Nat.toDigits 10 d.digits, isSolid c = true :=
    fun c hc => isSolid_of_mem_toDigits hc
  -- The exponent is the same with one digit or more before it: a sign and at least two digits.
  have hexponent : ∀ size : String, Solid size →
      Solid ((if d.point - 1 < 0 then "e-" else "e+") ++
        (if size.length < 2 then "0" ++ size else size)) := by
    intro size hsize
    have hhead : Solid (if d.point - 1 < 0 then "e-" else "e+") := by
      split
      · exact .of_chars rfl
      · exact .of_chars rfl
    refine hhead.append ?_
    split
    · exact (Solid.of_append (forall_isSolid rfl) hsize).chars
    · exact hsize.chars
  have hexponent' := hexponent _ (solid_toString (d.point - 1).natAbs)
  unfold Decimal.scientific
  dsimp only
  split
  · exact hexponent'
  · rename_i digit heq
    rw [heq] at hdigits
    refine Solid.of_append ?_ hexponent'
    rw [String.toList_ofList]
    exact hdigits
  · rename_i digit others _ heq
    rw [heq] at hdigits
    obtain ⟨hdigit, hothers⟩ := List.forall_mem_cons.mp hdigits
    refine Solid.of_append ?_ hexponent'
    rw [String.toList_ofList]
    exact List.forall_mem_cons.mpr ⟨hdigit, List.forall_mem_cons.mpr ⟨rfl, hothers⟩⟩

/-- Numbers are written without brackets, quotes and blanks. -/
theorem solid_inScript (x : Binary64) : Solid x.inScript := by
  have hsign : ∀ c ∈ x.sign.toList, isSolid c = true := by
    unfold Binary64.sign
    split
    · exact forall_isSolid rfl
    · exact forall_isSolid rfl
  unfold Binary64.inScript
  split
  · exact .of_chars rfl
  · split
    · exact .of_chars rfl
    · split
      · refine Solid.of_append ?_ (solid_toString x.wholePart)
        split
        · simp
        · exact hsign
      · refine Solid.of_append hsign ?_
        unfold Decimal.written
        split
        · exact solid_positional _
        · exact solid_scientific _

/-- The operators of a text are marks. -/
theorem mem_marks_of_isOperator {content : String} {token : Token} (h : InText content token)
    (hkind : token.kind.isOperator = true) : (token.text.toList, token.kind) ∈ Lexical.marks := by
  obtain ⟨before, lexeme, rest, -, -, ⟨hend, -⟩ | ⟨value, htext, hform, -⟩⟩ :=
    exists_lexeme_of_mem_tokenize h.1
  · rw [hend] at hkind
    cases hkind
  · rw [htext, String.toList_ofList]
    generalize token.kind = kind at hform hkind
    cases hform with
    | mark hmem => exact hmem
    | newline => cases hkind
    | number => cases hkind
    | keyword => cases hkind
    | identifier => cases hkind
    | color => cases hkind
    | closedString => cases hkind
    | openString => cases hkind
    | illegal => cases hkind

/-- Operators hold no brackets, quotes and newlines. -/
theorem inline_operator {content : String} {token : Token} (h : InText content token)
    (hkind : token.kind.isOperator = true) : Inline k token.text := by
  have hmarks : Lexical.marks.all (fun mark => !mark.2.isOperator || mark.1.all isPlain) = true :=
    by decide
  have hplain := List.all_eq_true.mp hmarks _ (mem_marks_of_isOperator h hkind)
  simp only [hkind, Bool.not_true, Bool.false_or] at hplain
  exact .of_plain (List.all_eq_true.mp hplain)

-- ============================================================================
-- String literals
-- ============================================================================

/-- Other characters than quotes and backslashes leave a literal open. -/
theorem walk_quoted {cs : List Char} (h : ∀ c ∈ cs, c ≠ '\n' ∧ c ≠ '\x22' ∧ c ≠ '\\') :
    Spot.walk ⟨.quoted, opened⟩ cs = some ⟨.quoted, opened⟩ := by
  induction cs with
  | nil => rfl
  | cons c cs ih =>
    obtain ⟨⟨hnewline, hquote, hslash⟩, hcs⟩ := List.forall_mem_cons.mp h
    have hstep : Spot.step ⟨.quoted, opened⟩ c = some ⟨.quoted, opened⟩ := by
      simp [Spot.step, Spot.allows, Mode.isCode, Mode.next, hnewline, hquote, hslash]
    rw [Spot.walk_cons, hstep]
    exact ih hcs

/-- So does a backslash with what follows it, if that is no newline. -/
theorem walk_escape {c : Char} {cs : List Char} (hc : c ≠ '\n') :
    Spot.walk ⟨.quoted, opened⟩ ('\\' :: c :: cs) = Spot.walk ⟨.quoted, opened⟩ cs := by
  have hstep : Spot.step ⟨.escaped, opened⟩ c = some ⟨.quoted, opened⟩ := by
    simp [Spot.step, Spot.allows, Mode.isCode, Mode.next, hc]
  rw [Spot.walk_cons, show Spot.step ⟨.quoted, opened⟩ '\\' = some ⟨.escaped, opened⟩ from rfl,
    Option.bind_some, Spot.walk_cons, hstep, Option.bind_some]

theorem walk_escapeUnit (unit : Nat) :
    Spot.walk ⟨.quoted, opened⟩ (Text.escapeUnit unit) = some ⟨.quoted, opened⟩ := by
  rw [Text.escapeUnit, walk_escape (by decide)]
  exact walk_quoted (Text.forall_mem_hexDigits (by decide))

theorem walk_literalChar (c : Char) :
    Spot.walk ⟨.quoted, opened⟩ (Text.literalChar c) = some ⟨.quoted, opened⟩ := by
  have htable : Text.shortEscapes.all (fun entry => entry.1 != '\n') = true := by decide
  obtain ⟨escape, unit, hchar, -, hmem⟩ | ⟨hchar, hquote, hslash, hprint, -⟩ | hchar :=
    Text.literalChar_forms c
  · have hescape : escape ≠ '\n' := by simpa using List.all_eq_true.mp htable _ hmem
    rw [hchar, walk_escape hescape]
    rfl
  · have hnewline : c ≠ '\n' := by
      rintro rfl
      exact absurd hprint (by decide)
    rw [hchar]
    exact walk_quoted (List.forall_mem_singleton.mpr ⟨hnewline, hquote, hslash⟩)
  · rw [hchar]
    induction Text.utf16 c with
    | nil => rfl
    | cons unit units ih =>
      rw [List.flatMap_cons, Spot.walk_append, walk_escapeUnit]
      exact ih

/-- A literal is closed by its last quote and holds no newline. -/
theorem written_literal (value : String) : Written k (Text.literal value) := by
  refine ⟨fun opened _ => ?_, .of_chars rfl⟩
  have hbody : ∀ cs : List Char,
      Spot.walk ⟨.quoted, opened⟩ (cs.flatMap Text.literalChar) = some ⟨.quoted, opened⟩ := by
    intro cs
    induction cs with
    | nil => rfl
    | cons c cs ih =>
      rw [List.flatMap_cons, Spot.walk_append, walk_literalChar]
      exact ih
  refine .of_chars ?_
  rw [List.cons_append, Spot.walk_cons,
    show Spot.step ⟨.code, opened⟩ '\x22' = some ⟨.quoted, opened⟩ from rfl, Option.bind_some,
    Spot.walk_append, hbody]
  rfl

end Script

end Storyboard
