/-
  Storyboard.Proofs.Script.EndTag

  Ends of script elements in the text of a script.

  A page ends its script at the first `</script`, in whatever case. Such a tag has no
  blank, quote or newline in it and only one `<`, so it does not reach over the seams at
  which a script is put together: `Carries P text` says that the text can be followed by
  anything without a tag across the seam, and that it holds a tag just if `P`. Nothing
  but a literal brings a tag along, and a literal holds one just if its value does.
-/
import Storyboard.Proofs.Script.ExprLayout

namespace Storyboard

namespace Script

-- ============================================================================
-- Tags
-- ============================================================================

/-- How the end of a script element begins. -/
def endTag : List Char := ['<', '/', 's', 'c', 'r', 'i', 'p', 't']

/-- Whether a text begins with an end of a script element, in whatever case. -/
def startsEnd (cs : List Char) : Bool := endTag.isPrefixOf (cs.map Char.toLower)

/-- Whether such an end begins anywhere in a text. -/
def holdsEnd : List Char → Bool
  | [] => false
  | c :: cs => startsEnd (c :: cs) || holdsEnd cs

/-- Only `<` can be the first character of a tag. -/
theorem startsEnd_cons_of_ne {c : Char} (h : c ≠ '<') (cs : List Char) :
    startsEnd (c :: cs) = false := by
  have hlower : c.toLower ≠ '<' := by
    unfold Char.toLower
    split
    · rename_i hupper
      intro heq
      have hval := congrArg (fun d : Char => d.val.toNat) heq
      have hfirst := UInt32.le_iff_toNat_le.mp hupper.1
      have hlast := UInt32.le_iff_toNat_le.mp hupper.2
      simp only [UInt32.toNat_add] at hval
      simp at hval hfirst hlast
      omega
    · exact h
  rw [startsEnd, endTag, List.map_cons, List.isPrefixOf_cons_cons, beq_false_of_ne hlower.symm,
    Bool.false_and]

theorem holdsEnd_cons_of_ne {c : Char} (h : c ≠ '<') (cs : List Char) :
    holdsEnd (c :: cs) = holdsEnd cs := by
  rw [holdsEnd, startsEnd_cons_of_ne h, Bool.false_or]

/-- Text without `<` has no part in a tag. -/
theorem holdsEnd_append_of_ne {cs : List Char} (h : ∀ c ∈ cs, c ≠ '<') (rest : List Char) :
    holdsEnd (cs ++ rest) = holdsEnd rest := by
  induction cs with
  | nil => rfl
  | cons c cs ih =>
    obtain ⟨hc, hcs⟩ := List.forall_mem_cons.mp h
    rw [List.cons_append, holdsEnd_cons_of_ne hc, ih hcs]

/-- No part of a tag reaches a character that is not in it. -/
theorem isPrefixOf_over {tag : List Char} {d : Char} (h : d.toLower ∉ tag)
    (cs rest : List Char) :
    tag.isPrefixOf ((cs ++ d :: rest).map Char.toLower) = tag.isPrefixOf (cs.map Char.toLower) := by
  induction cs generalizing tag with
  | nil =>
    cases tag with
    | nil => rfl
    | cons t tag =>
      have hne : t ≠ d.toLower := fun heq => h (heq ▸ List.mem_cons_self)
      simp only [List.nil_append, List.map_cons, List.map_nil, List.isPrefixOf_cons_cons,
        beq_false_of_ne hne, Bool.false_and, List.isPrefixOf_cons_nil]
  | cons c cs ih =>
    cases tag with
    | nil => rfl
    | cons t tag =>
      have hrest := ih fun hmem => h (List.mem_cons_of_mem t hmem)
      simp only [List.cons_append, List.map_cons, List.isPrefixOf_cons_cons, hrest]

/-- A character that no tag has parts the tags before it from those behind it. -/
theorem holdsEnd_over {d : Char} (h : d.toLower ∉ endTag) (cs rest : List Char) :
    holdsEnd (cs ++ d :: rest) = (holdsEnd cs || holdsEnd rest) := by
  induction cs with
  | nil =>
    have hd : d ≠ '<' := by
      rintro rfl
      exact h (by decide)
    rw [List.nil_append, holdsEnd_cons_of_ne hd]
    rfl
  | cons c cs ih =>
    have hstart : startsEnd (c :: cs ++ d :: rest) = startsEnd (c :: cs) :=
      isPrefixOf_over h (c :: cs) rest
    rw [List.cons_append] at hstart ⊢
    rw [holdsEnd, hstart, ih, holdsEnd, Bool.or_assoc]

-- ============================================================================
-- Texts that a tag does not leave
-- ============================================================================

/-- A text behind which no tag of it goes on. -/
def Sealed (cs : List Char) : Prop :=
  ∀ rest, holdsEnd (cs ++ rest) = (holdsEnd cs || holdsEnd rest)

namespace Sealed

theorem append {cs ds : List Char} (h : Sealed cs) (h' : Sealed ds) : Sealed (cs ++ ds) := by
  intro rest
  rw [List.append_assoc, h, h', h ds, Bool.or_assoc]

theorem of_ne {cs : List Char} (h : ∀ c ∈ cs, c ≠ '<') : Sealed cs := by
  intro rest
  have hnone := holdsEnd_append_of_ne h []
  rw [List.append_nil] at hnone
  rw [holdsEnd_append_of_ne h, hnone]
  rfl

/-- Text that ends with a character that no tag has. -/
theorem concat {d : Char} (h : d.toLower ∉ endTag) (cs : List Char) : Sealed (cs ++ [d]) := by
  intro rest
  rw [List.append_assoc, List.singleton_append, holdsEnd_over h, holdsEnd_over h cs []]
  simp [holdsEnd]

end Sealed

/-- A text behind which no tag of it goes on, and which holds a tag just if `P`. -/
structure Carries (P : Prop) (text : String) : Prop where
  sealed : Sealed text.toList
  holds : holdsEnd text.toList = true ↔ P

namespace Carries

variable {P Q : Prop}

theorem congr {text : String} (h : Carries P text) (hiff : P ↔ Q) : Carries Q text :=
  ⟨h.sealed, h.holds.trans hiff⟩

theorem append {front back : String} (h : Carries P front) (h' : Carries Q back) :
    Carries (P ∨ Q) (front ++ back) := by
  constructor
  · rw [String.toList_append]
    exact h.sealed.append h'.sealed
  · rw [String.toList_append, h.sealed, Bool.or_eq_true, h.holds, h'.holds]

/-- Text without `<`. -/
theorem of_ne {text : String} (h : ∀ c ∈ text.toList, c ≠ '<') : Carries False text := by
  refine ⟨.of_ne h, ?_⟩
  have hnone := holdsEnd_append_of_ne h []
  rw [List.append_nil] at hnone
  rw [hnone]
  simp [holdsEnd]

/-- Fixed text without `<`. -/
theorem of_chars {cs : List Char} (h : cs.all (· ≠ '<') = true) :
    Carries False (String.ofList cs) := by
  refine of_ne fun c hc => ?_
  rw [String.toList_ofList] at hc
  simpa using List.all_eq_true.mp h c hc

/-- Nothing is added by text before or behind that has no tag. -/
theorem after {front back : String} (h : Carries False front) (h' : Carries P back) :
    Carries P (front ++ back) := (h.append h').congr (by simp)

theorem before {front back : String} (h : Carries P front) (h' : Carries False back) :
    Carries P (front ++ back) := (h.append h').congr (by simp)

/-- Texts without tags between separators without tags. -/
theorem intercalate {separator : String} {texts : List String} (hseparator : Carries False separator)
    (h : ∀ text ∈ texts, Carries False text) : Carries False (separator.intercalate texts) := by
  induction texts with
  | nil => exact .of_chars rfl
  | cons text texts ih =>
    obtain ⟨htext, htexts⟩ := List.forall_mem_cons.mp h
    cases texts with
    | nil =>
      rw [String.intercalate_singleton]
      exact htext
    | cons second texts =>
      rw [String.intercalate_cons_cons]
      exact (htext.before hseparator).before (ih htexts)

/-- Names and numbers. -/
theorem of_solid {text : String} (h : Solid text) : Carries False text := by
  refine of_ne fun c hc heq => ?_
  have hsolid := h.chars c hc
  rw [heq] at hsolid
  exact absurd hsolid (by decide)

/-- An operator of a text and the blank behind it. -/
theorem operator {content : String} {token : Token} (h : InText content token)
    (hkind : token.kind.isOperator = true) : Carries False (token.text ++ " ") := by
  -- No operator holds a whole tag, and the blank behind it keeps it from being a part of one.
  have hmarks : Lexical.marks.all (fun mark => !mark.2.isOperator ||
      !holdsEnd (mark.1 ++ [' '])) = true := by decide
  have hblank : ' '.toLower ∉ endTag := by decide
  obtain ⟨before, lexeme, rest, -, -, ⟨hend, -⟩ | ⟨value, htext, hform, -⟩⟩ :=
    exists_lexeme_of_mem_tokenize h.1
  · rw [hend] at hkind
    cases hkind
  · have hchars : (token.text ++ " ").toList = value ++ [' '] := by
      rw [htext, String.toList_append, String.toList_ofList]
      rfl
    refine ⟨?_, ?_⟩
    · rw [hchars]
      exact .concat hblank value
    · rw [hchars]
      generalize token.kind = kind at hform hkind
      cases hform with
      | mark hmem =>
        have hnone := List.all_eq_true.mp hmarks _ hmem
        simp only [hkind, Bool.not_true, Bool.false_or, Bool.not_eq_true'] at hnone
        simp [hnone]
      | newline => cases hkind
      | number => cases hkind
      | keyword => cases hkind
      | identifier => cases hkind
      | color => cases hkind
      | closedString => cases hkind
      | openString => cases hkind
      | illegal => cases hkind

end Carries

-- ============================================================================
-- Literals
-- ============================================================================

/-- Characters of a tag, in whatever case, stand in a literal as they are. -/
theorem literalChar_of_mem {c : Char} (h : c.toLower ∈ endTag) : Text.literalChar c = [c] := by
  unfold Char.toLower at h
  split at h
  · rename_i hupper
    have hne : ∀ d : Char, ¬('A'.val ≤ d.val ∧ d.val ≤ 'Z'.val) → c ≠ d := by
      rintro d hd rfl
      exact hd hupper
    have hfirst : ' ' ≤ c := Char.le_trans (by decide) hupper.1
    have hlast : c ≤ '~' := Char.le_trans hupper.2 (by decide)
    simp [Text.literalChar, hne '\x22' (by decide), hne '\\' (by decide), hne '\n' (by decide),
      hne '\r' (by decide), hne '\t' (by decide), hne '\x08' (by decide), hne '\x0c' (by decide),
      hfirst, hlast]
  · have htag : endTag.all (fun t => Text.literalChar t == [t]) = true := by decide
    exact beq_iff_eq.mp (List.all_eq_true.mp htag c h)

/-- A character stands in a literal as it is, or is escaped by something that does not begin a
    tag. -/
theorem literalChar_cases (c : Char) :
    Text.literalChar c = [c] ∨
      ∃ escape, Text.literalChar c = '\\' :: escape ∧ ∀ d ∈ escape, d ≠ '<' := by
  have htable : Text.shortEscapes.all (fun entry => entry.1 != '<') = true := by decide
  obtain ⟨escape, unit, hchar, -, hmem⟩ | ⟨hchar, -⟩ | hchar := Text.literalChar_forms c
  · have hescape : escape ≠ '<' := by simpa using List.all_eq_true.mp htable _ hmem
    exact .inr ⟨[escape], hchar, List.forall_mem_singleton.mpr hescape⟩
  · exact .inl hchar
  · have hunit : ∀ unit, ∀ d ∈ 'u' :: Text.hexDigits 4 unit, d ≠ '<' := fun unit =>
      List.forall_mem_cons.mpr ⟨by decide, Text.forall_mem_hexDigits (by decide)⟩
    have hunits : ∀ units : List Nat, ∀ d ∈ units.flatMap Text.escapeUnit, d ≠ '<' := by
      intro units d hd
      obtain ⟨unit, -, hd⟩ := List.mem_flatMap.mp hd
      exact List.forall_mem_cons.mpr ⟨by decide, hunit unit⟩ d hd
    obtain ⟨unit, units, hutf⟩ := List.exists_cons_of_ne_nil (Text.utf16_ne_nil c)
    rw [hutf, List.flatMap_cons] at hchar
    exact .inr ⟨_, hchar, List.forall_mem_append.mpr ⟨hunit unit, hunits units⟩⟩

/-- What of a tag a literal begins with, its value begins with. -/
theorem isPrefixOf_literal {tag : List Char} (h : ∀ t ∈ tag, t ∈ endTag) (cs : List Char) :
    tag.isPrefixOf ((cs.flatMap Text.literalChar ++ ['\x22']).map Char.toLower) =
      tag.isPrefixOf (cs.map Char.toLower) := by
  induction cs generalizing tag with
  | nil =>
    cases tag with
    | nil => rfl
    | cons t tag =>
      have hne : t ≠ '\x22'.toLower := by
        rintro rfl
        exact absurd (h _ List.mem_cons_self) (by decide)
      simp only [List.flatMap_nil, List.nil_append, List.map_cons, List.map_nil,
        List.isPrefixOf_cons_cons, beq_false_of_ne hne, Bool.false_and, List.isPrefixOf_cons_nil]
  | cons c cs ih =>
    cases tag with
    | nil => rfl
    | cons t tag =>
      obtain ⟨ht, htag⟩ := List.forall_mem_cons.mp h
      rw [List.flatMap_cons, List.append_assoc]
      rcases literalChar_cases c with hplain | ⟨escape, hescape, -⟩
      · simp only [hplain, List.cons_append, List.nil_append, List.map_cons,
          List.isPrefixOf_cons_cons, ih htag]
      · -- An escape begins with a backslash, which is not in a tag; and what is escaped is not in
        -- one either.
        have hslash : t ≠ '\\'.toLower := by
          rintro rfl
          exact absurd ht (by decide)
        have hne : t ≠ c.toLower := by
          rintro rfl
          rw [literalChar_of_mem ht] at hescape
          cases hescape
          exact absurd ht (by decide)
        simp only [hescape, List.cons_append, List.map_cons, List.isPrefixOf_cons_cons,
          beq_false_of_ne hslash, beq_false_of_ne hne, Bool.false_and]

/-- A literal holds a tag just if its value does. -/
theorem holdsEnd_literal (cs : List Char) :
    holdsEnd (cs.flatMap Text.literalChar ++ ['\x22']) = holdsEnd cs := by
  induction cs with
  | nil => decide
  | cons c cs ih =>
    have hstart := isPrefixOf_literal (fun t ht => ht) (c :: cs)
    rw [List.flatMap_cons, List.append_assoc] at hstart ⊢
    rcases literalChar_cases c with hplain | ⟨escape, hescape, hfree⟩
    · rw [hplain] at hstart ⊢
      rw [List.singleton_append] at hstart ⊢
      rw [holdsEnd, holdsEnd, ih, startsEnd, hstart, startsEnd]
    · have hless : Text.literalChar '<' = ['<'] := by decide
      have hc : c ≠ '<' := by
        rintro rfl
        rw [hless] at hescape
        cases hescape
      rw [hescape, holdsEnd_append_of_ne (List.forall_mem_cons.mpr ⟨by decide, hfree⟩), ih,
        holdsEnd_cons_of_ne hc]

theorem Carries.literal (value : String) :
    Carries (holdsEnd value.toList = true) (Text.literal value) := by
  have hquote : '\x22'.toLower ∉ endTag := by decide
  have hchars : (Text.literal value).toList =
      '\x22' :: (value.toList.flatMap Text.literalChar ++ ['\x22']) := by
    rw [Text.literal, String.toList_ofList, List.cons_append]
  refine ⟨?_, ?_⟩
  · rw [hchars]
    exact .concat hquote ('\x22' :: value.toList.flatMap Text.literalChar)
  · rw [hchars, holdsEnd_cons_of_ne (by decide), holdsEnd_literal]

end Script

end Storyboard
