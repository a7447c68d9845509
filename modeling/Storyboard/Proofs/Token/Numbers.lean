/-
  Storyboard.Proofs.Token.Numbers

  Every number token of a text holds a number. The scanner takes digits with at most
  one point among them; reading numerals, which knows many more forms, leaves such a
  text as it is and finds nothing behind its last digit.
-/
import Storyboard.Proofs.Number.Numeral
import Storyboard.Proofs.Parse.Soundness
import Storyboard.Proofs.Token.Splitting

namespace Storyboard

open Text (isAsciiDigit)

namespace Numeral

/-! ## Plain numerals -/

/-- A digit or a point. -/
def isPlain (c : Char) : Bool := isAsciiDigit c || c = '.'

theorem isAsciiNumeral_of_isPlain {c : Char} (h : isPlain c = true) : isAsciiNumeral c = true := by
  rw [isPlain, Bool.or_eq_true, decide_eq_true_eq] at h
  rw [isAsciiNumeral, Bool.or_eq_true]
  exact h.imp id fun hpoint => by rw [hpoint]; rfl

/-- Behind the digits of a plain text comes its end or a point. -/
theorem dropWhile_of_isPlain {cs : List Char} (h : ∀ c ∈ cs, isPlain c = true) :
    cs.dropWhile isAsciiDigit = [] ∨ ∃ more, cs.dropWhile isAsciiDigit = '.' :: more ∧
      (∀ c ∈ more, isPlain c = true) ∧ more.count '.' < cs.count '.' := by
  induction cs with
  | nil => exact .inl rfl
  | cons c cs ih =>
    obtain ⟨hc, hcs⟩ := List.forall_mem_cons.mp h
    by_cases hdigit : isAsciiDigit c = true
    · rw [List.dropWhile_cons_of_pos hdigit,
        List.count_cons_of_ne (Lexical.ne_dot_of_isAsciiDigit hdigit)]
      exact ih hcs
    · obtain rfl : c = '.' := by simpa [isPlain, hdigit] using hc
      refine .inr ⟨cs, List.dropWhile_cons_of_neg hdigit, hcs, ?_⟩
      rw [List.count_cons_self]
      exact Nat.lt_succ_self _

/-- A digit, and then digits with at most one point, are a decimal number. -/
theorem decimal?_isSome {c : Char} {cs : List Char} (hdigit : isAsciiDigit c = true)
    (hplain : ∀ d ∈ cs, isPlain d = true) (hcount : cs.count '.' ≤ 1) (negative : Bool) :
    (decimal? negative (c :: cs)).isSome = true := by
  have hwhole : ((c :: cs).takeWhile isAsciiDigit).isEmpty = false := by
    rw [List.takeWhile_cons_of_pos hdigit]
    rfl
  rw [decimal?, List.dropWhile_cons_of_pos hdigit]
  obtain hend | ⟨more, hpoint, hmore, hless⟩ := dropWhile_of_isPlain hplain
  · simp [hend, hwhole, exponent?]
  · -- No second point can follow, so the digits behind the point are the rest of the text.
    obtain hend | ⟨others, _, _, hless'⟩ := dropWhile_of_isPlain hmore
    · simp [hpoint, hend, hwhole, exponent?]
    · omega

/-- A digit, and then digits with at most one point, can be read, and the number has no sign. -/
theorem exists_read? {c : Char} {cs : List Char} (hdigit : isAsciiDigit c = true)
    (hall : ∀ d ∈ cs, isAsciiDigit d = true ∨ d = '.') (hcount : cs.count '.' ≤ 1) :
    ∃ x, read? (String.ofList (c :: cs)) = some x ∧ x.isNegative = false ∧
      x.magnitude ≤ Binary64.infinityBits := by
  have hplain : ∀ d ∈ cs, isPlain d = true := by simpa [isPlain] using hall
  rw [read?_eq_decimal? hdigit fun d hd => isAsciiNumeral_of_isPlain (hplain d hd)]
  obtain ⟨x, hx⟩ := Option.isSome_iff_exists.mp (decimal?_isSome hdigit hplain hcount false)
  exact ⟨x, hx, decimal?_unsigned hx⟩

end Numeral

/-! ## Number tokens -/

/-- The number tokens of a text that is cut by the lexical rules hold numbers. -/
theorem Lexical.Splits.numbersReadable {before text : List Char} {tokens : List Token}
    (h : Splits before text tokens) : NumbersReadable tokens := by
  induction h with
  | done => simp [NumbersReadable]
  | @more before gap lexeme rest value kind tokens _ _ hform _ ih =>
    refine List.forall_mem_cons.mpr ⟨?_, ih⟩
    rintro rfl
    cases hform with
    | number hdigit hall hcount =>
      obtain ⟨x, hx, -⟩ := Numeral.exists_read? hdigit hall hcount
      exact Option.isSome_iff_exists.mpr ⟨x, hx⟩
    | mark hmark => simp [marks] at hmark

/-- Every number token of a text holds a number. -/
theorem numbersReadable_tokenize (content : String) : NumbersReadable (tokenize content) :=
  (Lexical.splits_tokens (.ofText content) [] rfl).numbersReadable

end Storyboard
