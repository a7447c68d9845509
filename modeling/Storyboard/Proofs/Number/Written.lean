/-
  Storyboard.Proofs.Number.Written

  A number in a script is read back. Whatever notation a decimal is written in, its
  digits and its exponent are found again (`decimal?_written`), and the shortest
  decimal of a value, like the digits of a whole one, stands for the value. So numbers
  with the same text are the same (`eq_of_inScript_eq`).
-/
import Storyboard.Number.Written
import Storyboard.Proofs.Number.Numeral
import Storyboard.Proofs.Number.Shortest

namespace Storyboard

open Text (isAsciiDigit)
open Binary64 (ofDecimal digitCount)

namespace Numeral

-- ============================================================================
-- Digits
-- ============================================================================

theorem readDigits_eq (start : Nat) (cs : List Char) :
    readDigits start cs = Nat.ofDigitChars 10 cs start := by
  rw [Nat.ofDigitChars_eq_foldl, readDigits]
  congr 1
  funext n c
  rw [Nat.mul_comm]
  rfl

theorem readDigits_append (start : Nat) (cs ds : List Char) :
    readDigits start (cs ++ ds) = readDigits (readDigits start cs) ds := List.foldl_append

theorem readDigits_toDigits (n : Nat) : readDigits 0 (Nat.toDigits 10 n) = n := by
  rw [readDigits_eq]
  exact Nat.ofDigitChars_ten_toDigits

theorem readDigits_zeros (start zeros : Nat) :
    readDigits start (List.replicate zeros '0') = start * Nat.pow 10 zeros := by
  rw [readDigits_eq, Nat.ofDigitChars_replicate_zero, Nat.mul_comm]
  rfl

theorem isAsciiDigit_of_mem_toDigits {n : Nat} :
    ∀ d ∈ Nat.toDigits 10 n, isAsciiDigit d = true := by
  intro d hd
  have hdigit := Nat.isDigit_of_mem_toDigits (by decide) (by decide) hd
  simpa [isAsciiDigit, Char.isDigit, Char.le_def] using hdigit

-- ============================================================================
-- Reading a numeral with digits known
-- ============================================================================

section Decimal

variable {whole fraction tail : List Char}

/-- The digits in front of something else. -/
theorem span_digits (hwhole : ∀ d ∈ whole, isAsciiDigit d = true)
    (htail : ∀ c ∈ tail.head?, isAsciiDigit c = false) :
    (whole ++ tail).takeWhile isAsciiDigit = whole ∧
      (whole ++ tail).dropWhile isAsciiDigit = tail := by
  rw [List.takeWhile_append_of_pos hwhole, List.dropWhile_append_of_pos hwhole]
  cases tail with
  | nil => exact ⟨List.append_nil whole, rfl⟩
  | cons c tail =>
    have hc : ¬isAsciiDigit c = true := by simp [htail c rfl]
    rw [List.takeWhile_cons_of_neg hc, List.dropWhile_cons_of_neg hc, List.append_nil]
    exact ⟨rfl, rfl⟩

/-- Digits, a point and digits, and then something else. -/
theorem decimal?_point (hwhole : ∀ d ∈ whole, isAsciiDigit d = true) (hne : whole ≠ [])
    (hfraction : ∀ d ∈ fraction, isAsciiDigit d = true)
    (htail : ∀ c ∈ tail.head?, isAsciiDigit c = false) (negative : Bool) :
    decimal? negative (whole ++ '.' :: (fraction ++ tail)) =
      (exponent? tail).map fun exponent =>
        ofDecimal negative (readDigits 0 (whole ++ fraction)) (exponent - fraction.length) := by
  have hpoint : ∀ c ∈ ('.' :: (fraction ++ tail)).head?, isAsciiDigit c = false := by
    simp [isAsciiDigit]
  obtain ⟨htake, hdrop⟩ := span_digits hwhole hpoint
  obtain ⟨htake', hdrop'⟩ := span_digits hfraction htail
  simp [decimal?, htake, hdrop, htake', hdrop', hne, readDigits_append]

/-- Digits, and then neither a digit nor a point. -/
theorem decimal?_whole (hwhole : ∀ d ∈ whole, isAsciiDigit d = true) (hne : whole ≠ [])
    (htail : ∀ c ∈ tail.head?, isAsciiDigit c = false ∧ c ≠ '.') (negative : Bool) :
    decimal? negative (whole ++ tail) =
      (exponent? tail).map fun exponent => ofDecimal negative (readDigits 0 whole) exponent := by
  obtain ⟨htake, hdrop⟩ := span_digits hwhole fun c hc => (htail c hc).1
  unfold decimal?
  rw [htake, hdrop]
  dsimp only
  split
  · exact absurd rfl (htail '.' rfl).2
  · simp [hne, readDigits]

end Decimal

/-- A letter, a sign and digits. -/
theorem exponent?_eq {digits : List Char} (hdigits : ∀ d ∈ digits, isAsciiDigit d = true)
    (hne : digits ≠ []) :
    exponent? ('e' :: '-' :: digits) = some (-(readDigits 0 digits : Int)) ∧
      exponent? ('e' :: '+' :: digits) = some (readDigits 0 digits : Int) := by
  have hall : digits.all isAsciiDigit = true := List.all_eq_true.mpr hdigits
  constructor
  · simp [exponent?, signed, hall, hne]
  · simp [exponent?, signed, hall, hne]

/-- A text that begins with a digit, has only ASCII characters of numerals, and is read as a
    number. -/
structure Notes (x : Binary64) (cs : List Char) : Prop where
  first : ∃ c ∈ cs.head?, isAsciiDigit c = true
  chars : ∀ c ∈ cs, isAsciiNumeral c = true
  reads : decimal? false cs = some x

theorem Notes.read? {x : Binary64} {text : String} (h : Notes x text.toList) :
    read? text = some x := by
  obtain ⟨c, hc, hdigit⟩ := h.first
  obtain ⟨cs, hcs⟩ := List.head?_eq_some_iff.mp hc
  have hchars := h.chars
  have hreads := h.reads
  rw [hcs] at hchars hreads
  rw [← String.ofList_toList (s := text), hcs,
    read?_eq_decimal? hdigit fun d hd => hchars d (List.mem_cons_of_mem c hd), hreads]

theorem isAsciiNumeral_of_isAsciiDigit {c : Char} (h : isAsciiDigit c = true) :
    isAsciiNumeral c = true := by
  rw [isAsciiNumeral, h, Bool.true_or]

section Notes

variable {whole fraction tail : List Char} {x : Binary64}

/-- Digits, a point, digits, and an exponent. -/
theorem Notes.pointed (hwhole : ∀ d ∈ whole, isAsciiDigit d = true) (hne : whole ≠ [])
    (hfraction : ∀ d ∈ fraction, isAsciiDigit d = true) {exponent : Int}
    (htail : exponent? tail = some exponent) (hchars : ∀ c ∈ tail, isAsciiNumeral c = true)
    (hnext : ∀ c ∈ tail.head?, isAsciiDigit c = false)
    (hx : ofDecimal false (readDigits 0 (whole ++ fraction)) (exponent - fraction.length) = x) :
    Notes x (whole ++ '.' :: (fraction ++ tail)) := by
  obtain ⟨c, cs, rfl⟩ := List.exists_cons_of_ne_nil hne
  refine ⟨⟨c, rfl, hwhole c List.mem_cons_self⟩, ?_, ?_⟩
  · simp only [List.mem_append, List.mem_cons]
    rintro d (hd | rfl | hd | hd)
    · exact isAsciiNumeral_of_isAsciiDigit (hwhole d (List.mem_cons.mpr hd))
    · rfl
    · exact isAsciiNumeral_of_isAsciiDigit (hfraction d hd)
    · exact hchars d hd
  · rw [decimal?_point hwhole hne hfraction hnext, htail, Option.map_some, hx]

/-- Digits and an exponent. -/
theorem Notes.plain (hwhole : ∀ d ∈ whole, isAsciiDigit d = true) (hne : whole ≠ [])
    {exponent : Int} (htail : exponent? tail = some exponent)
    (hchars : ∀ c ∈ tail, isAsciiNumeral c = true)
    (hnext : ∀ c ∈ tail.head?, isAsciiDigit c = false ∧ c ≠ '.')
    (hx : ofDecimal false (readDigits 0 whole) exponent = x) : Notes x (whole ++ tail) := by
  obtain ⟨c, cs, rfl⟩ := List.exists_cons_of_ne_nil hne
  refine ⟨⟨c, rfl, hwhole c List.mem_cons_self⟩, ?_, ?_⟩
  · refine List.forall_mem_append.mpr ⟨fun d hd => ?_, hchars⟩
    exact isAsciiNumeral_of_isAsciiDigit (hwhole d hd)
  · rw [decimal?_whole hwhole hne hnext, htail, Option.map_some, hx]

end Notes

end Numeral

open Numeral

namespace Decimal

-- ============================================================================
-- Notations
-- ============================================================================

theorem isAsciiDigit_of_mem_zeros {zeros : Nat} :
    ∀ d ∈ List.replicate zeros '0', isAsciiDigit d = true := by
  intro d hd
  rw [List.eq_of_mem_replicate hd]
  rfl

theorem notes_positional {d : Decimal} (hd : 0 < d.digits) :
    Notes (ofDecimal false d.digits d.exponent) d.positional.toList := by
  have hdigits := @isAsciiDigit_of_mem_toDigits d.digits
  have hread := readDigits_toDigits d.digits
  have hne : Nat.toDigits 10 d.digits ≠ [] := Nat.toDigits_ne_nil
  have hexponent : d.exponent = d.point - ((Nat.toDigits 10 d.digits).length : Int) := rfl
  rw [positional]
  generalize Nat.toDigits 10 d.digits = digits at *
  have hlength := List.length_pos_iff.mpr hne
  dsimp only
  rw [String.toList_ofList]
  split
  · -- Zeros stand between the point and the digits.
    have hfraction : ∀ c ∈ List.replicate (-d.point).toNat '0' ++ digits, isAsciiDigit c = true :=
      List.forall_mem_append.mpr ⟨isAsciiDigit_of_mem_zeros, hdigits⟩
    have hnotes := @Notes.pointed ['0'] _ [] (ofDecimal false d.digits d.exponent)
      (by simp [isAsciiDigit]) (by simp) hfraction 0 rfl (by simp) (by simp)
    rw [List.append_nil] at hnotes
    refine hnotes ?_
    have hzeros : readDigits 0 (['0'] ++ (List.replicate (-d.point).toNat '0' ++ digits)) =
        d.digits := by
      rw [readDigits_append, readDigits_append, readDigits_zeros]
      change readDigits (0 * _) digits = _
      rw [Nat.zero_mul, hread]
    rw [hzeros, hexponent, List.length_append, List.length_replicate]
    congr 1
    omega
  split
  · -- The point stands among the digits.
    have hwhole : digits.take d.point.toNat ≠ [] := by
      rw [← List.length_pos_iff, List.length_take]
      omega
    have hnotes := @Notes.pointed _ (digits.drop d.point.toNat) []
      (ofDecimal false d.digits d.exponent) (fun c hc => hdigits c (List.mem_of_mem_take hc)) hwhole
      (fun c hc => hdigits c (List.mem_of_mem_drop hc)) 0 rfl (by simp) (by simp)
    rw [List.append_nil] at hnotes
    refine hnotes ?_
    rw [List.take_append_drop, hread, hexponent, List.length_drop]
    congr 1
    omega
  · -- Zeros stand between the digits and the point.
    have hwhole : ∀ c ∈ digits ++ List.replicate (d.point - digits.length).toNat '0',
        isAsciiDigit c = true :=
      List.forall_mem_append.mpr ⟨hdigits, isAsciiDigit_of_mem_zeros⟩
    have hnotes := @Notes.pointed _ ['0'] [] (ofDecimal false d.digits d.exponent) hwhole
      (List.append_ne_nil_of_left_ne_nil hne _) (by simp [isAsciiDigit]) 0 rfl (by simp) (by simp)
    refine hnotes ?_
    have hzeros : readDigits 0 (digits ++ List.replicate (d.point - digits.length).toNat '0' ++
        ['0']) = d.digits * Nat.pow 10 ((d.point - digits.length).toNat + 1) := by
      rw [readDigits_append, readDigits_append, readDigits_zeros, hread, Binary64.pow_ten_succ,
        ← Nat.mul_assoc]
      rfl
    rw [hzeros, Binary64.ofDecimal_mul_pow false hd, hexponent, List.length_singleton]
    congr 1
    omega

/-- The size of an exponent, with two digits at least. -/
theorem size_digits {n : Nat} {size : String} (hsize : size = toString n) :
    let digits := (if size.length < 2 then "0" ++ size else size).toList
    (∀ d ∈ digits, isAsciiDigit d = true) ∧ digits ≠ [] ∧ readDigits 0 digits = n := by
  have hchars : size.toList = Nat.toDigits 10 n := hsize ▸ Nat.toList_repr
  intro digits
  by_cases hshort : size.length < 2
  · have hdigits : digits = '0' :: Nat.toDigits 10 n := by
      simp only [digits, if_pos hshort, String.toList_append, hchars]
      rfl
    rw [hdigits]
    exact ⟨List.forall_mem_cons.mpr ⟨rfl, isAsciiDigit_of_mem_toDigits⟩, List.cons_ne_nil _ _,
      readDigits_toDigits n⟩
  · have hdigits : digits = Nat.toDigits 10 n := by
      simp only [digits, if_neg hshort, hchars]
    rw [hdigits]
    exact ⟨isAsciiDigit_of_mem_toDigits, Nat.toDigits_ne_nil, readDigits_toDigits n⟩

/-- The exponent part of scientific notation. -/
theorem exponent?_scientific {power : Int} {size text : String}
    (hsize : size = toString power.natAbs)
    (htext : text = (if power < 0 then "e-" else "e+") ++
      (if size.length < 2 then "0" ++ size else size)) :
    exponent? text.toList = some power ∧ (∀ c ∈ text.toList, isAsciiNumeral c = true) ∧
      ∀ c ∈ text.toList.head?, isAsciiDigit c = false ∧ c ≠ '.' := by
  obtain ⟨hdigits, hne, hread⟩ := size_digits hsize
  rw [htext, String.toList_append]
  generalize (if size.length < 2 then "0" ++ size else size).toList = digits at *
  obtain ⟨hminus, hplus⟩ := exponent?_eq hdigits hne
  have hchars {sign : Char} (hsign : isAsciiNumeral sign = true) :
      ∀ c ∈ 'e' :: sign :: digits, isAsciiNumeral c = true :=
    List.forall_mem_cons.mpr ⟨rfl, List.forall_mem_cons.mpr
      ⟨hsign, fun d hd => isAsciiNumeral_of_isAsciiDigit (hdigits d hd)⟩⟩
  by_cases hpower : power < 0
  · have hvalue : -(power.natAbs : Int) = power := by omega
    rw [hread, hvalue] at hminus
    rw [if_pos hpower]
    exact ⟨hminus, hchars rfl, by simp [isAsciiDigit]⟩
  · have hvalue : (power.natAbs : Int) = power := by omega
    rw [hread, hvalue] at hplus
    rw [if_neg hpower]
    exact ⟨hplus, hchars rfl, by simp [isAsciiDigit]⟩

theorem notes_scientific (d : Decimal) :
    Notes (ofDecimal false d.digits d.exponent) d.scientific.toList := by
  have hdigits := @isAsciiDigit_of_mem_toDigits d.digits
  have hread := readDigits_toDigits d.digits
  have hexponent : d.exponent = d.point - ((Nat.toDigits 10 d.digits).length : Int) := rfl
  obtain ⟨htail, hchars, hnext⟩ := @exponent?_scientific (d.point - 1) _ _ rfl rfl
  rw [scientific]
  split
  · rename_i hnil
    exact absurd hnil Nat.toDigits_ne_nil
  · -- A single digit has no point behind it.
    rename_i digit hone
    rw [hone] at hdigits hread hexponent
    rw [String.toList_append, String.toList_ofList]
    refine .plain hdigits (by simp) htail hchars hnext ?_
    rw [hread, hexponent]
    rfl
  · rename_i digit others _ hmany
    rw [hmany] at hdigits hread hexponent
    obtain ⟨hdigit, hothers⟩ := List.forall_mem_cons.mp hdigits
    rw [String.toList_append, String.toList_ofList]
    refine @Notes.pointed [digit] others _ _ (by simpa using hdigit) (by simp) hothers _ htail hchars
      (fun c hc => (hnext c hc).1) ?_
    rw [List.singleton_append, hread, hexponent, List.length_cons]
    congr 1
    omega

/-- A decimal is read from either notation. -/
theorem notes_written {d : Decimal} (hd : 0 < d.digits) :
    Notes (ofDecimal false d.digits d.exponent) d.written.toList := by
  unfold written
  split
  · exact notes_positional hd
  · exact notes_scientific d

end Decimal

namespace Binary64

-- ============================================================================
-- Values
-- ============================================================================

/-- A whole value is the decimal of its digits. -/
theorem magnitude_ofDecimal_wholePart {x : Binary64} (hfinite : x.magnitude < infinityBits)
    (hwhole : x.isIntegral = true) : (ofDecimal false x.wholePart 0).magnitude = x.magnitude := by
  rw [isIntegral, decide_eq_true_eq] at hwhole
  have hunits : x.wholePart * unitsPerOne = x.units :=
    Nat.div_mul_cancel (Nat.dvd_of_mod_eq_zero hwhole)
  by_cases hpos : 0 < x.wholePart
  · have hcount : digitCount x.wholePart ≤ 309 := digitCount_units_le hfinite rfl
    have hgrid : gridScale 0 = (1, 1) := rfl
    rw [ofDecimal_eq_ofRatio hpos (by omega) (by omega), hgrid, Nat.mul_one]
    refine CloseTo.magnitude_ofRatio ⟨?_, ?_⟩ (by decide) hfinite
    · rw [Nat.one_mul, hunits]
      exact Nat.le_add_right _ _
    · rw [Nat.one_mul, hunits]
      exact Nat.le_add_right _ _
  · have hzero : x.magnitude = 0 := by
      refine Nat.eq_zero_of_not_pos fun hmagnitude => ?_
      have := units_pos hmagnitude
      rw [← hunits, Nat.eq_zero_of_not_pos hpos, Nat.zero_mul] at this
      exact absurd this (by decide)
    rw [hzero, ofDecimal, if_pos (.inl (Nat.eq_zero_of_not_pos hpos))]
    exact magnitude_ofMagnitude (Nat.zero_le _)

theorem notes_wholePart {x : Binary64} (hsign : x.isNegative = false)
    (hfinite : x.magnitude < infinityBits) (hwhole : x.isIntegral = true) :
    Notes x (toString x.wholePart).toList := by
  have htext : (toString x.wholePart).toList = Nat.toDigits 10 x.wholePart ++ [] := by
    rw [List.append_nil]
    exact Nat.toList_repr
  rw [htext]
  refine .plain isAsciiDigit_of_mem_toDigits Nat.toDigits_ne_nil rfl (by simp) (by simp) ?_
  rw [readDigits_toDigits]
  exact eq_of_magnitude_eq (ofDecimal_unsigned _ _).1 hsign
    (magnitude_ofDecimal_wholePart hfinite hwhole)

/-- A finite value in a script is noted there. -/
theorem notes_inScript {x : Binary64} (hsign : x.isNegative = false)
    (hfinite : x.magnitude < infinityBits) : Notes x x.inScript.toList := by
  have hplain : x.sign = "" := by rw [sign, hsign]; rfl
  have hinfinite : ¬x.isInfinite = true := by
    rw [isInfinite, decide_eq_true_eq]
    omega
  have hnan : ¬x.isNaN = true := by
    rw [isNaN, decide_eq_true_eq]
    omega
  unfold inScript
  rw [if_neg hinfinite, if_neg hnan]
  split
  · rename_i hwhole
    rw [hplain, ite_self, String.empty_append]
    exact notes_wholePart hsign hfinite hwhole
  · rename_i hpart
    -- Zero is a whole number, so here there are digits.
    have hpos : 0 < x.magnitude := by
      refine Nat.pos_of_ne_zero fun hzero => hpart ?_
      have hunits : x.units = 0 := by
        rw [units, significand, hzero]
        exact Nat.zero_mul _
      rw [isIntegral, hunits, decide_eq_true_eq, Nat.zero_mod]
    obtain ⟨hdigits, hvalue⟩ := ofDecimal_shortest hsign hpos hfinite
    have hnotes := Decimal.notes_written hdigits
    rw [hvalue] at hnotes
    rwa [writtenFinite, hplain, String.empty_append]

/-- A value without a sign is finite and noted in the script, or it is the infinity and has a name
    there. -/
theorem inScript_cases {x : Binary64} (hsign : x.isNegative = false)
    (hnumber : x.magnitude ≤ infinityBits) :
    Notes x x.inScript.toList ∨ x.magnitude = infinityBits ∧ x.inScript = "Infinity" := by
  rcases Nat.lt_or_eq_of_le hnumber with hfinite | hinfinite
  · exact .inl (notes_inScript hsign hfinite)
  · refine .inr ⟨hinfinite, ?_⟩
    rw [inScript, isInfinite, hinfinite]
    rfl

end Binary64

end Storyboard
