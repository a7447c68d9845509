/-
  Storyboard.Proofs.Number.Rounding

  A quotient close to a value is rounded to the value.

  Near a value the patterns are one unit of its last place apart, or half of that below
  a power of two. `CloseTo` asks a quotient to differ from the value by no more than
  the value's share of `2 * 10 ^ 16`. That is less than half of either distance, as a
  significand has at most 53 bits, so the quotient is rounded to the value
  (`magnitude_ofRatio`). Powers of two and ten are written as `Nat.pow`, like in the
  definitions.
-/
import Storyboard.Number.Binary64

namespace Storyboard.Binary64

-- ============================================================================
-- Patterns
-- ============================================================================

theorem pow_two_52 : Nat.pow 2 52 = 4503599627370496 := rfl

theorem pow_two_63 : Nat.pow 2 63 = 9223372036854775808 := rfl

theorem infinityBits_eq : infinityBits = 9218868437227405312 := rfl

theorem pow_two_pos (n : Nat) : 0 < Nat.pow 2 n := Nat.pow_pos (by decide)

theorem pow_ten_pos (n : Nat) : 0 < Nat.pow 10 n := Nat.pow_pos (by decide)

theorem pow_ten_succ (n : Nat) : Nat.pow 10 (n + 1) = Nat.pow 10 n * 10 := rfl

/-- A pattern is counted by its scale and its significand. -/
theorem magnitude_eq (x : Binary64) : x.magnitude = x.scale * Nat.pow 2 52 + x.significand := by
  rw [scale, significand, pow_two_52]
  split <;> omega

theorem significand_lt (x : Binary64) : x.significand < 9007199254740992 := by
  rw [significand, pow_two_52]
  split <;> omega

/-- Above the least scale the significand has 53 bits. -/
theorem le_significand {x : Binary64} (h : 0 < x.scale) : 4503599627370496 ≤ x.significand := by
  rw [scale, pow_two_52] at h
  rw [significand, pow_two_52]
  split <;> omega

theorem magnitude_ofMagnitude {m : Nat} (h : m ≤ infinityBits) :
    (ofMagnitude false m).magnitude = m := by
  rw [infinityBits_eq] at h
  have hbits : (UInt64.ofNat m).toNat = m := UInt64.toNat_ofNat_of_lt (by
    change m < 18446744073709551616
    omega)
  change (UInt64.ofNat (m + 0)).toNat % Nat.pow 2 63 = m
  rw [Nat.add_zero, hbits, pow_two_63]
  omega

theorem isNegative_ofMagnitude {m : Nat} (h : m ≤ infinityBits) :
    (ofMagnitude false m).isNegative = false := by
  rw [infinityBits_eq] at h
  have hbits : (UInt64.ofNat m).toNat = m := UInt64.toNat_ofNat_of_lt (by
    change m < 18446744073709551616
    omega)
  change decide (Nat.pow 2 63 ≤ (UInt64.ofNat (m + 0)).toNat) = false
  rw [Nat.add_zero, hbits, pow_two_63]
  simp
  omega

/-- Values without a sign are the same if their patterns are. -/
theorem eq_of_magnitude_eq {x y : Binary64} (hx : x.isNegative = false)
    (hy : y.isNegative = false) (h : x.magnitude = y.magnitude) : x = y := by
  obtain ⟨bits⟩ := x
  obtain ⟨bits'⟩ := y
  simp only [isNegative, pow_two_63, decide_eq_false_iff_not] at hx hy
  simp only [magnitude, pow_two_63] at h
  rw [mk.injEq]
  apply UInt64.toNat_inj.mp
  omega

-- ============================================================================
-- Division
-- ============================================================================

/-- What is less than half from a whole number is rounded to it. -/
theorem divideToEven_eq {num den k : Nat} (hlow : 2 * (k * den) < 2 * num + den)
    (hhigh : 2 * num < 2 * (k * den) + den) : divideToEven num den = k := by
  have hsplit := Nat.div_add_mod num den
  by_cases hle : k * den ≤ num
  · have hwhole : num / den = k := Nat.div_eq_of_lt_le hle (by
      rw [Nat.add_mul]
      omega)
    rw [hwhole, Nat.mul_comm] at hsplit
    simp only [divideToEven, hwhole]
    rw [if_pos (by omega)]
  · -- The quotient is below the number, so the number is the one above the whole part.
    obtain ⟨below, rfl⟩ : ∃ below, k = below + 1 := by
      cases k with
      | zero => omega
      | succ below => exact ⟨below, rfl⟩
    rw [Nat.add_mul, Nat.one_mul] at hlow hhigh hle
    have hwhole : num / den = below := Nat.div_eq_of_lt_le (by omega) (by
      rw [Nat.add_mul]
      omega)
    rw [hwhole, Nat.mul_comm] at hsplit
    simp only [divideToEven, hwhole]
    rw [if_neg (by omega), if_pos (by omega)]

/-- The bits of a quotient that lies between two powers of two. -/
theorem log2_div_eq {num den e : Nat} (hden : 0 < den) (hlow : Nat.pow 2 e * den ≤ num)
    (hhigh : num < Nat.pow 2 (e + 1) * den) : (num / den).log2 = e := by
  have hle : Nat.pow 2 e ≤ num / den := (Nat.le_div_iff_mul_le hden).mpr hlow
  have hlt : num / den < Nat.pow 2 (e + 1) := (Nat.div_lt_iff_lt_mul hden).mpr hhigh
  have hne : num / den ≠ 0 := Nat.ne_of_gt (Nat.lt_of_lt_of_le (pow_two_pos e) hle)
  exact (Nat.log2_eq_iff hne).mpr ⟨hle, hlt⟩

/-- A quotient below a power of two has no more bits. -/
theorem log2_div_lt {num den e : Nat} (hden : 0 < den) (he : 0 < e)
    (hhigh : num < Nat.pow 2 e * den) : (num / den).log2 < e := by
  by_cases hzero : num / den = 0
  · rw [hzero]
    exact he
  · exact (Nat.log2_lt hzero).mpr ((Nat.div_lt_iff_lt_mul hden).mpr hhigh)

-- ============================================================================
-- Quotients
-- ============================================================================

/-- `num / den` differs from a value by at most the value's share of `2 * 10 ^ 16`. -/
structure CloseTo (num den : Nat) (x : Binary64) : Prop where
  low : 20000000000000000 * (den * x.units) ≤
    20000000000000000 * (num * unitsPerOne) + den * x.units
  high : 20000000000000000 * (num * unitsPerOne) ≤
    20000000000000000 * (den * x.units) + den * x.units

/-- The pattern of a quotient, given how many bits are cut off and to what it is rounded then. -/
theorem magnitude_ofRatio_of_cut {num den cut rounded m : Nat}
    (hcut : (num * unitsPerOne / den).log2 - 52 = cut)
    (hrounded : divideToEven (num * unitsPerOne) (den * Nat.pow 2 cut) = rounded)
    (hm : cut * Nat.pow 2 52 + rounded = m) (hfinite : m < infinityBits) :
    (ofRatio false num den).magnitude = m := by
  simp only [ofRatio, hcut, hrounded, hm]
  rw [Nat.min_eq_right (Nat.le_of_lt hfinite)]
  exact magnitude_ofMagnitude (Nat.le_of_lt hfinite)

section Close

variable {num den : Nat} {x : Binary64}

/-- Steps of the last place that are left when some bits are cut off. -/
theorem pow_two_add_mul (k cut : Nat) :
    Nat.pow 2 (k + cut) * den = Nat.pow 2 k * (den * Nat.pow 2 cut) := by
  rw [Nat.mul_comm den, ← Nat.mul_assoc]
  exact congrArg (· * den) (Nat.pow_add 2 k cut)

theorem mul_units (den : Nat) (x : Binary64) :
    den * x.units = x.significand * (den * Nat.pow 2 x.scale) := by
  rw [units, Nat.mul_left_comm]

/-- A close quotient is less than half a step of the last place from the value, and has no bits
    above those of the value. -/
theorem CloseTo.near (h : CloseTo num den x) (hden : 0 < den) :
    2 * (x.significand * (den * Nat.pow 2 x.scale)) <
        2 * (num * unitsPerOne) + den * Nat.pow 2 x.scale ∧
      2 * (num * unitsPerOne) <
        2 * (x.significand * (den * Nat.pow 2 x.scale)) + den * Nat.pow 2 x.scale ∧
      num * unitsPerOne < Nat.pow 2 (53 + x.scale) * den := by
  obtain ⟨hlow, hhigh⟩ := h
  have hstep : 0 < den * Nat.pow 2 x.scale := Nat.mul_pos hden (pow_two_pos _)
  have hlast : x.significand * (den * Nat.pow 2 x.scale) ≤
      9007199254740991 * (den * Nat.pow 2 x.scale) :=
    Nat.mul_le_mul_right _ (Nat.le_of_lt_succ x.significand_lt)
  rw [mul_units] at hlow hhigh
  rw [pow_two_add_mul]
  change _ ∧ _ ∧ num * unitsPerOne < 9007199254740992 * _
  omega

/-- A close quotient that loses fewer bits than the value lies just below a power of two. -/
theorem CloseTo.of_cut_ne (h : CloseTo num den x) (hden : 0 < den)
    (hcut : (num * unitsPerOne / den).log2 - 52 ≠ x.scale) :
    x.significand = 4503599627370496 ∧ 0 < x.scale ∧
      num * unitsPerOne < 4503599627370496 * (den * Nat.pow 2 x.scale) := by
  obtain ⟨hlow, hhigh, hbits⟩ := h.near hden
  have hfew := log2_div_lt hden (by omega) hbits
  have hscale : 0 < x.scale := by omega
  have hbelow : num * unitsPerOne < 4503599627370496 * (den * Nat.pow 2 x.scale) := by
    refine Nat.lt_of_not_le fun hle => hcut ?_
    have hmany : (num * unitsPerOne / den).log2 = 52 + x.scale := by
      refine log2_div_eq hden ?_ ?_
      · rw [pow_two_add_mul]
        exact hle
      · rw [Nat.add_right_comm]
        exact hbits
    omega
  refine ⟨?_, hscale, hbelow⟩
  refine Nat.le_antisymm (Nat.le_of_not_lt fun hmore => ?_) (le_significand hscale)
  have hnext : 4503599627370497 * (den * Nat.pow 2 x.scale) ≤
      x.significand * (den * Nat.pow 2 x.scale) := Nat.mul_le_mul_right _ hmore
  omega

/-- A quotient close to a finite value is rounded to it. -/
theorem CloseTo.magnitude_ofRatio (h : CloseTo num den x) (hden : 0 < den)
    (hfinite : x.magnitude < infinityBits) : (ofRatio false num den).magnitude = x.magnitude := by
  obtain ⟨hlow, hhigh, -⟩ := h.near hden
  by_cases hcut : (num * unitsPerOne / den).log2 - 52 = x.scale
  · exact magnitude_ofRatio_of_cut hcut (divideToEven_eq hlow hhigh) x.magnitude_eq.symm hfinite
  · -- Below a power of two the steps are half as wide, and the carry makes up for the bit.
    obtain ⟨hsignificand, hscale, hbelow⟩ := h.of_cut_ne hden hcut
    have hclose := h.low
    have hmagnitude := x.magnitude_eq
    rw [mul_units] at hclose
    obtain ⟨cut, hs⟩ : ∃ cut, x.scale = cut + 1 := ⟨x.scale - 1, by omega⟩
    have hhalf : den * Nat.pow 2 x.scale = 2 * (den * Nat.pow 2 cut) := by
      rw [hs, Nat.mul_left_comm]
      exact congrArg (den * ·) (Nat.mul_comm _ 2)
    rw [hsignificand, hhalf] at hclose
    rw [hhalf] at hbelow
    have hstep : 0 < den * Nat.pow 2 cut := Nat.mul_pos hden (pow_two_pos _)
    have hbits : (num * unitsPerOne / den).log2 = 52 + cut := by
      refine log2_div_eq hden ?_ ?_
      · rw [pow_two_add_mul]
        change 4503599627370496 * _ ≤ _
        omega
      · rw [Nat.add_right_comm, pow_two_add_mul]
        change _ < 9007199254740992 * _
        omega
    have hrounded : divideToEven (num * unitsPerOne) (den * Nat.pow 2 cut) = 9007199254740992 :=
      divideToEven_eq (by omega) (by omega)
    refine magnitude_ofRatio_of_cut (by omega) hrounded ?_ hfinite
    rw [hmagnitude, hs, hsignificand, pow_two_52]
    omega

end Close

-- ============================================================================
-- Common factors
-- ============================================================================

theorem divideToEven_mul (num den : Nat) {k : Nat} (hk : 0 < k) :
    divideToEven (num * k) (den * k) = divideToEven num den := by
  have hless : 2 * (num % den * k) < den * k ↔ 2 * (num % den) < den := by
    rw [← Nat.mul_assoc, Nat.mul_lt_mul_right hk]
  have hmore : den * k < 2 * (num % den * k) ↔ den < 2 * (num % den) := by
    rw [← Nat.mul_assoc, Nat.mul_lt_mul_right hk]
  simp only [divideToEven, Nat.mul_div_mul_right num den hk, Nat.mul_mod_mul_right, hless, hmore]

/-- A quotient may be expanded by a common factor. -/
theorem ofRatio_mul (negative : Bool) (num den : Nat) {k : Nat} (hk : 0 < k) :
    ofRatio negative (num * k) (den * k) = ofRatio negative num den := by
  simp only [ofRatio, Nat.mul_right_comm num k, Nat.mul_right_comm den k,
    Nat.mul_div_mul_right _ den hk, divideToEven_mul _ _ hk]

-- ============================================================================
-- Decimals
-- ============================================================================

theorem digitCount_pos (n : Nat) : 0 < digitCount n := Nat.length_toDigits_pos

theorem digitCount_le_iff {n k : Nat} (hk : 0 < k) : digitCount n ≤ k ↔ n < Nat.pow 10 k :=
  Nat.length_toDigits_le_iff (by decide) hk

theorem lt_pow_digitCount (n : Nat) : n < Nat.pow 10 (digitCount n) :=
  (digitCount_le_iff (digitCount_pos n)).mp (Nat.le_refl _)

theorem pow_le_of_lt_digitCount {n k : Nat} (hn : 0 < n) (h : k < digitCount n) :
    Nat.pow 10 k ≤ n := by
  cases k with
  | zero => exact hn
  | succ k =>
    refine Nat.le_of_not_lt fun hlt => ?_
    have hle := (digitCount_le_iff (Nat.succ_pos k)).mpr hlt
    omega

theorem digitCount_mul_ten {n : Nat} (hn : 0 < n) : digitCount (n * 10) = digitCount n + 1 := by
  have happend := Nat.toDigits_append_toDigits (b := 10) (d := 0) (by decide) hn (by decide)
  rw [digitCount, Nat.mul_comm, ← Nat.add_zero (10 * n), ← happend, List.length_append]
  rfl

/-- A zero at the end of the digits is made up for by the exponent. -/
theorem ofDecimal_mul_ten (negative : Bool) {n : Nat} (hn : 0 < n) (e : Int) :
    ofDecimal negative (n * 10) e = ofDecimal negative n (e + 1) := by
  have htop : ((digitCount (n * 10) : Nat) : Int) + e = (digitCount n : Nat) + (e + 1) := by
    rw [digitCount_mul_ten hn]
    omega
  have hne : n * 10 = 0 ↔ n = 0 := by omega
  simp only [ofDecimal, htop, hne]
  split
  · rfl
  split
  · rfl
  -- With a negative exponent the ten cancels in the denominator, of which at minus one nothing is
  -- left.
  by_cases he : 0 ≤ e
  · obtain ⟨k, rfl⟩ := Int.eq_ofNat_of_zero_le he
    have hpower : ((k : Int) + 1).toNat = k + 1 := by omega
    rw [if_pos he, if_pos (by omega), hpower, pow_ten_succ, Int.toNat_natCast, ← Nat.mul_assoc,
      Nat.mul_right_comm]
  · obtain ⟨k, rfl⟩ : ∃ k : Nat, e = -((k : Int) + 1) := ⟨(-e - 1).toNat, by omega⟩
    have hleft : (-(-((k : Int) + 1))).toNat = k + 1 := by omega
    rw [if_neg he, hleft, pow_ten_succ, ofRatio_mul negative n _ (by decide)]
    cases k with
    | zero => simp [ofRatio]
    | succ k =>
      have hright : (-(-((k : Int) + 1 + 1) + 1)).toNat = k + 1 := by omega
      rw [if_neg (by omega), ← hright]
      rfl

theorem ofDecimal_mul_pow (negative : Bool) {n : Nat} (hn : 0 < n) (zeros : Nat) (e : Int) :
    ofDecimal negative (n * Nat.pow 10 zeros) e = ofDecimal negative n (e + zeros) := by
  induction zeros generalizing e with
  | zero => simp
  | succ zeros ih =>
    rw [pow_ten_succ, ← Nat.mul_assoc, ofDecimal_mul_ten negative (Nat.mul_pos hn (pow_ten_pos zeros)), ih]
    congr 1
    omega

/-- What is read without a sign has none, and is a number. -/
theorem ofDecimal_unsigned (n : Nat) (e : Int) :
    (ofDecimal false n e).isNegative = false ∧ (ofDecimal false n e).magnitude ≤ infinityBits := by
  have hofMagnitude {m : Nat} (hm : m ≤ infinityBits) : (ofMagnitude false m).isNegative = false ∧
      (ofMagnitude false m).magnitude ≤ infinityBits :=
    ⟨isNegative_ofMagnitude hm, (magnitude_ofMagnitude hm).symm ▸ hm⟩
  unfold ofDecimal
  dsimp only
  split
  · exact hofMagnitude (Nat.zero_le _)
  split
  · exact hofMagnitude (Nat.le_refl _)
  split
  · exact hofMagnitude (Nat.min_le_left _ _)
  · exact hofMagnitude (Nat.min_le_left _ _)

end Storyboard.Binary64
