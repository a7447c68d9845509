/-
  Storyboard.Proofs.Number.Shortest

  The shortest decimal of a value reads back as the value.

  On the grid of a power of ten, `gridScale` gives the factors that make the value and
  the grid's step whole numbers. With seventeen digits the step is so small that the
  nearer of the two neighbours is close to the value, so a decimal is found at the
  latest then (`isSome_neighbour?`), and whatever decimal is found reads back.
-/
import Storyboard.Number.Shortest
import Storyboard.Proofs.Number.Rounding

namespace Storyboard

namespace Binary64

-- ============================================================================
-- Grids
-- ============================================================================

/-- `10 ^ e` as a quotient: its denominator and its numerator. -/
def gridScale (e : Int) : Nat × Nat :=
  if 0 ≤ e then (1, Nat.pow 10 e.toNat) else (Nat.pow 10 (-e).toNat, 1)

theorem gridScale_pos (e : Int) : 0 < (gridScale e).1 ∧ 0 < (gridScale e).2 := by
  unfold gridScale
  split
  · exact ⟨Nat.one_pos, pow_ten_pos _⟩
  · exact ⟨pow_ten_pos _, Nat.one_pos⟩

theorem fst_stepsIn (num den : Nat) (e : Int) :
    (stepsIn num den e).1 = num * (gridScale e).1 / (den * (gridScale e).2) := by
  by_cases he : 0 ≤ e
  · simp [stepsIn, gridScale, he]
  · simp [stepsIn, gridScale, he]

/-- Inside the range of the format a decimal is rounded as a quotient. -/
theorem ofDecimal_eq_ofRatio {n : Nat} {e : Int} (hn : 0 < n) (hlow : -330 ≤ digitCount n + e)
    (hhigh : digitCount n + e ≤ 310) (negative : Bool) :
    ofDecimal negative n e = ofRatio negative (n * (gridScale e).2) (gridScale e).1 := by
  unfold ofDecimal gridScale
  dsimp only
  rw [if_neg (by omega), if_neg (by omega)]
  split <;> simp

-- ============================================================================
-- The decimal point
-- ============================================================================

/-- A quotient from one on, by the digits of its whole part. -/
theorem whole_bounds {num den : Nat} (hden : 0 < den) (h : den ≤ num) {k : Nat}
    (hk : digitCount (num / den) = k + 1) :
    Nat.pow 10 k * den ≤ num ∧ num ≤ Nat.pow 10 (k + 1) * den := by
  have hpositive : 0 < num / den := Nat.div_pos h hden
  have hlow : Nat.pow 10 k ≤ num / den := pow_le_of_lt_digitCount hpositive (by omega)
  have hhigh : num / den < Nat.pow 10 (k + 1) := hk ▸ lt_pow_digitCount (num / den)
  exact ⟨(Nat.le_div_iff_mul_le hden).mp hlow,
    Nat.le_of_lt ((Nat.div_lt_iff_lt_mul hden).mp hhigh)⟩

/-- With seventeen digits there are from `10 ^ 16` to `10 ^ 17` steps in a quotient. -/
theorem steps_bounds {num den : Nat} (hnum : 0 < num) (hden : 0 < den) :
    Nat.pow 10 16 * (den * (gridScale (pointOf num den - 17)).2) ≤
        num * (gridScale (pointOf num den - 17)).1 ∧
      num * (gridScale (pointOf num den - 17)).1 ≤
        Nat.pow 10 17 * (den * (gridScale (pointOf num den - 17)).2) := by
  have hadd (a b : Nat) : Nat.pow 10 (a + b) = Nat.pow 10 a * Nat.pow 10 b := Nat.pow_add 10 a b
  unfold pointOf
  split
  · rename_i hle
    obtain ⟨k, hk⟩ : ∃ k, digitCount (num / den) = k + 1 :=
      ⟨digitCount (num / den) - 1, by have := digitCount_pos (num / den); omega⟩
    obtain ⟨hlow, hhigh⟩ := whole_bounds hden hle hk
    rw [hk, gridScale]
    split
    · -- At least seventeen digits stand before the point.
      obtain ⟨j, rfl⟩ : ∃ j, k = 16 + j := ⟨k - 16, by omega⟩
      have hpower : (((16 + j + 1 : Nat) : Int) - 17).toNat = j := by omega
      rw [hpower, Nat.mul_one, Nat.mul_comm den, ← Nat.mul_assoc, ← Nat.mul_assoc, ← hadd, ← hadd]
      rw [Nat.add_right_comm] at hhigh
      exact ⟨hlow, hhigh⟩
    · -- Fewer do, and both bounds take the power of ten that is missing.
      obtain ⟨j, hj⟩ : ∃ j, 16 = k + j := ⟨16 - k, by omega⟩
      have hpower : (-(((k + 1 : Nat) : Int) - 17)).toNat = j := by omega
      have hlow' := Nat.mul_le_mul_right (Nat.pow 10 j) hlow
      have hhigh' := Nat.mul_le_mul_right (Nat.pow 10 j) hhigh
      rw [Nat.mul_right_comm, ← hadd, ← hj] at hlow'
      rw [Nat.mul_right_comm, ← hadd, Nat.add_right_comm, ← hj] at hhigh'
      rw [hpower, Nat.mul_one]
      exact ⟨hlow', hhigh'⟩
  · -- The quotient is below one, so the bounds are those of its inverse, turned around.
    rename_i hlt
    obtain ⟨k, hk⟩ : ∃ k, digitCount (den / num) = k + 1 :=
      ⟨digitCount (den / num) - 1, by have := digitCount_pos (den / num); omega⟩
    obtain ⟨hlow, hhigh⟩ := whole_bounds hnum (Nat.le_of_not_le hlt) hk
    have hpower : (-(1 - ((k + 1 : Nat) : Int) - 17)).toNat = 16 + (k + 1) := by omega
    rw [hk, gridScale, if_neg (by omega), hpower, Nat.mul_one]
    have hlow' := Nat.mul_le_mul_left (Nat.pow 10 17) hlow
    have hhigh' := Nat.mul_le_mul_left (Nat.pow 10 16) hhigh
    rw [← Nat.mul_assoc, ← hadd, Nat.mul_comm _ num] at hlow' hhigh'
    rw [Nat.add_comm k 1, ← Nat.add_assoc] at hhigh' ⊢
    exact ⟨hhigh', hlow'⟩

theorem pow_two_le {a b : Nat} (h : a ≤ b) : Nat.pow 2 a ≤ Nat.pow 2 b :=
  Nat.pow_le_pow_right (by decide) h

section Value

variable {x : Binary64}

theorem unitsPerOne_pos : 0 < unitsPerOne := by decide +kernel

theorem units_pos (h : 0 < x.magnitude) : 0 < x.units := by
  have hmagnitude := x.magnitude_eq
  have hsignificand : 0 < x.significand := by
    by_cases hscale : 0 < x.scale
    · have := le_significand hscale
      omega
    · rw [Nat.eq_zero_of_not_pos hscale] at hmagnitude
      omega
  exact Nat.mul_pos hsignificand (pow_two_pos _)

theorem scale_le (hfinite : x.magnitude < infinityBits) : x.scale ≤ 2045 := by
  have hmagnitude := x.magnitude_eq
  rw [pow_two_52] at hmagnitude
  rw [infinityBits_eq] at hfinite
  by_cases hscale : 0 < x.scale
  · have := le_significand hscale
    omega
  · omega

-- Large exponents are variables here, so that only the kernel computes their powers.

/-- Finite values are below `10 ^ 309`. -/
theorem digitCount_units_le (hfinite : x.magnitude < infinityBits) {k : Nat} (hk : k = 309) :
    digitCount (x.units / unitsPerOne) ≤ k := by
  rw [digitCount_le_iff (by omega), Nat.div_lt_iff_lt_mul unitsPerOne_pos]
  obtain ⟨top, htop⟩ : ∃ top, top = 2045 := ⟨_, rfl⟩
  have hscale := pow_two_le (htop ▸ scale_le hfinite)
  have hlast : 9007199254740992 * Nat.pow 2 top ≤ Nat.pow 10 k * unitsPerOne := by
    rw [htop, hk]
    decide +kernel
  calc x.units < 9007199254740992 * Nat.pow 2 x.scale :=
      Nat.mul_lt_mul_of_pos_right x.significand_lt (pow_two_pos _)
    _ ≤ 9007199254740992 * Nat.pow 2 top := Nat.mul_le_mul_left _ hscale
    _ ≤ Nat.pow 10 k * unitsPerOne := hlast

/-- Positive values are above `10 ^ -324`. -/
theorem digitCount_unitsPerOne_le (n : Nat) {k : Nat} (hk : k = 324) :
    digitCount (unitsPerOne / n) ≤ k := by
  rw [digitCount_le_iff (by omega)]
  have hlast : unitsPerOne < Nat.pow 10 k := by
    rw [hk]
    decide +kernel
  exact Nat.lt_of_le_of_lt (Nat.div_le_self _ _) hlast

/-- Where the decimal points of finite values are. -/
theorem pointOf_bounds (hfinite : x.magnitude < infinityBits) :
    -323 ≤ pointOf x.units unitsPerOne ∧ pointOf x.units unitsPerOne ≤ 309 := by
  have hwhole := digitCount_units_le hfinite rfl
  have hpart := digitCount_unitsPerOne_le x.units rfl
  unfold pointOf
  split
  · omega
  · omega

-- ============================================================================
-- Neighbours
-- ============================================================================

/-- The nearer neighbour of a value on a grid with at least `10 ^ 16` steps in the value is close
    to it. -/
theorem exists_closeTo (x : Binary64) {e : Int}
    (hsteps : Nat.pow 10 16 * (unitsPerOne * (gridScale e).2) ≤ x.units * (gridScale e).1) :
    ∃ n, (n = (stepsIn x.units unitsPerOne e).1 ∨ n = (stepsIn x.units unitsPerOne e).1 + 1) ∧
      CloseTo (n * (gridScale e).2) (gridScale e).1 x := by
  rw [fst_stepsIn]
  have hunits : (gridScale e).1 * x.units = x.units * (gridScale e).1 := Nat.mul_comm _ _
  have hgrid (n : Nat) : n * (gridScale e).2 * unitsPerOne =
      n * (unitsPerOne * (gridScale e).2) := by
    rw [Nat.mul_assoc, Nat.mul_comm unitsPerOne]
  have hpositive : 0 < unitsPerOne * (gridScale e).2 :=
    Nat.mul_pos unitsPerOne_pos (gridScale_pos e).2
  -- From here on it is division with remainder: `whole` is cut into steps and the nearer end of the
  -- last one is taken.
  generalize unitsPerOne * (gridScale e).2 = step at *
  generalize x.units * (gridScale e).1 = whole at *
  have hsplit := Nat.div_add_mod whole step
  have hrest := Nat.mod_lt whole hpositive
  rw [Nat.mul_comm] at hsplit
  change 10000000000000000 * step ≤ whole at hsteps
  by_cases hhalf : 2 * (whole % step) ≤ step
  · refine ⟨whole / step, .inl rfl, ⟨?_, ?_⟩⟩
    · rw [hunits, hgrid]
      omega
    · rw [hunits, hgrid]
      omega
  · refine ⟨whole / step + 1, .inr rfl, ⟨?_, ?_⟩⟩
    · rw [hunits, hgrid, Nat.add_mul]
      omega
    · rw [hunits, hgrid, Nat.add_mul]
      omega

/-- With seventeen digits one of the neighbours reads back. -/
theorem exists_readsBack (hpos : 0 < x.magnitude) (hfinite : x.magnitude < infinityBits) {e : Int}
    (he : e = pointOf x.units unitsPerOne - 17) :
    ∃ n, (n = (stepsIn x.units unitsPerOne e).1 ∨ n = (stepsIn x.units unitsPerOne e).1 + 1) ∧
      (ofDecimal false n e).magnitude = x.magnitude := by
  obtain ⟨hlow, hhigh⟩ := steps_bounds (units_pos hpos) unitsPerOne_pos
  rw [← he] at hlow hhigh
  obtain ⟨n, hn, hclose⟩ := exists_closeTo x hlow
  refine ⟨n, hn, ?_⟩
  have hstep : 0 < unitsPerOne * (gridScale e).2 := Nat.mul_pos unitsPerOne_pos (gridScale_pos e).2
  -- The neighbour has seventeen digits, or eighteen if it is the power of ten at the end, and so is
  -- far from where reading gives zero or infinity.
  have hmin : 10000000000000000 ≤ (stepsIn x.units unitsPerOne e).1 := by
    rw [fst_stepsIn, Nat.le_div_iff_mul_le hstep]
    exact hlow
  have hmax : (stepsIn x.units unitsPerOne e).1 ≤ 100000000000000000 := by
    rw [fst_stepsIn, ← Nat.lt_succ_iff, Nat.div_lt_iff_lt_mul hstep, Nat.succ_mul]
    exact Nat.lt_of_le_of_lt hhigh (Nat.lt_add_of_pos_right hstep)
  have hfew : digitCount n ≤ 18 := by
    rw [digitCount_le_iff (by decide)]
    change n < 1000000000000000000
    omega
  have hmany : ¬digitCount n ≤ 16 := by
    rw [digitCount_le_iff (by decide)]
    change ¬n < 10000000000000000
    omega
  have hpoint := pointOf_bounds hfinite
  rw [ofDecimal_eq_ofRatio (by omega) (by omega) (by omega)]
  exact hclose.magnitude_ofRatio (gridScale_pos e).1 hfinite

/-- Some neighbour of the value on a grid is given just if one of them reads back, and then it is one
    that does. -/
theorem neighbour?_cases (x : Binary64) (count : Nat) {e : Int}
    (he : e = pointOf x.units unitsPerOne - count) :
    (∃ n, (ofDecimal false n e).magnitude = x.magnitude ∧
      x.neighbour? count = some (Decimal.ofScaled n e)) ∨
    (x.neighbour? count = none ∧
      ∀ n, n = (stepsIn x.units unitsPerOne e).1 ∨ n = (stepsIn x.units unitsPerOne e).1 + 1 →
        (ofDecimal false n e).magnitude ≠ x.magnitude) := by
  unfold neighbour?
  dsimp only
  rw [← he]
  generalize stepsIn x.units unitsPerOne e = steps
  obtain ⟨below, rest⟩ := steps
  dsimp only
  -- Only if both neighbours read back is there a choice, and then the nearer is taken, or the even
  -- one.
  by_cases hbelow : (ofDecimal false below e).magnitude = x.magnitude
  · by_cases habove : (ofDecimal false (below + 1) e).magnitude = x.magnitude
    · simp only [hbelow, habove, decide_true]
      cases rest with
      | lt => exact .inl ⟨below, hbelow, rfl⟩
      | gt => exact .inl ⟨below + 1, habove, rfl⟩
      | eq =>
        refine .inl ⟨below + below % 2, ?_, rfl⟩
        rcases Nat.mod_two_eq_zero_or_one below with heven | hodd
        · rwa [heven]
        · rwa [hodd]
    · simp only [hbelow, habove, decide_true, decide_false]
      exact .inl ⟨below, hbelow, rfl⟩
  · by_cases habove : (ofDecimal false (below + 1) e).magnitude = x.magnitude
    · simp only [hbelow, habove, decide_true, decide_false]
      exact .inl ⟨below + 1, habove, rfl⟩
    · simp only [hbelow, habove, decide_false]
      refine .inr ⟨rfl, ?_⟩
      rintro n (rfl | rfl)
      · exact hbelow
      · exact habove

/-- Zero is the only value that no digits stand for. -/
theorem pos_of_readsBack (hpos : 0 < x.magnitude) {n : Nat} {e : Int}
    (h : (ofDecimal false n e).magnitude = x.magnitude) : 0 < n := by
  refine Nat.pos_of_ne_zero ?_
  rintro rfl
  have hzero : (ofDecimal false 0 e).magnitude = 0 := by
    rw [ofDecimal, if_pos (.inl rfl)]
    exact magnitude_ofMagnitude (Nat.zero_le _)
  omega

/-- The shortest decimal of a positive finite value reads back. -/
theorem exists_shortest (hpos : 0 < x.magnitude) (hfinite : x.magnitude < infinityBits) :
    ∃ n e, 0 < n ∧ (ofDecimal false n e).magnitude = x.magnitude ∧
      x.shortest = Decimal.ofScaled n e := by
  obtain ⟨count, hcount, d, hd⟩ : ∃ count < 17, ∃ d, x.neighbour? (count + 1) = some d := by
    obtain ⟨n, hn, hreads⟩ := exists_readsBack hpos hfinite rfl
    rcases neighbour?_cases x 17 rfl with ⟨n, -, hsome⟩ | ⟨-, hnone⟩
    · exact ⟨16, by decide, _, hsome⟩
    · exact absurd hreads (hnone n hn)
  obtain ⟨d, hd⟩ : ∃ d, (List.range 17).findSome? (fun count => x.neighbour? (count + 1)) = some d := by
    rw [← Option.isSome_iff_exists, List.findSome?_isSome_iff]
    exact ⟨count, List.mem_range.mpr hcount, by rw [hd]; rfl⟩
  have hshortest : x.shortest = d := by
    rw [shortest, if_neg (by omega), hd, Option.getD_some]
  obtain ⟨count, -, hfound⟩ := List.exists_of_findSome?_eq_some hd
  rcases neighbour?_cases x (count + 1) rfl with ⟨n, hreads, hsome⟩ | ⟨hnone, -⟩
  · rw [hsome] at hfound
    cases hfound
    exact ⟨n, _, pos_of_readsBack hpos hreads, hreads, hshortest⟩
  · rw [hnone] at hfound
    cases hfound

end Value

-- ============================================================================
-- Zeros at the end
-- ============================================================================

theorem dropZeros_eq (limit : Nat) {n : Nat} (hn : 0 < n) :
    ∃ zeros, n = Decimal.dropZeros limit n * Nat.pow 10 zeros ∧ 0 < Decimal.dropZeros limit n ∧
      digitCount n = digitCount (Decimal.dropZeros limit n) + zeros := by
  induction limit generalizing n with
  | zero => exact ⟨0, (Nat.mul_one n).symm, hn, rfl⟩
  | succ limit ih =>
    by_cases hzero : n % 10 = 0 ∧ n ≠ 0
    · have hten : n = n / 10 * 10 := by omega
      have hfewer : 0 < n / 10 := by omega
      obtain ⟨zeros, heq, hpos, hcount⟩ := ih hfewer
      rw [Decimal.dropZeros, if_pos hzero]
      refine ⟨zeros + 1, ?_, hpos, ?_⟩
      · rw [pow_ten_succ, ← Nat.mul_assoc, ← heq]
        exact hten
      · rw [hten, digitCount_mul_ten hfewer, ← hten, hcount, Nat.add_assoc]
    · rw [Decimal.dropZeros, if_neg hzero]
      exact ⟨0, (Nat.mul_one n).symm, hn, rfl⟩

/-- Zeros at the end of the digits of a decimal do not matter. -/
theorem ofDecimal_ofScaled (negative : Bool) {n : Nat} (hn : 0 < n) (e : Int) :
    0 < (Decimal.ofScaled n e).digits ∧
      ofDecimal negative (Decimal.ofScaled n e).digits (Decimal.ofScaled n e).exponent =
        ofDecimal negative n e := by
  obtain ⟨zeros, heq, hpos, hcount⟩ := dropZeros_eq 20 hn
  refine ⟨hpos, ?_⟩
  have hexponent : (Decimal.ofScaled n e).exponent = e + zeros := by
    simp only [Decimal.exponent, Decimal.ofScaled, hcount]
    omega
  have hvalue := ofDecimal_mul_pow negative hpos zeros e
  rw [← heq] at hvalue
  rw [hexponent]
  exact hvalue.symm

/-- The shortest decimal of a positive finite value is read as the value. -/
theorem ofDecimal_shortest {x : Binary64} (hsign : x.isNegative = false) (hpos : 0 < x.magnitude)
    (hfinite : x.magnitude < infinityBits) :
    0 < x.shortest.digits ∧ ofDecimal false x.shortest.digits x.shortest.exponent = x := by
  obtain ⟨n, e, hn, hreads, hshortest⟩ := exists_shortest hpos hfinite
  obtain ⟨hdigits, hvalue⟩ := ofDecimal_ofScaled false hn e
  rw [hshortest, hvalue]
  exact ⟨hdigits, eq_of_magnitude_eq (ofDecimal_unsigned n e).1 hsign hreads⟩

end Binary64

end Storyboard
