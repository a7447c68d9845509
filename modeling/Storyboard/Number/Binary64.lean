/-
  Storyboard.Number.Binary64

  Numbers of the drawing language are binary64 values. They are read, kept and
  written, and never computed with, so a value is just its bit pattern.

  All arithmetic here is exact. Below the infinite pattern, the patterns of
  non-negative values in increasing order are the values in increasing order, in
  steps that are multiples of 2^-1074; `ofRatio` picks the nearest pattern for a
  quotient of natural numbers.
-/

namespace Storyboard

/-- A binary64 value by its bits: sign, eleven bits of exponent, 52 of fraction. -/
structure Binary64 where
  bits : UInt64
  deriving DecidableEq, Inhabited

namespace Binary64

/-- The pattern of the positive infinity; patterns above it, sign apart, are no numbers. -/
def infinityBits : Nat := 2047 * Nat.pow 2 52

/-- The pattern without its sign. -/
def magnitude (x : Binary64) : Nat := x.bits.toNat % Nat.pow 2 63

/-- Whether the sign bit is set. -/
def isNegative (x : Binary64) : Bool := Nat.pow 2 63 ≤ x.bits.toNat

/-- Whether the value is one of the two infinities. -/
def isInfinite (x : Binary64) : Bool := x.magnitude = infinityBits

/-- Whether the pattern stands for no number. -/
def isNaN (x : Binary64) : Bool := infinityBits < x.magnitude

/-- The significand of a finite value, which is `significand * 2 ^ (scale - 1074)`. -/
def significand (x : Binary64) : Nat :=
  if x.magnitude < Nat.pow 2 52 then x.magnitude else x.magnitude % Nat.pow 2 52 + Nat.pow 2 52

/-- The power of two that scales the significand, counted from the least one, `2 ^ -1074`. -/
def scale (x : Binary64) : Nat := x.magnitude / Nat.pow 2 52 - 1

/-- Numerator over the common denominator `2 ^ 1074` of a finite value, sign apart. -/
def units (x : Binary64) : Nat := x.significand * Nat.pow 2 x.scale

/-- The denominator of `units`. -/
def unitsPerOne : Nat := Nat.pow 2 1074

/-- Whether a finite value is a whole number. -/
def isIntegral (x : Binary64) : Bool := x.units % unitsPerOne = 0

/-- The whole part of a finite value, sign apart. -/
def wholePart (x : Binary64) : Nat := x.units / unitsPerOne

/-- A value from its sign and its pattern without sign. -/
def ofMagnitude (negative : Bool) (magnitude : Nat) : Binary64 :=
  ⟨UInt64.ofNat (magnitude + if negative then Nat.pow 2 63 else 0)⟩

/-- The infinity of the given sign. -/
def infinity (negative : Bool) : Binary64 := ofMagnitude negative infinityBits

/-- The pattern used for a text that says it is no number. -/
def nan (negative : Bool) : Binary64 := ofMagnitude negative (infinityBits + Nat.pow 2 51)

/-- The quotient rounded to the nearest whole number, a tie to the even one. -/
def divideToEven (num den : Nat) : Nat :=
  let whole := num / den
  let twice := 2 * (num % den)
  if twice < den then whole
  else if den < twice then whole + 1
  else whole + whole % 2

/-- The pattern nearest to `num / den`, a tie to the even pattern. In units of `2 ^ -1074` the
    quotient is rounded to 53 significant bits at most; the exponent field counts the bits cut
    off, and a carry out of the significand runs into it. -/
def ofRatio (negative : Bool) (num den : Nat) : Binary64 :=
  let units := num * unitsPerOne
  let cut := (units / den).log2 - 52
  let rounded := divideToEven units (den * Nat.pow 2 cut)
  ofMagnitude negative (min infinityBits (cut * Nat.pow 2 52 + rounded))

/-- How many decimal digits a number has; zero has one. -/
def digitCount (n : Nat) : Nat := (Nat.toDigits 10 n).length

/-- The value nearest to `digits * 10 ^ exponent`. Beyond the range of the format the answer is
    known from the magnitude alone, and no power is computed. -/
def ofDecimal (negative : Bool) (digits : Nat) (exponent : Int) : Binary64 :=
  let top := digitCount digits + exponent
  if digits = 0 ∨ top < -330 then ofMagnitude negative 0
  else if 310 < top then infinity negative
  else if 0 ≤ exponent then ofRatio negative (digits * Nat.pow 10 exponent.toNat) 1
  else ofRatio negative digits (Nat.pow 10 (-exponent).toNat)

end Binary64

end Storyboard
