/-
  Storyboard.Number.Shortest

  The shortest decimal of a value: the fewest significant digits that read back
  as the value, and of those the digits nearest to it.

  For a given number of digits the decimals form a grid around the value. If any
  point of the grid reads back, so does one of the two neighbours of the value,
  so only those two are tried, for one digit, two digits, up to seventeen.
-/
import Storyboard.Number.Binary64

namespace Storyboard

/-- A decimal number `0.d₁d₂… * 10 ^ point`, its digits as one natural number. -/
structure Decimal where
  digits : Nat
  point : Int
  deriving DecidableEq, Inhabited

namespace Decimal

/-- The exponent of the last digit. -/
def exponent (d : Decimal) : Int := d.point - Binary64.digitCount d.digits

/-- Takes zeros off the end of a number, as often as there are and at most `limit` times. -/
def dropZeros : (limit : Nat) → Nat → Nat
  | 0, n => n
  | limit + 1, n => if n % 10 = 0 ∧ n ≠ 0 then dropZeros limit (n / 10) else n

/-- The decimal `n * 10 ^ exponent` without zeros at the end of its digits. -/
def ofScaled (n : Nat) (exponent : Int) : Decimal :=
  ⟨dropZeros 20 n, Binary64.digitCount n + exponent⟩

end Decimal

namespace Binary64

/-- The place of the decimal point of a positive `num / den`: the quotient lies from
    `10 ^ (point - 1)` up to `10 ^ point`. -/
def pointOf (num den : Nat) : Int :=
  if den ≤ num then digitCount (num / den) else 1 - (digitCount (den / num) : Int)

/-- The whole number of steps `10 ^ exponent` in `num / den`, and whether the rest is more than,
    exactly, or less than half a step. -/
def stepsIn (num den : Nat) (exponent : Int) : Nat × Ordering :=
  let (n, d) :=
    if 0 ≤ exponent then (num, den * Nat.pow 10 exponent.toNat)
    else (num * Nat.pow 10 (-exponent).toNat, den)
  (n / d, compare (2 * (n % d)) d)

/-- The neighbour of a finite positive value on the grid of `count` digits that reads back as
    the value, if there is one; of two the nearer, and at the same distance the even one. -/
def neighbour? (x : Binary64) (count : Nat) : Option Decimal :=
  let point := pointOf x.units unitsPerOne
  let exponent := point - count
  let (below, rest) := stepsIn x.units unitsPerOne exponent
  let readsBack (n : Nat) : Bool := (ofDecimal false n exponent).magnitude = x.magnitude
  let chosen :=
    match readsBack below, readsBack (below + 1) with
    | false, false => none
    | true, false => some below
    | false, true => some (below + 1)
    | true, true =>
      match rest with
      | .lt => some below
      | .gt => some (below + 1)
      | .eq => some (below + below % 2)
  chosen.map (Decimal.ofScaled · exponent)

/-- The shortest decimal of a finite value, sign apart; zero is the digit zero before the
    point. -/
def shortest (x : Binary64) : Decimal :=
  if x.magnitude = 0 then ⟨0, 1⟩
  else ((List.range 17).findSome? fun count => x.neighbour? (count + 1)).getD ⟨0, 1⟩

end Binary64

end Storyboard
