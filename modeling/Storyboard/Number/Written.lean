/-
  Storyboard.Number.Written

  Written numbers. Two forms are used: the full form of record files, which tells
  whole numbers from others by a point, and the script form, which writes whole
  numbers without one.
-/
import Storyboard.Number.Shortest
import Storyboard.Text.Basic

namespace Storyboard

namespace Decimal

/-- Positional notation: zeros fill the places between the digits and the point. -/
def positional (d : Decimal) : String :=
  let digits := Nat.toDigits 10 d.digits
  let count : Int := digits.length
  let zeros (n : Int) : List Char := List.replicate n.toNat '0'
  String.ofList <|
    if d.point ≤ 0 then '0' :: '.' :: zeros (-d.point) ++ digits
    else if d.point < count then digits.take d.point.toNat ++ '.' :: digits.drop d.point.toNat
    else digits ++ zeros (d.point - count) ++ ['.', '0']

/-- Scientific notation: one digit before the point, no point after a lone digit, and an
    exponent with a sign and two digits at least. -/
def scientific (d : Decimal) : String :=
  let power := d.point - 1
  let size := toString power.natAbs
  let exponent :=
    (if power < 0 then "e-" else "e+") ++ (if size.length < 2 then "0" ++ size else size)
  match Nat.toDigits 10 d.digits with
  | [] => exponent
  | [digit] => String.ofList [digit] ++ exponent
  | digit :: others => String.ofList (digit :: '.' :: others) ++ exponent

/-- Positional from `1e-4` up to `1e16`, scientific elsewhere. -/
def written (d : Decimal) : String :=
  if -4 < d.point ∧ d.point ≤ 16 then d.positional else d.scientific

end Decimal

namespace Binary64

/-- The sign of a written number. -/
def sign (x : Binary64) : String := if x.isNegative then "-" else ""

/-- A finite number in full form: whole numbers keep a point. -/
def writtenFinite (x : Binary64) : String := x.sign ++ x.shortest.written

/-- A number in a record file. -/
def inRecord (x : Binary64) : String :=
  if x.isNaN then "NaN"
  else if x.isInfinite then x.sign ++ "Infinity"
  else x.writtenFinite

/-- A number in a script: either infinity has one name, whole numbers are written out in full
    without a point, zero has no sign, and all others are in full form. -/
def inScript (x : Binary64) : String :=
  if x.isInfinite then "Infinity"
  else if x.isNaN then "nan"
  else if x.isIntegral then
    (if x.wholePart = 0 then "" else x.sign) ++ toString x.wholePart
  else x.writtenFinite

end Binary64

end Storyboard
