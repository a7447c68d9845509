/-
  Storyboard.Number.Numeral

  Reading numerals. The scanner only makes digits with at most one point, but the
  parser accepts any text that is a number: blanks around it, a sign, digits of
  any script, single underscores between digits, an exponent, and the words for
  infinity and for no number, in any case of letters.
-/
import Storyboard.Number.Binary64
import Storyboard.Text.Basic

namespace Storyboard

namespace Numeral

open Text

/-- Blanks that may stand around a numeral: the blanks but for the four separators. -/
def isMargin (c : Char) : Bool :=
  isBlank c && !(0x1C ≤ c.toNat && c.toNat ≤ 0x1F)

/-- The text without the blanks around it. -/
def trim (cs : List Char) : List Char :=
  ((cs.dropWhile isMargin).reverse.dropWhile isMargin).reverse

/-- Digits of all scripts as ASCII digits; other characters stay. -/
def toAscii (c : Char) : Char :=
  match digitValue? c with
  | some value => Char.ofNat (48 + value)
  | none => c

/-- Takes out underscores, each of which has to stand between two digits. -/
def joinGroups? : (previous : Option Char) → List Char → Option (List Char)
  | _, [] => some []
  | previous, '_' :: next :: rest =>
    if previous.any isAsciiDigit && isAsciiDigit next then
      (joinGroups? (some next) rest).map (next :: ·)
    else none
  | _, c :: rest => if c = '_' then none else (joinGroups? (some c) rest).map (c :: ·)

/-- A sign at the front, and what follows it. -/
def signed : List Char → Bool × List Char
  | '-' :: rest => (true, rest)
  | '+' :: rest => (false, rest)
  | cs => (false, cs)

/-- The number written by digits, after a number `start` written before them. -/
def readDigits (start : Nat) (cs : List Char) : Nat :=
  cs.foldl (fun n c => n * 10 + (c.toNat - 48)) start

/-- The exponent part: nothing, or a letter, a sign and digits. -/
def exponent? : List Char → Option Int
  | [] => some 0
  | mark :: rest =>
    let (negative, digits) := signed rest
    if (mark = 'e' || mark = 'E') && !digits.isEmpty && digits.all isAsciiDigit then
      let size : Int := readDigits 0 digits
      some (if negative then -size else size)
    else none

/-- Digits with an optional point, at least one digit, then the exponent part. -/
def decimal? (negative : Bool) (cs : List Char) : Option Binary64 :=
  let whole := cs.takeWhile isAsciiDigit
  let rest := cs.dropWhile isAsciiDigit
  let (fraction, tail) :=
    match rest with
    | '.' :: more => (more.takeWhile isAsciiDigit, more.dropWhile isAsciiDigit)
    | _ => ([], rest)
  if whole.isEmpty && fraction.isEmpty then none
  else (exponent? tail).map fun exponent =>
    Binary64.ofDecimal negative (readDigits (readDigits 0 whole) fraction)
      (exponent - fraction.length)

/-- A numeral without its sign: a word, or digits. -/
def unsigned? (negative : Bool) (cs : List Char) : Option Binary64 :=
  let word := String.ofList (cs.map Char.toLower)
  if word = "inf" || word = "infinity" then some (Binary64.infinity negative)
  else if word = "nan" then some (Binary64.nan negative)
  else decimal? negative cs

/-- The value of a numeral, if the text is one. -/
def read? (text : String) : Option Binary64 :=
  (joinGroups? none ((trim text.toList).map toAscii)).bind fun cs =>
    let (negative, rest) := signed cs
    unsigned? negative rest

end Numeral

end Storyboard
