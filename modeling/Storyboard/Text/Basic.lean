/-
  Storyboard.Text.Basic

  Classes of characters, and the lines of a text.

  Blanks are characters that leave no mark on a line: a line made of them is not worth
  showing in a diagnostic, and around a numeral they do not count. Decimal digits are
  those of all scripts; in every script the ten stand next to each other in order, so
  the table holds the code point of each zero. Hexadecimal digits are written in a fixed
  width, for escapes of characters by their code point.

  Only the newline character ends a line here; a text read from a file has its other
  line ends turned into newlines first.
-/

namespace Storyboard.Text

/-! ## Blanks -/

/-- First and last code point of each run of blank characters. -/
def blankRanges : List (Nat × Nat) :=
  [(0x09, 0x0D), (0x1C, 0x20), (0x85, 0x85), (0xA0, 0xA0), (0x1680, 0x1680), (0x2000, 0x200A),
   (0x2028, 0x2029), (0x202F, 0x202F), (0x205F, 0x205F), (0x3000, 0x3000)]

/-- Whether a code point lies in one of the given runs. -/
def inRanges (ranges : List (Nat × Nat)) (code : Nat) : Bool :=
  ranges.any fun (first, last) => first ≤ code && code ≤ last

/-- Spaces, line breaks and the four separators below the space. -/
def isBlank (c : Char) : Bool :=
  inRanges blankRanges c.toNat

/-! ## Digits -/

/-- The code points of the zeros, in increasing order. -/
def digitZeros : List Nat :=
  [0x30, 0x660, 0x6F0, 0x7C0, 0x966, 0x9E6, 0xA66, 0xAE6, 0xB66, 0xBE6, 0xC66, 0xCE6, 0xD66,
   0xDE6, 0xE50, 0xED0, 0xF20, 0x1040, 0x1090, 0x17E0, 0x1810, 0x1946, 0x19D0, 0x1A80, 0x1A90,
   0x1B50, 0x1BB0, 0x1C40, 0x1C50, 0xA620, 0xA8D0, 0xA900, 0xA9D0, 0xA9F0, 0xAA50, 0xABF0, 0xFF10,
   0x104A0, 0x10D30, 0x11066, 0x110F0, 0x11136, 0x111D0, 0x112F0, 0x11450, 0x114D0, 0x11650,
   0x116C0, 0x11730, 0x118E0, 0x11950, 0x11C50, 0x11D50, 0x11DA0, 0x16A60, 0x16AC0, 0x16B50,
   0x1D7CE, 0x1D7D8, 0x1D7E2, 0x1D7EC, 0x1D7F6, 0x1E140, 0x1E2F0, 0x1E950, 0x1FBF0]

/-- The value of a decimal digit of any script. -/
def digitValue? (c : Char) : Option Nat :=
  (digitZeros.find? fun nought => nought ≤ c.toNat && c.toNat < nought + 10).map (c.toNat - ·)

/-- Whether a character is one of the digits `0` to `9`. -/
def isAsciiDigit (c : Char) : Bool :=
  '0' ≤ c && c ≤ '9'

/-- The lower-case hexadecimal digit of `d < 16`. -/
def hexDigit (d : Nat) : Char :=
  if d < 10 then Char.ofNat (48 + d) else Char.ofNat (87 + d)

/-- The last `width` hexadecimal digits of `n`, most significant first. -/
def hexDigits : (width : Nat) → (n : Nat) → List Char
  | 0, _ => []
  | width + 1, n => hexDigits width (n / 16) ++ [hexDigit (n % 16)]

/-! ## Lines -/

/-- The pieces of a text between the occurrences of a separator, at least one. -/
def pieces (separator : Char) : List Char → List (List Char)
  | [] => [[]]
  | c :: cs =>
    if c = separator then [] :: pieces separator cs
    else match pieces separator cs with
      | [] => [[c]]
      | piece :: others => (c :: piece) :: others

/-- The lines of a text, without the newlines that end them. -/
def lines (text : String) : List String :=
  (pieces '\n' text.toList).map String.ofList

/-- Turns the line ends of other systems into newlines: a carriage return, together with a
    newline that follows it, becomes one newline. -/
def withNewlines : List Char → List Char
  | [] => []
  | '\r' :: '\n' :: cs => '\n' :: withNewlines cs
  | c :: cs => (if c = '\r' then '\n' else c) :: withNewlines cs

/-- The text without the given characters at its end. -/
def dropEnd (dropped : Char → Bool) (cs : List Char) : List Char :=
  (cs.reverse.dropWhile dropped).reverse

/-- Several copies of a text, one after the other. -/
def copies (count : Nat) (text : String) : String :=
  "".intercalate (List.replicate count text)

end Storyboard.Text
