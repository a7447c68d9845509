/-
  Storyboard.Token.Scanner

  The scanner: from the characters of a source text to its tokens.

  A scanner holds the characters that are left and the position reached. Every
  step consumes a number of characters, and the position moves along with just
  those characters, so it is always the position of what is left. What is
  consumed is decided by functions on the list of characters alone: `gap`,
  `numeral`, `word`, `stringBody` and so on give the piece at the front.
-/
import Storyboard.Token
import Storyboard.Text.Basic

namespace Storyboard

/-! ## Positions -/

/-- How far a text has been read: the number of characters, and line and column from one. -/
structure Position where
  offset : Nat
  line : Nat
  column : Nat
  deriving DecidableEq, Inhabited

namespace Position

/-- The position at the start of a text. -/
def start : Position := ⟨0, 1, 1⟩

/-- The position after one more character. -/
def next (p : Position) (c : Char) : Position :=
  if c = '\n' then ⟨p.offset + 1, p.line + 1, 1⟩ else ⟨p.offset + 1, p.line, p.column + 1⟩

/-- The position after more characters. -/
def after (p : Position) (cs : List Char) : Position := cs.foldl next p

/-- The line and column of a position. -/
def location (p : Position) : Location := ⟨p.line, p.column⟩

end Position

/-! ## Pieces of text -/

namespace Lexeme

/-- Digits, letters `a` to `f` and `A` to `F`. -/
def isHexDigit (c : Char) : Bool :=
  Text.isAsciiDigit c || ('a' ≤ c && c ≤ 'f') || ('A' ≤ c && c ≤ 'F')

/-- ASCII letters and the underscore. -/
def startsWord (c : Char) : Bool :=
  ('a' ≤ c && c ≤ 'z') || ('A' ≤ c && c ≤ 'Z') || c = '_'

/-- Characters of a word. -/
def isWordChar (c : Char) : Bool := startsWord c || Text.isAsciiDigit c

/-- Characters that only separate tokens. -/
def isSpace (c : Char) : Bool := c = ' ' || c = '\t' || c = '\r'

/-- The longest run of spaces and comments. Inside a comment all up to the line end counts, and
    nothing but the line end closes it. -/
def gapFrom : (inComment : Bool) → List Char → List Char
  | _, [] => []
  | true, c :: cs => if c = '\n' then [] else c :: gapFrom true cs
  | false, '/' :: '/' :: cs => '/' :: '/' :: gapFrom true cs
  | false, c :: cs => if isSpace c then c :: gapFrom false cs else []

/-- The spaces and comments at the front. -/
def gap (cs : List Char) : List Char := gapFrom false cs

/-- Digits with at most one dot among them, or with none if one was seen before. -/
def numeralFrom : (seenDot : Bool) → List Char → List Char
  | _, [] => []
  | seenDot, c :: cs =>
    if Text.isAsciiDigit c then c :: numeralFrom seenDot cs
    else if c = '.' && !seenDot then c :: numeralFrom true cs
    else []

/-- The digits and the dot at the front. -/
def numeral (cs : List Char) : List Char := numeralFrom false cs

/-- The word characters at the front. -/
def word (cs : List Char) : List Char := cs.takeWhile isWordChar

/-- Any first character and the hexadecimal digits after it. -/
def hexColor : List Char → List Char
  | [] => []
  | c :: cs => c :: cs.takeWhile isHexDigit

/-- What follows an opening quote, up to and with the closing quote or up to the end. A
    backslash before a quote keeps it from closing. -/
def stringBody : List Char → List Char
  | [] => []
  | '\\' :: '\x22' :: cs => '\\' :: '\x22' :: stringBody cs
  | c :: cs => if c = '\x22' then [c] else c :: stringBody cs

/-- The text that a string body stands for: without the closing quote, and each quote without
    the backslash before it. Any other backslash stands for itself. -/
def stringValue : List Char → List Char
  | [] => []
  | '\\' :: '\x22' :: cs => '\x22' :: stringValue cs
  | c :: cs => if c = '\x22' then [] else c :: stringValue cs

/-- Any first character, as an opening quote, and the string body after it. -/
def quotedString : List Char → List Char
  | [] => []
  | c :: cs => c :: stringBody cs

end Lexeme

/-! ## Scanner -/

/-- The characters left to read and the position of the first of them. -/
structure Scanner where
  position : Position
  rest : List Char
  deriving DecidableEq, Inhabited

namespace Scanner

/-- A scanner at the start of a text. -/
def ofText (text : String) : Scanner := ⟨.start, text.toList⟩

/-- Whether nothing is left. -/
def atEnd (s : Scanner) : Bool := s.rest.isEmpty

/-- The character some places ahead; past the end, the null character. -/
def peek (s : Scanner) (ahead : Nat) : Char := s.rest.getD ahead '\x00'

/-- The place of the next character. -/
def location (s : Scanner) : Location := s.position.location

/-- Moves past a number of characters, or to the end if there are fewer. -/
def consume (s : Scanner) (count : Nat) : Scanner :=
  ⟨s.position.after (s.rest.take count), s.rest.drop count⟩

/-- Moves past one character and gives it; at the end, the null character. -/
def advance (s : Scanner) : Char × Scanner := (s.peek 0, s.consume 1)

/-- Moves past spaces and comments. -/
def skipGap (s : Scanner) : Scanner := s.consume (Lexeme.gap s.rest).length

/-- A token at the present place that is written as it stands, and the scanner after it. -/
def take (s : Scanner) (kind : Kind) (lexeme : List Char) : Token × Scanner :=
  (⟨kind, String.ofList lexeme, s.location⟩, s.consume lexeme.length)

/-- A number token of the digits and the dot at the front, even if there are none. -/
def scanNumber (s : Scanner) : Token × Scanner := s.take .number (Lexeme.numeral s.rest)

/-- A colour token of the next character, whatever it is, and hexadecimal digits. -/
def scanColor (s : Scanner) : Token × Scanner := s.take .color (Lexeme.hexColor s.rest)

/-- A keyword or identifier token of the word characters at the front, even if there are none. -/
def scanWord (s : Scanner) : Token × Scanner :=
  s.take (.ofWord (Lexeme.word s.rest)) (Lexeme.word s.rest)

/-- A string token that opens with the next character, whatever it is. -/
def scanString (s : Scanner) : Token × Scanner :=
  (⟨.string, String.ofList (Lexeme.stringValue s.rest.tail), s.location⟩,
    s.consume (Lexeme.quotedString s.rest).length)

/-- An operator or mark at the front, the longer one if there is a choice. -/
def scanMark (s : Scanner) : Token × Scanner :=
  match Kind.ofPair? (s.peek 0) (s.peek 1) with
  | some kind => s.take kind (s.rest.take 2)
  | none => s.take (.ofChar (s.peek 0)) (s.rest.take 1)

/-- The token at the front, where no gap is. -/
def scanToken (s : Scanner) : Token × Scanner :=
  let c := s.peek 0
  if c = '\n' then s.take .newline (s.rest.take 1)
  else if Text.isAsciiDigit c then s.scanNumber
  else if c = '\x22' then s.scanString
  else if c = '#' then s.scanColor
  else if Lexeme.startsWord c then s.scanWord
  else s.scanMark

/-! ### Progress -/

@[simp] theorem rest_consume (s : Scanner) (count : Nat) :
    (s.consume count).rest = s.rest.drop count := rfl

@[simp] theorem rest_take (s : Scanner) (kind : Kind) (lexeme : List Char) :
    (s.take kind lexeme).2.rest = s.rest.drop lexeme.length := rfl

/-- Consuming from a text that is not empty leaves less of it. -/
theorem length_consume_lt {s : Scanner} {count : Nat} (hs : s.rest ≠ []) (hc : 0 < count) :
    (s.consume count).rest.length < s.rest.length := by
  have hpos := List.length_pos_iff.mpr hs
  simp only [rest_consume, List.length_drop]
  omega

/-- Skipping a gap leaves no more than there was. -/
theorem length_skipGap_le (s : Scanner) : s.skipGap.rest.length ≤ s.rest.length := by
  simp [skipGap]

/-- The token at the front of a text that is not empty takes something off it. -/
theorem length_scanToken_lt {s : Scanner} (hs : s.rest ≠ []) :
    s.scanToken.2.rest.length < s.rest.length := by
  obtain ⟨position, rest⟩ := s
  obtain ⟨c, cs, rfl⟩ := List.exists_cons_of_ne_nil hs
  have hc : (⟨position, c :: cs⟩ : Scanner).peek 0 = c := rfl
  unfold scanToken
  simp only [hc]
  split
  · exact length_consume_lt hs (by simp)
  split
  · rename_i hd
    refine length_consume_lt hs ?_
    simp [Lexeme.numeral, Lexeme.numeralFrom, hd]
  split
  · exact length_consume_lt hs (by simp [Lexeme.quotedString])
  split
  · exact length_consume_lt hs (by simp [Lexeme.hexColor])
  split
  · rename_i hw
    refine length_consume_lt hs ?_
    simp [Lexeme.word, Lexeme.isWordChar, hw]
  · unfold scanMark
    split
    · exact length_consume_lt hs (by simp)
    · exact length_consume_lt hs (by simp)

/-- All tokens from the present place on, the last of them the end of input, and the scanner at
    the end. -/
def tokens (s : Scanner) : List Token × Scanner :=
  let here := s.skipGap
  if h : here.rest = [] then ([⟨.endOfInput, "", here.location⟩], here)
  else
    have : here.scanToken.2.rest.length < s.rest.length :=
      Nat.lt_of_lt_of_le (length_scanToken_lt h) (length_skipGap_le s)
    let others := tokens here.scanToken.2
    (here.scanToken.1 :: others.1, others.2)
termination_by s.rest.length

end Scanner

/-- The tokens of a source text. -/
def tokenize (text : String) : List Token := (Scanner.ofText text).tokens.1

end Storyboard
