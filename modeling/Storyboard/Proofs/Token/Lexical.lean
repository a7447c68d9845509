/-
  Storyboard.Proofs.Token.Lexical

  The lexical rules of the language, as relations on texts that do not mention the
  scanner.

  A text is cut into lexemes with gaps between them. `Gap` says which texts separate
  lexemes, and `Form` which texts are lexemes, of what kind and with what value. Both
  look at what follows: a comment has to run up to a newline or the end, and a string
  without a closing quote up to the end. `Longest` picks, among the beginnings of a
  text that have a form, the longest. `Splits` cuts a whole text that way, and gives
  every lexeme a token at its place, which is counted from the text before it.
-/
import Storyboard.Token.Scanner

namespace Storyboard.Lexical

open Lexeme (isHexDigit startsWord isWordChar)
open Text (isAsciiDigit)

/-! ## Gaps -/

/-- The end of a line: a newline or the end of the text comes next. -/
def EndsLine (text : List Char) : Prop := text = [] ∨ ∃ more, text = '\n' :: more

/-- Spaces, tabs, carriage returns and comments in front of a text. A comment runs up to the end
    of its line. -/
inductive Gap : (gap rest : List Char) → Prop where
  | done {rest : List Char} : Gap [] rest
  | space {c : Char} {gap rest : List Char} :
      c = ' ' ∨ c = '\t' ∨ c = '\r' → Gap gap rest → Gap (c :: gap) rest
  | comment {body gap rest : List Char} :
      '\n' ∉ body → EndsLine (gap ++ rest) → Gap gap rest → Gap ('/' :: '/' :: (body ++ gap)) rest

/-! ## Lexemes -/

/-- What may stand between the quotes of a string, and the text it stands for: a quote only behind
    a backslash, which is dropped then, and any other character for itself. -/
inductive Quoted : (content value : List Char) → Prop where
  | done : Quoted [] []
  | quote {content value : List Char} :
      Quoted content value → Quoted ('\\' :: '\x22' :: content) ('\x22' :: value)
  | plain {c : Char} {content value : List Char} :
      c ≠ '\x22' → Quoted content value → Quoted (c :: content) (c :: value)

/-- Operators and marks, of two characters and of one. -/
def marks : List (List Char × Kind) :=
  [(['=', '='], .comparison .equal), (['!', '='], .comparison .notEqual),
   (['<', '='], .comparison .lessEqual), (['>', '='], .comparison .greaterEqual),
   (['+'], .additive .plus), (['-'], .additive .minus), (['*'], .multiplicative .times),
   (['/'], .multiplicative .divide), (['%'], .multiplicative .modulo), (['='], .assign),
   (['<'], .comparison .less), (['>'], .comparison .greater), (['('], .leftParen),
   ([')'], .rightParen), (['\x7b'], .leftBrace), (['\x7d'], .rightBrace), ([','], .comma),
   (['.'], .dot)]

/-- Whether a lexeme that is no mark begins with this character. -/
def opensLexeme (c : Char) : Bool :=
  c = '\n' || isAsciiDigit c || c = '\x22' || c = '#' || startsWord c

/-- The keywords that a word spells, whatever the case of its letters. -/
def Spells (word : List Char) (keyword : Keyword) : Prop :=
  (String.ofList (word.map Char.toLower), keyword) ∈ Keyword.spellings

/-- The lexemes in front of a text, with the kinds and values of their tokens. -/
inductive Form : (lexeme rest : List Char) → Kind → (value : List Char) → Prop where
  | newline {rest : List Char} : Form ['\n'] rest .newline ['\n']
  /-- A digit, and then digits with at most one dot among them. -/
  | number {c : Char} {cs rest : List Char} :
      isAsciiDigit c = true → (∀ d ∈ cs, isAsciiDigit d = true ∨ d = '.') → cs.count '.' ≤ 1 →
      Form (c :: cs) rest .number (c :: cs)
  | keyword {c : Char} {cs rest : List Char} {word : Keyword} :
      startsWord c = true → (∀ d ∈ cs, isWordChar d = true) → Spells (c :: cs) word →
      Form (c :: cs) rest (.keyword word) (c :: cs)
  | identifier {c : Char} {cs rest : List Char} :
      startsWord c = true → (∀ d ∈ cs, isWordChar d = true) → (∀ word, ¬ Spells (c :: cs) word) →
      Form (c :: cs) rest .identifier (c :: cs)
  | color {cs rest : List Char} :
      (∀ d ∈ cs, isHexDigit d = true) → Form ('#' :: cs) rest .color ('#' :: cs)
  /-- A string with a closing quote, which is one that no backslash stands before. -/
  | closedString {content value rest : List Char} :
      Quoted content value → content.getLast? ≠ some '\\' →
      Form ('\x22' :: (content ++ ['\x22'])) rest .string value
  /-- A string without a closing quote runs to the end. -/
  | openString {content value : List Char} :
      Quoted content value → Form ('\x22' :: content) [] .string value
  | mark {text rest : List Char} {kind : Kind} : (text, kind) ∈ marks → Form text rest kind text
  /-- Any other character, if it is not one of a gap. -/
  | illegal {c : Char} {rest : List Char} :
      opensLexeme c = false → ¬ (c = ' ' ∨ c = '\t' ∨ c = '\r') → (∀ kind, ([c], kind) ∉ marks) →
      Form [c] rest .illegal [c]

/-- A lexeme of any kind. -/
def IsLexeme (lexeme rest : List Char) : Prop := ∃ kind value, Form lexeme rest kind value

/-! ## Texts -/

/-- The longest beginning of a text that has some form in front of what is left of it. -/
structure Longest (form : List Char → List Char → Prop) (taken rest : List Char) : Prop where
  fits : form taken rest
  longest : ∀ {other left : List Char}, other ++ left = taken ++ rest → form other left →
    other.length ≤ taken.length

/-- The place behind some text: its line is counted by the newlines in it, and its column by the
    characters since the last of them. -/
def placeAfter (before : List Char) : Location :=
  ⟨1 + before.count '\n', 1 + (before.reverse.takeWhile (· ≠ '\n')).length⟩

/-- A text, of which some stands before it, cut into gaps and lexemes, and the tokens of the
    lexemes with an end of input behind them. -/
inductive Splits : (before text : List Char) → List Token → Prop where
  | done {before gap : List Char} :
      Longest Gap gap [] →
      Splits before gap [⟨.endOfInput, "", placeAfter (before ++ gap)⟩]
  | more {before gap lexeme rest value : List Char} {kind : Kind} {tokens : List Token} :
      Longest Gap gap (lexeme ++ rest) → Longest IsLexeme lexeme rest →
      Form lexeme rest kind value → Splits (before ++ gap ++ lexeme) rest tokens →
      Splits before (gap ++ lexeme ++ rest)
        (⟨kind, String.ofList value, placeAfter (before ++ gap)⟩ :: tokens)

/-- There is one longest beginning of a form. -/
theorem Longest.unique {form : List Char → List Char → Prop} {taken rest other left : List Char}
    (h : Longest form taken rest) (h' : Longest form other left)
    (heq : other ++ left = taken ++ rest) : other = taken ∧ left = rest := by
  have hle := h.longest heq h'.fits
  have hge := h'.longest heq.symm h.fits
  exact List.append_inj heq (Nat.le_antisymm hle hge)

end Storyboard.Lexical
