/-
  Storyboard.Text.Quoted

  Two ways to write a text between quotes.

  Quoted text is how a piece of source or a list of messages is shown inside a message,
  so that blanks at its ends, line breaks and invisible characters can be seen. The
  quote is single, unless the text holds a single quote and no double one. The quote
  itself, the backslash and all that is not printable are escaped.

  String literals are those of scripts and record files: double quotes, and only
  printable ASCII between them. A character beyond the first plane is written as the
  two halves of its surrogate pair.
-/
import Storyboard.Text.Printable

namespace Storyboard.Text

/-! ## Quoted text -/

/-- The quote a text is written between. -/
def quoteFor (cs : List Char) : Char :=
  if cs.contains '\x27' && !cs.contains '\x22' then '\x22' else '\x27'

/-- An escape by code point: two, four or eight hexadecimal digits, as few as hold it. -/
def escapeCode (code : Nat) : List Char :=
  if code < 0x100 then '\\' :: 'x' :: hexDigits 2 code
  else if code < 0x10000 then '\\' :: 'u' :: hexDigits 4 code
  else '\\' :: 'U' :: hexDigits 8 code

/-- One character of a quoted text. -/
def quotedChar (quote c : Char) : List Char :=
  if c = quote || c = '\\' then ['\\', c]
  else if c = '\n' then ['\\', 'n']
  else if c = '\r' then ['\\', 'r']
  else if c = '\t' then ['\\', 't']
  else if isPrintable c then [c]
  else escapeCode c.toNat

/-- A text between quotes. -/
def quoted (text : String) : String :=
  let cs := text.toList
  let quote := quoteFor cs
  String.ofList (quote :: cs.flatMap (quotedChar quote) ++ [quote])

/-- A list of texts, each between quotes, in brackets. -/
def quotedList (texts : List String) : String :=
  "[" ++ ", ".intercalate (texts.map quoted) ++ "]"

/-! ## Literals -/

/-- An escape by one sixteen-bit unit. -/
def escapeUnit (unit : Nat) : List Char :=
  '\\' :: 'u' :: hexDigits 4 unit

/-- One character of a literal. -/
def literalChar (c : Char) : List Char :=
  if c = '\x22' || c = '\\' then ['\\', c]
  else if c = '\n' then ['\\', 'n']
  else if c = '\r' then ['\\', 'r']
  else if c = '\t' then ['\\', 't']
  else if c = '\x08' then ['\\', 'b']
  else if c = '\x0c' then ['\\', 'f']
  else if ' ' ≤ c && c ≤ '~' then [c]
  else if c.toNat < 0x10000 then escapeUnit c.toNat
  else
    let above := c.toNat - 0x10000
    escapeUnit (0xD800 + above / 0x400) ++ escapeUnit (0xDC00 + above % 0x400)

/-- A text as a literal. -/
def literal (text : String) : String :=
  String.ofList ('\x22' :: text.toList.flatMap literalChar ++ ['\x22'])

end Storyboard.Text
