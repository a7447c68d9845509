/-
  Storyboard.Parse.Cursor

  What a parser has left to read. Newline tokens only separate lines, so they are
  taken out, and each token remembers whether it is the first of its line. The
  list always has an end: if the last token is not the end of input, one is
  added. A cursor therefore has a current token at all times, and it stays on the
  last one however often it is moved.
-/
import Storyboard.Token

namespace Storyboard.Parse

/-- A token, and whether a newline stands right before it. -/
structure Item where
  token : Token
  startsLine : Bool
  deriving DecidableEq, Inhabited

/-- Takes out newlines and marks the tokens that follow one. -/
def markLines : (afterNewline : Bool) → List Token → List Item
  | _, [] => []
  | afterNewline, token :: tokens =>
    if token.kind = .newline then markLines true tokens
    else ⟨token, afterNewline⟩ :: markLines false tokens

/-- An end of input at the given place. -/
def endItem (location : Location) : Item := ⟨⟨.endOfInput, "", location⟩, false⟩

/-- The items after `last`, closed by an end of input at the place of the last of all items,
    unless that one is an end of input itself. -/
def closeAfter (last : Item) : List Item → List Item
  | [] => if last.token.kind = .endOfInput then [] else [endItem last.token.location]
  | item :: items => item :: closeAfter item items

/-- The token to be read next, those after it, and how many were passed. -/
structure Cursor where
  current : Item
  upcoming : List Item
  index : Nat
  deriving DecidableEq, Inhabited

namespace Cursor

/-- A cursor at the first of a list of items; an empty list is an end of input. -/
def ofItems : List Item → Cursor
  | [] => ⟨endItem .start, [], 0⟩
  | item :: items => ⟨item, closeAfter item items, 0⟩

/-- A cursor at the first of a list of tokens. -/
def ofTokens (tokens : List Token) : Cursor := ofItems (markLines false tokens)

/-- The current and all upcoming items. -/
def items (c : Cursor) : List Item := c.current :: c.upcoming

/-- The kind of the current token. -/
def kind (c : Cursor) : Kind := c.current.token.kind

/-- The place of the current token. -/
def location (c : Cursor) : Location := c.current.token.location

/-- How many tokens come after the current one. -/
def remaining (c : Cursor) : Nat := c.upcoming.length

/-- Moves to the next token, if there is one. -/
def advance (c : Cursor) : Cursor :=
  match c.upcoming with
  | [] => c
  | item :: items => ⟨item, items, c.index + 1⟩

/-- Moves on to the first item, from the current one on, at which to stop; without one, to the
    last. -/
def seekFrom (stops : Item → Bool) (current : Item) : List Item → Nat → Cursor
  | [], index => ⟨current, [], index⟩
  | item :: items, index =>
    if stops current then ⟨current, item :: items, index⟩
    else seekFrom stops item items (index + 1)

/-- Moves on to the first item at which to stop. -/
def seek (c : Cursor) (stops : Item → Bool) : Cursor :=
  seekFrom stops c.current c.upcoming c.index

end Cursor

end Storyboard.Parse
