/-
  Storyboard.Parse.Basic

  Parsers: they read tokens off a cursor, and fail with a cause. A failure keeps
  the cursor where it happened, so that reading can go on from there; syntax
  errors that were survived are collected in the state.

  How deep a construct may nest is limited. A parser is given the levels of
  nesting that are left to it, its `room`; what it nests gets one level less,
  and with no room left it fails. Nothing has to be given back afterwards.

  Single tokens and repetitions are read in the same way whatever else is known
  besides the state, so their parsers are for every type of values that has one.
-/
import Storyboard.Diagnostic
import Storyboard.Parse.Cursor
import Storyboard.Text.Quoted

namespace Storyboard

/-! ## Errors -/

/-- What is wrong with the tokens. -/
inductive SyntaxProblem where
  /-- Some token is missing; the text says which. -/
  | missing (text : String) (hint : Option String)
  | strayCharacter (text : String)
  | strayToken (text : String)
  | endOfInput
  | tooDeep
  deriving DecidableEq, Inhabited

/-- A problem and the place of the token at which it was noticed. -/
structure SyntaxError where
  problem : SyntaxProblem
  location : Location
  deriving DecidableEq, Inhabited

/-- How many blocks, parentheses and operators may nest. -/
def maxDepth : Nat := 64

namespace SyntaxProblem

/-- The problem in words. -/
def text : SyntaxProblem → String
  | .missing text _ => text
  | .strayCharacter text => "Unexpected character '" ++ text ++ "'"
  | .strayToken text => "Unexpected token: " ++ text
  | .endOfInput => "Unexpected end of input"
  | .tooDeep => "Nesting too deep"

/-- What may help against it. -/
def hint : SyntaxProblem → Option String
  | .missing _ hint => hint
  | .tooDeep => some s!"at most {maxDepth} nested blocks, parentheses or operators"
  | _ => none

/-- The problem of a token that cannot begin anything. -/
def ofToken (token : Token) : SyntaxProblem :=
  match token.kind with
  | .illegal => .strayCharacter token.text
  | .endOfInput => .endOfInput
  | _ => .strayToken token.text

end SyntaxProblem

/-- A syntax error as a diagnostic. -/
def SyntaxError.diagnostic (e : SyntaxError) : Diagnostic :=
  ⟨.grammar, e.problem.text, some e.location, e.problem.hint⟩

namespace Parse

/-- Why a parser failed: the tokens are wrong, or a number token holds no number. -/
inductive Failure where
  | rejected (error : SyntaxError)
  | notNumber (text : String)
  deriving DecidableEq, Inhabited

/-- The failure in words. -/
def Failure.text : Failure → String
  | .rejected error => error.problem.text
  | .notNumber text => "could not convert string to float: " ++ Text.quoted text

/-- What is left to read, and the errors survived so far. -/
structure State where
  cursor : Cursor
  errors : List SyntaxError
  deriving DecidableEq, Inhabited

/-- Values in which a parser finds its state, and in which it leaves another. -/
class HasState (σ : Type) where
  state : σ → State
  withState : σ → State → σ

instance : HasState State := ⟨fun s => s, fun _ t => t⟩

/-- A parser reads from a value that has a state, and leaves one whether it fails or not. -/
abbrev ParserOver (σ : Type) := EStateM Failure σ

/-- A parser that knows no more than its state. -/
abbrev Parser := ParserOver State

/-- The state before anything was read. -/
def State.ofTokens (tokens : List Token) : State := ⟨.ofTokens tokens, []⟩

/-- The levels of nesting left when some are in use. -/
def roomAt (depth : Int) : Nat := (maxDepth - depth).toNat

/-! ## Single tokens -/

section

variable {σ : Type} [HasState σ]

open HasState

/-- The current item, which stays. -/
def peek : ParserOver σ Item := fun s => .ok (state s).cursor.current s

/-- The current token, and moves past it. -/
def advance : ParserOver σ Token := fun s =>
  .ok (state s).cursor.current.token
    (withState s { state s with cursor := (state s).cursor.advance })

/-- The current token if its kind is wanted, and moves past it. -/
def accept (wanted : Kind → Bool) : ParserOver σ (Option Token) := fun s =>
  if wanted (state s).cursor.kind then (some <$> advance) s else .ok none s

/-- Fails with a problem at the current token. -/
def reject {α : Type} (problem : SyntaxProblem) : ParserOver σ α := fun s =>
  .error (.rejected ⟨problem, (state s).cursor.location⟩) s

/-- The current token, which has to be of the given kind, and moves past it. -/
def expect (kind : Kind) (text : String) (hint : Option String) : ParserOver σ Token := fun s =>
  if (state s).cursor.kind = kind then advance s else reject (.missing text hint) s

/-- Fails because no level of nesting is left. -/
def tooDeep {α : Type} : ParserOver σ α := reject .tooDeep

/-- Fails because the current token cannot begin an expression. -/
def unexpected {α : Type} : ParserOver σ α := fun s =>
  reject (.ofToken (state s).cursor.current.token) s

/-! ## Repetition -/

/-- Runs a parser again and again until it gives nothing. A run that reads no token ends the
    repetition too, so that it always ends. -/
def many {α : Type} (item : ParserOver σ (Option α)) : ParserOver σ (List α) := fun s =>
  match item s with
  | .error failure t => .error failure t
  | .ok none t => .ok [] t
  | .ok (some a) t =>
    if (state t).cursor.remaining < (state s).cursor.remaining then
      match many item t with
      | .ok as u => .ok (a :: as) u
      | .error failure u => .error failure u
    else .ok [a] t
termination_by s => (state s).cursor.remaining

/-- Items between commas up to a closing parenthesis, which stays; there may be none. -/
def separated {α : Type} (item : ParserOver σ α) : ParserOver σ (List α) := do
  if (← peek).token.kind = .rightParen then return []
  let first ← item
  let others ← many do
    match ← accept (· = .comma) with
    | some _ => some <$> item
    | none => return none
  return first :: others

end

/-! ## Runs from a plain state -/

variable {α : Type} (s : State)

theorem peek_apply : peek s = .ok s.cursor.current s := rfl

theorem advance_apply :
    advance s = .ok s.cursor.current.token { s with cursor := s.cursor.advance } := rfl

theorem accept_apply (wanted : Kind → Bool) :
    accept wanted s = if wanted s.cursor.kind then (some <$> advance) s else .ok none s := rfl

theorem reject_apply (problem : SyntaxProblem) :
    (reject problem : Parser α) s = .error (.rejected ⟨problem, s.cursor.location⟩) s := rfl

theorem expect_apply (kind : Kind) (text : String) (hint : Option String) :
    expect kind text hint s =
      if s.cursor.kind = kind then advance s else reject (.missing text hint) s := rfl

theorem many_apply (item : Parser (Option α)) :
    many item s =
      match item s with
      | .error failure t => .error failure t
      | .ok none t => .ok [] t
      | .ok (some a) t =>
        if t.cursor.remaining < s.cursor.remaining then
          match many item t with
          | .ok as u => .ok (a :: as) u
          | .error failure u => .error failure u
        else .ok [a] t := by
  rw [many]
  rcases item s with ⟨_ | a, t⟩ | ⟨failure, t⟩
  · rfl
  · rcases hrest : many item t <;> simp only [hrest] <;> rfl
  · rfl

end Parse

end Storyboard
