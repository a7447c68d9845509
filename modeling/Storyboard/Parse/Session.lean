/-
  Storyboard.Parse.Session

  Parsing by steps. A session keeps what is left to read from one run of a parser
  to the next, together with the levels of nesting that are in use around each
  run. A run only ever changes the former: a parser that fails deep inside a
  construct leaves the session at the depth at which it was begun.
-/
import Storyboard.Parse.Stmt

namespace Storyboard.Parse

/-- A parser's state between two runs, and how many levels of nesting are in use. -/
structure Session where
  state : State
  depth : Int
  deriving Inhabited

namespace Session

/-- A session at the first of a list of tokens, with nothing nested. -/
def ofTokens (tokens : List Token) : Session := ⟨.ofTokens tokens, 0⟩

/-- The levels of nesting left to a run. -/
def room (session : Session) : Nat := roomAt session.depth

/-- Runs a parser with the room that is left. -/
def run {α : Type} (session : Session) (parser : Nat → Parser α) :
    Except Failure α × Session :=
  match parser session.room session.state with
  | .ok a state => (.ok a, { session with state := state })
  | .error failure state => (.error failure, { session with state := state })

/-- Moves on to where reading can go on after an error in what began at `start`. -/
def recover (session : Session) (start : Int) : Session :=
  { session with state := session.state.recover (inBlockAt session.room) start }

/-- A run of a parser that succeeds keeps what is left to read. -/
theorem run_of_ok {α : Type} {session : Session} {parser : Nat → Parser α} {a : α} {state : State}
    (h : parser session.room session.state = .ok a state) :
    session.run parser = (.ok a, { session with state := state }) := by
  rw [run, h]

/-- So does a run of one that fails. -/
theorem run_of_error {α : Type} {session : Session} {parser : Nat → Parser α} {failure : Failure}
    {state : State} (h : parser session.room session.state = .error failure state) :
    session.run parser = (.error failure, { session with state := state }) := by
  rw [run, h]

end Session

end Storyboard.Parse
