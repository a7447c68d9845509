/-
  Storyboard.Parse.Counting

  Parsers of a session. They read by the same grammar as parsers that are given
  their room, but find the depth in the session and change it there: what is
  nested raises the depth by one, is refused if that is too much, and lowers it
  again at its end; a chain raises it once for every operator and lowers it at
  its end by as many levels as it took. Both happen after a failure, too.
  Recovery goes by the depth that it finds when an error is met.

  A nested parser that is begun below the greatest depth finds one level less
  than the one around it, so the grammar comes back to itself no more often than
  there are levels left at the start.
-/
import Storyboard.Parse.Session

namespace Storyboard.Parse

instance : HasState Session := ⟨Session.state, fun session state => { session with state := state }⟩

/-- A parser that counts the levels of nesting in use. -/
abbrev Counting := ParserOver Session

namespace Counting

variable {α : Type}

/-! ## Levels -/

/-- Takes one more level into use. -/
def deepen (s : Session) : Session := { s with depth := s.depth + 1 }

/-- Runs a parser, unless too many levels are in use. -/
def guarded (p : Counting α) : Counting α := fun s =>
  if s.depth > maxDepth then tooDeep s else p s

/-- Gives levels back at the end of a run, whether it failed or not. -/
def lowered (levels : Nat) :
    EStateM.Result Failure Session α → EStateM.Result Failure Session α
  | .ok a s => .ok a { s with depth := s.depth - levels }
  | .error failure s => .error failure { s with depth := s.depth - levels }

/-- Runs a parser one level deeper. -/
def nest (p : Counting α) : Counting α := fun s => lowered 1 (guarded p (deepen s))

/-! ## Expressions -/

/-- Operators and operands after a first operand. Each operator takes a level, which stays in use
    for all that follows; how many were taken is given besides the outcome. As with every
    repetition, a round that reads no token is the last. -/
def links (joins : Kind → Bool) (operand : Counting Expr) (left : Expr) (taken : Nat)
    (s : Session) : Nat × EStateM.Result Failure Session Expr :=
  match accept joins s with
  | .error failure t => (taken, .error failure t)
  | .ok none t => (taken, .ok left t)
  | .ok (some operator) t =>
    match guarded operand (deepen t) with
    | .error failure u => (taken + 1, .error failure u)
    | .ok right u =>
      let whole := .binary operator.text left right operator.location
      if u.state.cursor.remaining < s.state.cursor.remaining then
        links joins operand whole (taken + 1) u
      else (taken + 1, .ok whole u)
termination_by s.state.cursor.remaining

/-- Operands joined by operators of one group, from left to right. -/
def chain (joins : Kind → Bool) (operand : Counting Expr) : Counting Expr := do
  let first ← operand
  fun s =>
    let (taken, outcome) := links joins operand first 0 s
    lowered taken outcome

/-- Calls joined by multiplicative operators. -/
def productWith (nested : Counting Expr) : Counting Expr :=
  chain Kind.isMultiplicative (callWith nested)

/-- Products joined by additive operators. -/
def sumWith (nested : Counting Expr) : Counting Expr :=
  chain Kind.isAdditive (productWith nested)

/-- A sum, or two sums compared, the second one level deeper. -/
def comparisonWith (nested : Counting Expr) : Counting Expr := do
  let left ← sumWith nested
  match ← accept Kind.isComparison with
  | none => return left
  | some operator => nest do
    let right ← sumWith nested
    return .binary operator.text left right operator.location

/-- An expression that may come back to itself so many times. -/
def expressionWithin : (levels : Nat) → Counting Expr
  | 0 => nest tooDeep
  | levels + 1 => nest (comparisonWith (expressionWithin levels))

/-- An expression. -/
def expression : Counting Expr := fun s => expressionWithin s.room s

/-! ## Statements -/

/-- A statement, or nothing and one more error. -/
def attempt (one : Counting Stmt) : Counting (Option Stmt) := fun s =>
  match one s with
  | .ok stmt t => .ok (some stmt) t
  | .error (.rejected error) t =>
    .ok none (({ t with state := t.state.record error } : Session).recover s.state.cursor.index)
  | .error failure t => .error failure t

/-- What a statement may nest that may come back to itself so many times. -/
def nestedWithin : (levels : Nat) → NestedOver Session
  | 0 => ⟨expression, nest tooDeep, fun _ => nest tooDeep⟩
  | levels + 1 =>
    { expression := expression
      body := nest fun s => statementsBy false (attempt (statementWith (nestedWithin levels))) s
      chained := fun location => nest fun s => branchWith (nestedWithin levels) location s }

/-- A statement. -/
def statement : Counting Stmt := fun s => statementWith (nestedWithin s.room) s

/-- Statements in braces. -/
def block (opening closing : String) : Counting (List Stmt) := fun s =>
  blockWith (nestedWithin s.room).body opening closing s

/-- Statements up to the end of input if at top level, and else to a closing brace. -/
def statements (topLevel : Bool) : Counting (List Stmt) := statementsBy topLevel (attempt statement)

/-- All statements up to the end of input. -/
def program : Counting Program := do
  return ⟨← statements true, .start⟩

end Counting

/-! ## Entries -/

/-- Where a session may begin to parse. -/
inductive Entry where
  | program
  | statements (topLevel : Bool)
  | statement
  | block (opening closing : String)
  | expression
  | comparison
  | sum
  | product
  | call
  | shape
  | point (what hint : String)
  | clause (kind : Kind) (keyword hint : String)
  | primary

namespace Entry

/-- What an entry gives. -/
abbrev Value : Entry → Type
  | .program => Program
  | .statements _ | .block _ _ => List Stmt
  | .statement => Stmt
  | .point _ _ => Point Expr
  | .expression | .comparison | .sum | .product | .call | .shape | .clause _ _ _ | .primary => Expr

/-- The parser of an entry. -/
def parser : (entry : Entry) → Counting entry.Value
  | .program => Counting.program
  | .statements topLevel => Counting.statements topLevel
  | .statement => Counting.statement
  | .block opening closing => Counting.block opening closing
  | .expression => Counting.expression
  | .comparison => Counting.comparisonWith Counting.expression
  | .sum => Counting.sumWith Counting.expression
  | .product => Counting.productWith Counting.expression
  | .call => callWith Counting.expression
  | .shape => shapeWith Counting.expression
  | .point what hint => pointWith Counting.expression what hint
  | .clause kind keyword hint => clauseWith Counting.expression kind keyword hint
  | .primary => primaryWith Counting.expression

end Entry

end Storyboard.Parse
