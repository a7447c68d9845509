/-
  Storyboard.Parse.Stmt

  Statements:

    program    ::= statement*
    statement  ::= 'let' IDENTIFIER '=' expression
                 | 'fn' IDENTIFIER '(' [IDENTIFIER (',' IDENTIFIER)*] ')' block
                 | 'return' [expression]
                 | 'if' expression block ['else' (block | 'if' …)]
                 | 'repeat' expression block
                 | 'animate' '{' command* '}'
                 | 'scene' IDENTIFIER block
                 | expression
    command    ::= 'move' primary ['up' | 'down' | 'left' | 'right']
                 | 'rotate' primary | 'scale' primary | 'fade' primary
    block      ::= '{' statement* '}'

  A statement that cannot be read is reported, and reading goes on at the next
  line, at the next keyword that opens a statement or, inside a block, at the
  brace that closes it.
-/
import Storyboard.Parse.Expr

namespace Storyboard.Parse

/-! ## Recovery -/

/-- Adds an error to those survived. -/
def State.record (s : State) (error : SyntaxError) : State :=
  { s with errors := s.errors ++ [error] }

/-- Whether reading can go on at an item after an error. -/
def resumesAt (inBlock : Bool) (item : Item) : Bool :=
  item.token.kind = .endOfInput || item.startsLine || item.token.kind.opensStatement ||
    (inBlock && item.token.kind = .rightBrace)

/-- Moves on to where reading can go on, past one token at least if none was read since
    `start`. -/
def State.recover (s : State) (inBlock : Bool) (start : Int) : State :=
  let cursor := if s.cursor.index = start then s.cursor.advance else s.cursor
  { s with cursor := cursor.seek (resumesAt inBlock) }

/-- A statement, or nothing and one more error. -/
def attempt (inBlock : Bool) (one : Parser Stmt) : Parser (Option Stmt) := fun s =>
  match one s with
  | .ok stmt t => .ok (some stmt) t
  | .error (.rejected error) t => .ok none ((t.record error).recover inBlock s.cursor.index)
  | .error failure t => .error failure t

/-- Statements up to the end of input and, but at top level, up to a closing brace, by attempts
    that give a statement or nothing. -/
def statementsBy {σ : Type} [HasState σ] (topLevel : Bool)
    (attempted : ParserOver σ (Option Stmt)) : ParserOver σ (List Stmt) := do
  let found ← many do
    let kind := (← peek).token.kind
    if kind = .endOfInput || (!topLevel && kind = .rightBrace) then return none
    else some <$> attempted
  return found.filterMap id

/-- Statements, with recovery in or out of a block. -/
def statementsWith (inBlock topLevel : Bool) (one : Parser Stmt) : Parser (List Stmt) :=
  statementsBy topLevel (attempt inBlock one)

/-- Whether some nesting is in use, so that a closing brace may belong to a block. -/
def inBlockAt (room : Nat) : Bool := room < maxDepth

section

variable {σ : Type} [HasState σ]

/-! ## Animation commands -/

/-- The amount of a command. -/
def amountWith (nested : ParserOver σ Expr) : ParserOver σ Expr := primaryWith nested

/-- A direction, and `right` if there is none. -/
def direction : ParserOver σ Direction := do
  match (← peek).token.kind with
  | .keyword (.direction d) =>
    let _ ← advance
    return d
  | _ => return .right

/-- A command, or nothing after one token that does not open a command. -/
def commandWith (nested : ParserOver σ Expr) : ParserOver σ (Option Command) := do
  let token ← advance
  match token.kind with
  | .keyword (.command .move) =>
    let amount ← amountWith nested
    return some (.move amount (← direction) token.location)
  | .keyword (.command .rotate) => return some (.rotate (← amountWith nested) token.location)
  | .keyword (.command .scale) => return some (.scale (← amountWith nested) token.location)
  | .keyword (.command .fade) => return some (.fade (← amountWith nested) token.location)
  | _ => return none

/-- Commands up to a closing brace or the end of input; other tokens between them are skipped. -/
def commandsWith (nested : ParserOver σ Expr) : ParserOver σ (List Command) := do
  let found ← many do
    let kind := (← peek).token.kind
    if kind = .rightBrace || kind = .endOfInput then return none
    else some <$> commandWith nested
  return found.filterMap id

/-! ## Statements -/

/-- What a statement may nest: expressions, bodies of blocks, and a chained `if` after `else`,
    whose first token has been read. -/
structure NestedOver (σ : Type) where
  expression : ParserOver σ Expr
  body : ParserOver σ (List Stmt)
  chained : Location → ParserOver σ Stmt

/-- A name that is introduced. -/
def newName (text : String) (hint : Option String) : ParserOver σ Identifier := do
  let token ← expect .identifier text hint
  return ⟨token.text, token.location⟩

/-- Statements in braces. -/
def blockWith (body : ParserOver σ (List Stmt)) (opening closing : String) :
    ParserOver σ (List Stmt) := do
  let _ ← expect .leftBrace opening none
  let statements ← body
  let _ ← expect .rightBrace closing none
  return statements

/-- What follows `let`. -/
def bindingWith (nested : NestedOver σ) (location : Location) : ParserOver σ Stmt := do
  let name ← newName "Expected variable name" (some "let name = value")
  let _ ← expect .assign "Expected = after variable name" none
  let value ← nested.expression
  return .binding name value location

/-- What follows `fn`. -/
def functionWith (nested : NestedOver σ) (location : Location) : ParserOver σ Stmt := do
  let name ← newName "Expected function name" none
  let _ ← expect .leftParen "Expected ( after function name"
    (some ("fn " ++ name.name ++ "(a, b) \x7b ... \x7d"))
  let parameters ← separated (newName "Expected parameter name" none)
  let _ ← expect .rightParen "Expected ) after parameters" none
  let body ← blockWith nested.body "Expected \x7b before function body"
    "Expected \x7d after function body"
  return .function name parameters body location

/-- What follows `return`: nothing at the end of a block, of the input or of the line. -/
def giveBackWith (nested : NestedOver σ) (location : Location) : ParserOver σ Stmt := do
  let item ← peek
  if item.token.kind = .rightBrace || item.token.kind = .endOfInput || item.startsLine then
    return .giveBack none location
  else
    let value ← nested.expression
    return .giveBack (some value) location

/-- What follows `else`. -/
def elseWith (nested : NestedOver σ) : ParserOver σ (List Stmt) := do
  match ← accept (· = .keyword (.statement .ifWord)) with
  | some token => return [← nested.chained token.location]
  | none => blockWith nested.body "Expected \x7b after else" "Expected \x7d after else body"

/-- What follows `if`. -/
def branchWith (nested : NestedOver σ) (location : Location) : ParserOver σ Stmt := do
  let condition ← nested.expression
  let thenBody ← blockWith nested.body "Expected \x7b after if condition"
    "Expected \x7d after if body"
  match ← accept (· = .keyword .otherwise) with
  | none => return .branch condition thenBody none location
  | some _ =>
    let elseBody ← elseWith nested
    return .branch condition thenBody (some elseBody) location

/-- What follows `repeat`. -/
def loopWith (nested : NestedOver σ) (location : Location) : ParserOver σ Stmt := do
  let times ← nested.expression
  let body ← blockWith nested.body "Expected \x7b after repeat count"
    "Expected \x7d after repeat body"
  return .loop times body location

/-- What follows `animate`. -/
def animationWith (nested : NestedOver σ) (location : Location) : ParserOver σ Stmt := do
  let _ ← expect .leftBrace "Expected \x7b after animate" (some "animate \x7b move 2 right \x7d")
  let commands ← commandsWith nested.expression
  let _ ← expect .rightBrace "Expected \x7d after animate block" none
  return .animation commands location

/-- What follows `scene`. -/
def sceneWith (nested : NestedOver σ) (location : Location) : ParserOver σ Stmt := do
  let name ← newName "Expected scene name" (some "scene intro \x7b ... \x7d")
  let body ← blockWith nested.body "Expected \x7b after scene name"
    "Expected \x7d after scene body"
  return .scene name.name body location

/-- A statement: by its keyword, or an expression. -/
def statementWith (nested : NestedOver σ) : ParserOver σ Stmt := do
  let token := (← peek).token
  match token.kind with
  | .keyword (.statement word) =>
    let _ ← advance
    match word with
    | .letWord => bindingWith nested token.location
    | .fnWord => functionWith nested token.location
    | .returnWord => giveBackWith nested token.location
    | .ifWord => branchWith nested token.location
    | .repeatWord => loopWith nested token.location
    | .animateWord => animationWith nested token.location
    | .sceneWord => sceneWith nested token.location
  | _ =>
    let value ← nested.expression
    return .expression value value.location

end

/-- What a statement may nest, for parsers that know no more than the state. -/
abbrev Nested := NestedOver State

/-- What a statement with the given levels of nesting left may nest. -/
def nested : (room : Nat) → Nested
  | 0 => ⟨expression 0, tooDeep, fun _ => tooDeep⟩
  | below + 1 =>
    { expression := expression (below + 1)
      body := fun s => statementsWith (inBlockAt below) false (statementWith (nested below)) s
      chained := fun location s => branchWith (nested below) location s }

/-- A statement at a room. -/
def statement (room : Nat) : Parser Stmt := statementWith (nested room)

/-- Statements in braces at a room. -/
def block (room : Nat) (opening closing : String) : Parser (List Stmt) :=
  blockWith (nested room).body opening closing

/-- Statements at a room, up to the end of input if at top level and else to a closing brace. -/
def statements (room : Nat) (topLevel : Bool) : Parser (List Stmt) :=
  statementsWith (inBlockAt room) topLevel (statement room)

/-- A program at a room: all statements up to the end of input. -/
def programAt (room : Nat) : Parser Program := do
  return ⟨← statements room true, .start⟩

/-- A program. -/
def program : Parser Program := programAt maxDepth

end Storyboard.Parse

namespace Storyboard

/-- The program of a list of tokens and the syntax errors found in it. Syntax errors are
    survived; a failure is left only for a number token that holds no number. -/
def parse (tokens : List Token) : Except Parse.Failure (Program × List SyntaxError) :=
  match Parse.program (.ofTokens tokens) with
  | .ok program s => .ok (program, s.errors)
  | .error failure _ => .error failure

end Storyboard
