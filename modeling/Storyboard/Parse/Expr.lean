/-
  Storyboard.Parse.Expr

  Expressions:

    expression ::= sum [('==' | '!=' | '<' | '>' | '<=' | '>=') sum]
    sum        ::= product (('+' | '-') product)*
    product    ::= call (('*' | '/' | '%') call)*
    call       ::= shape ['(' [expression (',' expression)*] ')']
    shape      ::= 'circle' 'at' point 'size' expression 'color' expression
                 | 'rect' 'at' point 'width' expression 'height' expression
                   'color' expression
                 | 'line' point point 'color' expression
                 | 'triangle' point point point 'color' expression
                 | primary
    point      ::= '(' expression ',' expression ')'
    primary    ::= NUMBER | STRING | COLOR | IDENTIFIER | '(' expression ')'

  An expression takes one level of nesting, and so does each operator for what
  stands to its right. The parsers up to `callWith` take the parser for nested
  expressions as an argument; those above it take one for every number of levels
  up to their own room, since an operator leaves less room than there was.
-/
import Storyboard.Number.Numeral
import Storyboard.Parse.Basic
import Storyboard.Tree

namespace Storyboard.Parse

section

variable {σ : Type} [HasState σ]

/-! ## Primaries -/

/-- The number that a token holds. -/
def numberOf (token : Token) : ParserOver σ Expr :=
  match Numeral.read? token.text with
  | some value => pure (.number value token.location)
  | none => throw (.notNumber token.text)

/-- A literal, a name, or an expression in parentheses. -/
def primaryWith (nested : ParserOver σ Expr) : ParserOver σ Expr := do
  let token := (← peek).token
  match token.kind with
  | .number =>
    let _ ← advance
    numberOf token
  | .string =>
    let _ ← advance
    return .string token.text token.location
  | .color =>
    let _ ← advance
    return .color token.text token.location
  | .identifier =>
    let _ ← advance
    return .identifier ⟨token.text, token.location⟩
  | .leftParen =>
    let _ ← advance
    let inner ← nested
    let _ ← expect .rightParen "Expected ) after expression" none
    return inner
  | _ => unexpected

/-! ## Shapes -/

/-- The form of a shape, as a hint. -/
def shapeHint : ShapeWord → String
  | .circle => "circle at (x, y) size r color #RRGGBB"
  | .rect => "rect at (x, y) width w height h color #RRGGBB"
  | .line => "line (x1, y1) (x2, y2) color #RRGGBB"
  | .triangle => "triangle (x1, y1) (x2, y2) (x3, y3) color #RRGGBB"

/-- Two coordinates in parentheses. -/
def pointWith (nested : ParserOver σ Expr) (what hint : String) : ParserOver σ (Point Expr) := do
  let _ ← expect .leftParen ("Expected ( for " ++ what) (some hint)
  let x ← nested
  let _ ← expect .comma ("Expected , in " ++ what) (some hint)
  let y ← nested
  let _ ← expect .rightParen ("Expected ) after " ++ what) (some hint)
  return ⟨x, y⟩

/-- A keyword and the expression after it. -/
def clauseWith (nested : ParserOver σ Expr) (kind : Kind) (keyword hint : String) :
    ParserOver σ Expr := do
  let _ ← expect kind ("Expected \"" ++ keyword ++ "\" keyword") (some hint)
  nested

/-- The colour that ends every shape. -/
def colorWith (nested : ParserOver σ Expr) (hint : String) : ParserOver σ Expr :=
  clauseWith nested (.keyword (.clause .color)) "color" hint

/-- What follows the word `circle`. -/
def circleWith (nested : ParserOver σ Expr) (location : Location) : ParserOver σ Expr := do
  let hint := shapeHint .circle
  let _ ← expect (.keyword (.clause .place)) "Expected \"at\" after circle" (some hint)
  let center ← pointWith nested "position" hint
  let size ← clauseWith nested (.keyword (.clause .size)) "size" hint
  let color ← colorWith nested hint
  return .circle center size color location

/-- What follows the word `rect`. -/
def rectWith (nested : ParserOver σ Expr) (location : Location) : ParserOver σ Expr := do
  let hint := shapeHint .rect
  let _ ← expect (.keyword (.clause .place)) "Expected \"at\" after rect" (some hint)
  let center ← pointWith nested "position" hint
  let width ← clauseWith nested (.keyword (.clause .width)) "width" hint
  let height ← clauseWith nested (.keyword (.clause .height)) "height" hint
  let color ← colorWith nested hint
  return .rect center width height color location

/-- What follows the word `line`. -/
def lineWith (nested : ParserOver σ Expr) (location : Location) : ParserOver σ Expr := do
  let hint := shapeHint .line
  let start ← pointWith nested "start position" hint
  let stop ← pointWith nested "end position" hint
  let color ← colorWith nested hint
  return .line start stop color location

/-- What follows the word `triangle`. -/
def triangleWith (nested : ParserOver σ Expr) (location : Location) : ParserOver σ Expr := do
  let hint := shapeHint .triangle
  let first ← pointWith nested "point" hint
  let second ← pointWith nested "point" hint
  let third ← pointWith nested "point" hint
  let color ← colorWith nested hint
  return .triangle [first, second, third] color location

/-- A shape or a primary. -/
def shapeWith (nested : ParserOver σ Expr) : ParserOver σ Expr := do
  let token := (← peek).token
  match token.kind with
  | .keyword (.shape word) =>
    let _ ← advance
    match word with
    | .circle => circleWith nested token.location
    | .rect => rectWith nested token.location
    | .line => lineWith nested token.location
    | .triangle => triangleWith nested token.location
  | _ => primaryWith nested

/-- A shape or a primary, and arguments if an opening parenthesis follows. -/
def callWith (nested : ParserOver σ Expr) : ParserOver σ Expr := do
  let callee ← shapeWith nested
  match ← accept (· = .leftParen) with
  | none => return callee
  | some _ =>
    let arguments ← separated nested
    let _ ← expect .rightParen "Expected ) after arguments" none
    return .call callee arguments callee.location

end

/-! ## Operators -/

/-- A parser for every number of levels up to a room. -/
abbrev UpTo (room : Nat) := (levels : Nat) → levels ≤ room → Parser Expr

/-- The parsers for all levels up to a smaller room. -/
def UpTo.restrict {room : Nat} (nested : UpTo room) {smaller : Nat} (h : smaller ≤ room) :
    UpTo smaller :=
  fun levels hl => nested levels (Nat.le_trans hl h)

/-- Operators and operands after a first operand. Each operator takes the expression so far as
    its left side and leaves one level less for all that follows. -/
def chainFrom (joins : Kind → Bool) : (room : Nat) → UpTo room → Expr → Parser Expr
  | 0, _, left => do
    match ← accept joins with
    | none => return left
    | some _ => tooDeep
  | room + 1, operand, left => do
    match ← accept joins with
    | none => return left
    | some operator =>
      let right ← operand room (Nat.le_succ room)
      chainFrom joins room (operand.restrict (Nat.le_succ room))
        (.binary operator.text left right operator.location)

/-- Operands joined by operators of one group, from left to right. -/
def chain (joins : Kind → Bool) (room : Nat) (operand : UpTo room) : Parser Expr := do
  chainFrom joins room operand (← operand room (Nat.le_refl room))

/-- Calls joined by multiplicative operators. -/
def productWith (room : Nat) (nested : UpTo room) : Parser Expr :=
  chain Kind.isMultiplicative room fun levels h => callWith (nested levels h)

/-- Products joined by additive operators. -/
def sumWith (room : Nat) (nested : UpTo room) : Parser Expr :=
  chain Kind.isAdditive room fun levels h => productWith levels (nested.restrict h)

/-- A sum, or two sums compared. A second comparison is left where it is. -/
def comparisonWith (room : Nat) (nested : UpTo room) : Parser Expr := do
  let left ← sumWith room nested
  match ← accept Kind.isComparison with
  | none => return left
  | some operator =>
    match room, nested with
    | 0, _ => tooDeep
    | below + 1, nested =>
      let right ← sumWith below (nested.restrict (Nat.le_succ below))
      return .binary operator.text left right operator.location

/-! ## Expressions -/

/-- An expression with the given levels of nesting left. -/
def expression (room : Nat) : Parser Expr :=
  match room with
  | 0 => tooDeep
  | below + 1 => comparisonWith below fun levels _ => expression levels
termination_by room

/-- The expressions for all levels up to a room. -/
def expressions (room : Nat) : UpTo room := fun levels _ => expression levels

/-- A comparison at a room. -/
def comparison (room : Nat) : Parser Expr := comparisonWith room (expressions room)

/-- A sum at a room. -/
def sum (room : Nat) : Parser Expr := sumWith room (expressions room)

/-- A product at a room. -/
def product (room : Nat) : Parser Expr := productWith room (expressions room)

/-- A call at a room. -/
def call (room : Nat) : Parser Expr := callWith (expression room)

/-- A shape at a room. -/
def shape (room : Nat) : Parser Expr := shapeWith (expression room)

/-- A point at a room. -/
def point (room : Nat) (what hint : String) : Parser (Point Expr) :=
  pointWith (expression room) what hint

/-- A clause of a shape at a room. -/
def clause (room : Nat) (kind : Kind) (keyword hint : String) : Parser Expr :=
  clauseWith (expression room) kind keyword hint

/-- A primary at a room. -/
def primary (room : Nat) : Parser Expr := primaryWith (expression room)

end Storyboard.Parse
