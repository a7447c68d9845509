/-
  Storyboard.Token

  Tokens: the words of the drawing language. A token has a kind, a text and the
  place where it starts. Keywords are grouped by what they begin or say, so that
  the parser can ask for a whole group at once.
-/
import Storyboard.Source.Location
import Storyboard.Text.Quoted

namespace Storyboard

/-! ## Keywords -/

/-- Keywords that open a statement. -/
inductive StatementWord where
  | letWord
  | fnWord
  | returnWord
  | ifWord
  | repeatWord
  | animateWord
  | sceneWord
  deriving DecidableEq, Inhabited

/-- Keywords that open a shape. -/
inductive ShapeWord where
  | circle
  | rect
  | line
  | triangle
  deriving DecidableEq, Inhabited

/-- Keywords that open an animation command. -/
inductive CommandWord where
  | move
  | rotate
  | scale
  | fade
  deriving DecidableEq, Inhabited

/-- Where a `move` command goes. -/
inductive Direction where
  | up
  | down
  | left
  | right
  deriving DecidableEq, Inhabited

/-- Keywords inside a shape: its place, its sizes and its colour. -/
inductive ClauseWord where
  | place
  | size
  | width
  | height
  | color
  | speed
  deriving DecidableEq, Inhabited

/-- All keywords. -/
inductive Keyword where
  | statement (word : StatementWord)
  | otherwise
  | shape (word : ShapeWord)
  | command (word : CommandWord)
  | direction (direction : Direction)
  | clause (word : ClauseWord)
  deriving DecidableEq, Inhabited

/-! ## Operators -/

/-- Operators that compare two sums. -/
inductive Comparison where
  | equal
  | notEqual
  | less
  | greater
  | lessEqual
  | greaterEqual
  deriving DecidableEq, Inhabited

/-- Operators between the terms of a sum. -/
inductive Additive where
  | plus
  | minus
  deriving DecidableEq, Inhabited

/-- Operators between the factors of a term. -/
inductive Multiplicative where
  | times
  | divide
  | modulo
  deriving DecidableEq, Inhabited

/-! ## Kinds -/

/-- What a token is. -/
inductive Kind where
  | number
  | string
  | color
  | identifier
  | keyword (word : Keyword)
  | comparison (operator : Comparison)
  | additive (operator : Additive)
  | multiplicative (operator : Multiplicative)
  | assign
  | leftParen
  | rightParen
  | leftBrace
  | rightBrace
  | comma
  | dot
  | newline
  | endOfInput
  | illegal
  deriving DecidableEq, Inhabited

namespace Keyword

/-- Each keyword with its spelling in lower case. -/
def spellings : List (String × Keyword) :=
  [("let", .statement .letWord), ("fn", .statement .fnWord), ("return", .statement .returnWord),
   ("if", .statement .ifWord), ("else", .otherwise), ("repeat", .statement .repeatWord),
   ("animate", .statement .animateWord), ("scene", .statement .sceneWord),
   ("circle", .shape .circle), ("rect", .shape .rect), ("line", .shape .line),
   ("triangle", .shape .triangle),
   ("move", .command .move), ("rotate", .command .rotate), ("scale", .command .scale),
   ("fade", .command .fade),
   ("up", .direction .up), ("down", .direction .down), ("left", .direction .left),
   ("right", .direction .right),
   ("at", .clause .place), ("size", .clause .size), ("width", .clause .width),
   ("height", .clause .height), ("color", .clause .color), ("speed", .clause .speed)]

/-- The keyword that a word spells, in whatever case of letters. Words are ASCII. -/
def ofWord? (word : List Char) : Option Keyword :=
  spellings.lookup (String.ofList (word.map Char.toLower))

end Keyword

namespace Kind

/-- A word is a keyword or an identifier. -/
def ofWord (word : List Char) : Kind :=
  match Keyword.ofWord? word with
  | some found => .keyword found
  | none => .identifier

/-- The operators of two characters. -/
def ofPair? : Char → Char → Option Kind
  | '=', '=' => some (.comparison .equal)
  | '!', '=' => some (.comparison .notEqual)
  | '<', '=' => some (.comparison .lessEqual)
  | '>', '=' => some (.comparison .greaterEqual)
  | _, _ => none

/-- The operators and marks of one character; any other character is illegal. -/
def ofChar : Char → Kind
  | '+' => .additive .plus
  | '-' => .additive .minus
  | '*' => .multiplicative .times
  | '/' => .multiplicative .divide
  | '%' => .multiplicative .modulo
  | '=' => .assign
  | '<' => .comparison .less
  | '>' => .comparison .greater
  | '(' => .leftParen
  | ')' => .rightParen
  | '\x7b' => .leftBrace
  | '\x7d' => .rightBrace
  | ',' => .comma
  | '.' => .dot
  | _ => .illegal

/-- Whether a token of this kind opens a statement that begins with a keyword. -/
def opensStatement : Kind → Bool
  | .keyword (.statement _) => true
  | _ => false

/-- Whether a token of this kind compares two sums. -/
def isComparison : Kind → Bool
  | .comparison _ => true
  | _ => false

/-- Whether a token of this kind joins terms. -/
def isAdditive : Kind → Bool
  | .additive _ => true
  | _ => false

/-- Whether a token of this kind joins factors. -/
def isMultiplicative : Kind → Bool
  | .multiplicative _ => true
  | _ => false

/-- Each kind with its label, the name that listings of tokens give it. -/
def labels : List (Kind × String) :=
  [(.number, "NUMBER"), (.string, "STRING"), (.color, "COLOR"), (.identifier, "IDENTIFIER"),
   (.keyword (.statement .letWord), "LET"), (.keyword (.statement .fnWord), "FN"),
   (.keyword (.statement .returnWord), "RETURN"), (.keyword (.statement .ifWord), "IF"),
   (.keyword .otherwise, "ELSE"), (.keyword (.statement .repeatWord), "REPEAT"),
   (.keyword (.statement .animateWord), "ANIMATE"), (.keyword (.statement .sceneWord), "SCENE"),
   (.keyword (.shape .circle), "CIRCLE"), (.keyword (.shape .rect), "RECT"),
   (.keyword (.shape .line), "LINE"), (.keyword (.shape .triangle), "TRIANGLE"),
   (.keyword (.command .move), "MOVE"), (.keyword (.command .rotate), "ROTATE"),
   (.keyword (.command .scale), "SCALE"), (.keyword (.command .fade), "FADE"),
   (.keyword (.direction .up), "UP"), (.keyword (.direction .down), "DOWN"),
   (.keyword (.direction .left), "LEFT"), (.keyword (.direction .right), "RIGHT"),
   (.keyword (.clause .place), "AT"), (.keyword (.clause .size), "SIZE"),
   (.keyword (.clause .width), "WIDTH"), (.keyword (.clause .height), "HEIGHT"),
   (.keyword (.clause .color), "COLOR_PROP"), (.keyword (.clause .speed), "SPEED"),
   (.additive .plus, "PLUS"), (.additive .minus, "MINUS"),
   (.multiplicative .times, "MULTIPLY"), (.multiplicative .divide, "DIVIDE"),
   (.multiplicative .modulo, "MODULO"), (.assign, "ASSIGN"),
   (.comparison .equal, "EQUAL"), (.comparison .notEqual, "NOT_EQUAL"),
   (.comparison .less, "LESS_THAN"), (.comparison .greater, "GREATER_THAN"),
   (.comparison .lessEqual, "LESS_EQUAL"), (.comparison .greaterEqual, "GREATER_EQUAL"),
   (.leftParen, "LPAREN"), (.rightParen, "RPAREN"), (.leftBrace, "LBRACE"),
   (.rightBrace, "RBRACE"), (.comma, "COMMA"), (.dot, "DOT"), (.newline, "NEWLINE"),
   (.endOfInput, "EOF"), (.illegal, "ILLEGAL")]

/-- The label of a kind. -/
def label (kind : Kind) : String := (labels.lookup kind).getD ""

/-- The kind of a label. -/
def ofLabel? (label : String) : Option Kind :=
  (labels.find? fun entry => entry.2 = label).map Prod.fst

end Kind

/-- A token of a source text. The text of a string token is what stands between its quotes. -/
structure Token where
  kind : Kind
  text : String
  location : Location
  deriving DecidableEq, Inhabited

namespace Token

/-- The token as it stands in a listing. -/
def describe (token : Token) : String :=
  "Token(" ++ token.kind.label ++ ", " ++ Text.quoted token.text ++ ")"

end Token

end Storyboard
