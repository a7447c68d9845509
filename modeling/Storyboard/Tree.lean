/-
  Storyboard.Tree

  Trees of the drawing language: expressions (shapes are expressions), animation
  commands, statements and programs. Every node knows the place it came from.

  A tree made by hand may hold, where an expression, a command or a statement
  belongs, a value that is none: it is kept as a `Foreign` value, of which only
  the name of its type and its place are known. The parser never makes one, and
  the later stages refuse it.
-/
import Storyboard.Number.Binary64
import Storyboard.Token

namespace Storyboard

/-- A value that has no meaning where it stands. -/
structure Foreign where
  typeName : String
  location : Option Location
  deriving DecidableEq, Inhabited

/-- A name and the place where it stands. -/
structure Identifier where
  name : String
  location : Location
  deriving DecidableEq, Inhabited

/-- A point of the plane, given by two of whatever stands for numbers. -/
structure Point (α : Type) where
  x : α
  y : α
  deriving DecidableEq, Inhabited

/-- Expressions. -/
inductive Expr where
  | identifier (id : Identifier)
  | number (value : Binary64) (location : Location)
  | string (value : String) (location : Location)
  | color (value : String) (location : Location)
  | binary (operator : String) (left right : Expr) (location : Location)
  | call (callee : Expr) (arguments : List Expr) (location : Location)
  | circle (center : Point Expr) (size color : Expr) (location : Location)
  | rect (center : Point Expr) (width height color : Expr) (location : Location)
  | line (start stop : Point Expr) (color : Expr) (location : Location)
  | triangle (corners : List (Point Expr)) (color : Expr) (location : Location)
  | foreign (value : Foreign)
  deriving Inhabited

/-- Animation commands: what changes in every frame. -/
inductive Command where
  | move (amount : Expr) (direction : Direction) (location : Location)
  | rotate (angle : Expr) (location : Location)
  | scale (factor : Expr) (location : Location)
  | fade (amount : Expr) (location : Location)
  | foreign (value : Foreign)
  deriving Inhabited

/-- Statements. -/
inductive Stmt where
  | binding (name : Identifier) (value : Expr) (location : Location)
  | function (name : Identifier) (parameters : List Identifier) (body : List Stmt)
      (location : Location)
  | giveBack (value : Option Expr) (location : Location)
  | branch (condition : Expr) (thenBody : List Stmt) (elseBody : Option (List Stmt))
      (location : Location)
  | loop (times : Expr) (body : List Stmt) (location : Location)
  | animation (commands : List Command) (location : Location)
  | scene (name : String) (body : List Stmt) (location : Location)
  | expression (value : Expr) (location : Location)
  | foreign (value : Foreign)
  deriving Inhabited

/-- A program is a list of statements. -/
structure Program where
  body : List Stmt
  location : Location
  deriving Inhabited

namespace Expr

/-- The place of an expression; a foreign value without a place counts as standing at the start. -/
def location : Expr → Location
  | .identifier id => id.location
  | .number _ place => place
  | .string _ place => place
  | .color _ place => place
  | .binary _ _ _ place => place
  | .call _ _ place => place
  | .circle _ _ _ place => place
  | .rect _ _ _ _ place => place
  | .line _ _ _ place => place
  | .triangle _ _ place => place
  | .foreign value => value.location.getD .start

end Expr

end Storyboard
