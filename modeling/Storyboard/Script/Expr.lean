/-
  Storyboard.Script.Expr

  Expressions of a script. A shape becomes a function that is called on the spot;
  it spans several lines, so the text of an expression depends on the indentation
  at which it stands. What a shape computes first is written one level deeper.

  A foreign value has no text.
-/
import Storyboard.Number.Written
import Storyboard.Script.Name
import Storyboard.Text.Quoted
import Storyboard.Tree

namespace Storyboard.Script

/-- The blanks before a line; there are none for a negative indentation. -/
def margin (indent : Int) : String := Text.copies indent.toNat "  "

/-- A function called on the spot, its lines one level deeper than where it stands. -/
def calledOnce (indent : Int) (body : List String) : String :=
  "(function() \x7b\n" ++
    "".intercalate (body.map fun line => margin (indent + 1) ++ line ++ "\n") ++
    margin indent ++ "\x7d)()"

/-- The declaration of a constant. -/
def constant (name value : String) : String := "const " ++ name ++ " = " ++ value ++ ";"

/-- The declarations of the coordinates of numbered points, counted from `first`. -/
def pointConstants (first : Nat) : List (Point String) → List String
  | [] => []
  | ⟨x, y⟩ :: others =>
    constant s!"__x{first}" x :: constant s!"__y{first}" y :: pointConstants (first + 1) others

/-- The lines of a circle. -/
def circleLines (center : Point String) (size fill : String) : List String :=
  ["ctx.save();",
   constant "__x" center.x,
   constant "__y" center.y,
   constant "__size" size,
   constant "__color" fill,
   "applyTransform(__x, __y);",
   "ctx.beginPath();",
   "ctx.arc(0, 0, __size, 0, Math.PI * 2);",
   "ctx.fillStyle = __color;",
   "ctx.fill();",
   "ctx.restore();"]

/-- The lines of a rectangle around its center. -/
def rectLines (center : Point String) (width height fill : String) : List String :=
  ["ctx.save();",
   constant "__x" center.x,
   constant "__y" center.y,
   constant "__w" width,
   constant "__h" height,
   constant "__color" fill,
   "applyTransform(__x, __y);",
   "ctx.fillStyle = __color;",
   "ctx.fillRect(-__w / 2, -__h / 2, __w, __h);",
   "ctx.restore();"]

/-- The lines of a line between two points. -/
def lineLines (start stop : Point String) (fill : String) : List String :=
  "ctx.save();" :: pointConstants 1 [start, stop] ++
    [constant "__color" fill,
     "applyTransform(0, 0);",
     "ctx.strokeStyle = __color;",
     "ctx.beginPath();",
     "ctx.moveTo(__x1, __y1);",
     "ctx.lineTo(__x2, __y2);",
     "ctx.stroke();",
     "ctx.restore();"]

/-- The path through a number of points: it moves to the first and draws to the others. -/
def path (count : Nat) : List String :=
  (List.range count).map fun i =>
    "ctx." ++ (if i = 0 then "moveTo" else "lineTo") ++ s!"(__x{i + 1}, __y{i + 1});"

/-- The lines of a filled shape with the given corners. -/
def triangleLines (corners : List (Point String)) (fill : String) : List String :=
  "ctx.save();" :: pointConstants 1 corners ++
    [constant "__color" fill,
     "applyTransform(0, 0);",
     "ctx.fillStyle = __color;",
     "ctx.beginPath();"] ++
    path corners.length ++
    ["ctx.closePath();",
     "ctx.fill();",
     "ctx.restore();"]

end Storyboard.Script

namespace Storyboard

open Script

mutual

/-- The text of an expression that stands at the given indentation. -/
def Expr.script (indent : Int) : Expr → Except Foreign String
  | .identifier id => pure (userName id.name)
  | .number value _ => pure value.inScript
  | .string value _ => pure (Text.literal value)
  | .color value _ => pure (Text.literal value)
  | .binary operator left right _ => do
    let l ← left.script indent
    let r ← right.script indent
    return "(" ++ l ++ " " ++ operator ++ " " ++ r ++ ")"
  | .call callee arguments _ => do
    let f ← callee.script indent
    let values ← Expr.scripts indent arguments
    return f ++ "(" ++ ", ".intercalate values ++ ")"
  | .circle ⟨x, y⟩ size fill _ => do
    let x ← x.script (indent + 1)
    let y ← y.script (indent + 1)
    let size ← size.script (indent + 1)
    let fill ← fill.script (indent + 1)
    return calledOnce indent (circleLines ⟨x, y⟩ size fill)
  | .rect ⟨x, y⟩ width height fill _ => do
    let x ← x.script (indent + 1)
    let y ← y.script (indent + 1)
    let width ← width.script (indent + 1)
    let height ← height.script (indent + 1)
    let fill ← fill.script (indent + 1)
    return calledOnce indent (rectLines ⟨x, y⟩ width height fill)
  | .line ⟨x₁, y₁⟩ ⟨x₂, y₂⟩ fill _ => do
    let x₁ ← x₁.script (indent + 1)
    let y₁ ← y₁.script (indent + 1)
    let x₂ ← x₂.script (indent + 1)
    let y₂ ← y₂.script (indent + 1)
    let fill ← fill.script (indent + 1)
    return calledOnce indent (lineLines ⟨x₁, y₁⟩ ⟨x₂, y₂⟩ fill)
  | .triangle corners fill _ => do
    let points ← Expr.pointScripts (indent + 1) corners
    let fill ← fill.script (indent + 1)
    return calledOnce indent (triangleLines points fill)
  | .foreign value => throw value
termination_by structural e => e

/-- The texts of several expressions. -/
def Expr.scripts (indent : Int) : List Expr → Except Foreign (List String)
  | [] => pure []
  | e :: others => do
    let text ← e.script indent
    let texts ← Expr.scripts indent others
    return text :: texts
termination_by structural es => es

/-- The texts of the coordinates of several points. -/
def Expr.pointScripts (indent : Int) : List (Point Expr) → Except Foreign (List (Point String))
  | [] => pure []
  | ⟨x, y⟩ :: others => do
    let x ← x.script indent
    let y ← y.script indent
    let texts ← Expr.pointScripts indent others
    return ⟨x, y⟩ :: texts
termination_by structural points => points

end

end Storyboard
