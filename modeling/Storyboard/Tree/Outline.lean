/-
  Storyboard.Tree.Outline

  Outlines: a tree as plain records, for tools that read record files. A node is
  a record of its kind, its line and column, and then its parts; a point has no
  kind and no place. The text of an outline is indented by two spaces a level
  and holds ASCII characters only.
-/
import Storyboard.Number.Written
import Storyboard.Text.Quoted
import Storyboard.Tree

namespace Storyboard

/-- Plain data: what a record file can hold. -/
inductive Outline where
  | null
  | integer (value : Int)
  | number (value : Binary64)
  | text (value : String)
  | list (items : List Outline)
  | record (fields : List (String × Outline))
  deriving Inhabited

namespace Outline

/-! ## Text of an outline -/

/-- A line break and the indentation of a level. -/
def lineBreak (level : Nat) : String := "\n" ++ Text.copies level "  "

/-- Pieces between brackets, each on a line of its own, one level deeper than the brackets. -/
def bracketed (opening closing : String) (level : Nat) (pieces : List String) : String :=
  if pieces.isEmpty then opening ++ closing
  else
    opening ++ lineBreak (level + 1) ++ ("," ++ lineBreak (level + 1)).intercalate pieces ++
      lineBreak level ++ closing

mutual

/-- The text of an outline that stands at the given level. -/
def renderAt (level : Nat) : Outline → String
  | .null => "null"
  | .integer value => toString value
  | .number value => value.inRecord
  | .text value => Text.literal value
  | .list items => bracketed "[" "]" level (renderItems (level + 1) items)
  | .record fields => bracketed "\x7b" "\x7d" level (renderFields (level + 1) fields)
termination_by structural outline => outline

/-- The texts of several outlines at one level. -/
def renderItems (level : Nat) : List Outline → List String
  | [] => []
  | item :: others => renderAt level item :: renderItems level others
termination_by structural items => items

/-- The texts of several fields at one level. -/
def renderFields (level : Nat) : List (String × Outline) → List String
  | [] => []
  | (name, value) :: others =>
    (Text.literal name ++ ": " ++ renderAt level value) :: renderFields level others
termination_by structural fields => fields

end

/-- The text of an outline. -/
def render (outline : Outline) : String := renderAt 0 outline

/-- Sets a field of a record: in the place of one that has its name, or at the end. -/
def setField (name : String) (value : Outline) :
    List (String × Outline) → List (String × Outline)
  | [] => [(name, value)]
  | (other, old) :: others =>
    if other = name then (name, value) :: others else (other, old) :: setField name value others

/-- A node: its kind and its place, and then its parts, set one after the other. -/
def node (kind : String) (location : Location) (parts : List (String × Outline)) : Outline :=
  .record (parts.foldl (fun fields part => setField part.1 part.2 fields)
    [("kind", .text kind), ("line", .integer location.line), ("column", .integer location.column)])

/-- A point: its two coordinates. -/
def point (x y : Outline) : Outline := .record [("x", x), ("y", y)]

/-- A foreign value: its type, and its place if it has one. -/
def foreign (value : Foreign) : Outline :=
  match value.location with
  | some location => node value.typeName location []
  | none => .record [("kind", .text value.typeName)]

end Outline

/-! ## Outline of a tree -/

/-- The outline of a name where a node belongs. -/
def Identifier.outline (id : Identifier) : Outline :=
  .node "Identifier" id.location [("name", .text id.name)]

mutual

/-- The outline of an expression. -/
def Expr.outline : Expr → Outline
  | .identifier id => id.outline
  | .number value place => .node "NumberLiteral" place [("value", .number value)]
  | .string value place => .node "StringLiteral" place [("value", .text value)]
  | .color value place => .node "ColorLiteral" place [("value", .text value)]
  | .binary operator left right place =>
    .node "BinaryExpression" place
      [("operator", .text operator), ("left", left.outline), ("right", right.outline)]
  | .call callee arguments place =>
    .node "CallExpression" place
      [("callee", callee.outline), ("arguments", .list (Expr.outlines arguments))]
  | .circle ⟨x, y⟩ size fill place =>
    .node "Circle" place
      [("position", .point x.outline y.outline), ("size", size.outline),
        ("color", fill.outline)]
  | .rect ⟨x, y⟩ width height fill place =>
    .node "Rect" place
      [("position", .point x.outline y.outline), ("width", width.outline),
        ("height", height.outline), ("color", fill.outline)]
  | .line ⟨x₁, y₁⟩ ⟨x₂, y₂⟩ fill place =>
    .node "Line" place
      [("start", .point x₁.outline y₁.outline), ("end", .point x₂.outline y₂.outline),
        ("color", fill.outline)]
  | .triangle corners fill place =>
    .node "Triangle" place
      [("points", .list (Expr.pointOutlines corners)), ("color", fill.outline)]
  | .foreign value => .foreign value
termination_by structural e => e

/-- The outlines of several expressions. -/
def Expr.outlines : List Expr → List Outline
  | [] => []
  | e :: others => e.outline :: Expr.outlines others
termination_by structural es => es

/-- The outlines of several points. -/
def Expr.pointOutlines : List (Point Expr) → List Outline
  | [] => []
  | ⟨x, y⟩ :: others => .point x.outline y.outline :: Expr.pointOutlines others
termination_by structural points => points

end

/-- The word for a direction. -/
def Direction.word : Direction → String
  | .up => "up"
  | .down => "down"
  | .left => "left"
  | .right => "right"

/-- The outline of an animation command. -/
def Command.outline : Command → Outline
  | .move amount direction place =>
    .node "Move" place [("amount", amount.outline), ("direction", .text direction.word)]
  | .rotate angle place => .node "Rotate" place [("angle", angle.outline)]
  | .scale factor place => .node "Scale" place [("factor", factor.outline)]
  | .fade amount place => .node "Fade" place [("amount", amount.outline)]
  | .foreign value => .foreign value

mutual

/-- The outline of a statement. -/
def Stmt.outline : Stmt → Outline
  | .binding name value place =>
    .node "LetStatement" place [("name", name.outline), ("value", value.outline)]
  | .function name parameters body place =>
    .node "FunctionDeclaration" place
      [("name", name.outline), ("params", .list (parameters.map Identifier.outline)),
        ("body", .list (Stmt.outlines body))]
  | .giveBack none place => .node "ReturnStatement" place [("value", .null)]
  | .giveBack (some value) place => .node "ReturnStatement" place [("value", value.outline)]
  | .branch condition thenBody none place =>
    .node "IfStatement" place
      [("condition", condition.outline), ("then_branch", .list (Stmt.outlines thenBody)),
        ("else_branch", .null)]
  | .branch condition thenBody (some elseBody) place =>
    .node "IfStatement" place
      [("condition", condition.outline), ("then_branch", .list (Stmt.outlines thenBody)),
        ("else_branch", .list (Stmt.outlines elseBody))]
  | .loop times body place =>
    .node "RepeatStatement" place
      [("times", times.outline), ("body", .list (Stmt.outlines body))]
  | .animation commands place =>
    .node "AnimateBlock" place [("commands", .list (commands.map Command.outline))]
  | .scene name body place =>
    .node "SceneBlock" place [("name", .text name), ("body", .list (Stmt.outlines body))]
  | .expression value place => .node "ExpressionStatement" place [("expression", value.outline)]
  | .foreign value => .foreign value
termination_by structural s => s

/-- The outlines of several statements. -/
def Stmt.outlines : List Stmt → List Outline
  | [] => []
  | s :: others => s.outline :: Stmt.outlines others
termination_by structural ss => ss

end

/-- The outline of a program. -/
def Program.outline (program : Program) : Outline :=
  .node "Program" program.location [("body", .list (Stmt.outlines program.body))]

end Storyboard
