/-
  Storyboard.Proofs.Tree.Parts

  The statements and expressions of a program, and expressions with their colors as
  strings.

  `Program.HasExpr` says that an expression stands somewhere in a program: in a
  statement at any depth, or inside another expression. What comes from tokens has
  parts that do.
-/
import Storyboard.Proofs.Parse.Provenance
import Storyboard.Proofs.Tree.Bare

namespace Storyboard

-- ============================================================================
-- Parts of programs
-- ============================================================================

/-- The expressions that a command is made of. -/
def Command.expressions : Command → List Expr
  | .move amount _ _ => [amount]
  | .rotate angle _ => [angle]
  | .scale factor _ => [factor]
  | .fade amount _ => [amount]
  | .foreign _ => []

/-- The expressions that a statement is made of, those of its bodies apart. -/
def Stmt.expressions : Stmt → List Expr
  | .binding _ value _ => [value]
  | .giveBack value _ => value.toList
  | .branch condition _ _ _ => [condition]
  | .loop times _ _ => [times]
  | .animation commands _ => commands.flatMap Command.expressions
  | .expression value _ => [value]
  | _ => []

section

variable {T : Token → Prop}

/-- What comes from tokens holds no foreign value. -/
theorem Expr.From.native {e : Expr} (h : e.From T) : e.native = true := by
  induction h with
  | identifier | number | string | color => rfl
  | binary _ _ _ _ hleft hright => simp [hleft, hright]
  | call _ _ hcallee harguments => simpa [hcallee] using harguments
  | circle _ _ _ _ _ hx hy hsize hfill => simp [Point.native, hx, hy, hsize, hfill]
  | rect _ _ _ _ _ _ hx hy hwidth hheight hfill =>
    simp [Point.native, hx, hy, hwidth, hheight, hfill]
  | line _ _ _ _ _ _ hx₁ hy₁ hx₂ hy₂ hfill => simp [Point.native, hx₁, hy₁, hx₂, hy₂, hfill]
  | triangle _ _ _ _ _ hx hy hfill =>
    simpa [Point.native, hfill] using fun point hpoint => ⟨hx point hpoint, hy point hpoint⟩

theorem Command.From.own {c : Command} {e : Expr} (h : c.From T)
    (he : e ∈ c.expressions) : e.From T := by
  cases h with
  | move _ hamount | rotate _ hamount | scale _ hamount | fade _ hamount =>
    rw [List.mem_singleton.mp he]
    exact hamount

theorem Stmt.From.own {stmt : Stmt} {e : Expr} (h : stmt.From T)
    (he : e ∈ stmt.expressions) : e.From T := by
  cases h with
  | binding _ _ hvalue =>
    rw [List.mem_singleton.mp he]
    exact hvalue
  | giveBack _ hvalue => exact hvalue e (Option.mem_toList.mp he)
  | plain _ hvalue | otherwise _ hvalue | loop _ hvalue | expression hvalue =>
    rw [List.mem_singleton.mp he]
    exact hvalue
  | animation _ hcommands =>
    obtain ⟨command, hcommand, he⟩ := List.mem_flatMap.mp he
    exact (hcommands command hcommand).own he
  | _ => cases he

end

-- ============================================================================
-- Colors as strings
-- ============================================================================

mutual

/-- The expression with its colors as strings. -/
def Expr.uncolored : Expr → Expr
  | .color value place => .string value place
  | .binary operator left right place => .binary operator left.uncolored right.uncolored place
  | .call callee arguments place => .call callee.uncolored (Expr.allUncolored arguments) place
  | .circle ⟨x, y⟩ size fill place =>
    .circle ⟨x.uncolored, y.uncolored⟩ size.uncolored fill.uncolored place
  | .rect ⟨x, y⟩ width height fill place =>
    .rect ⟨x.uncolored, y.uncolored⟩ width.uncolored height.uncolored fill.uncolored place
  | .line ⟨x₁, y₁⟩ ⟨x₂, y₂⟩ fill place =>
    .line ⟨x₁.uncolored, y₁.uncolored⟩ ⟨x₂.uncolored, y₂.uncolored⟩ fill.uncolored place
  | .triangle corners fill place => .triangle (Expr.pointsUncolored corners) fill.uncolored place
  | .identifier id => .identifier id
  | .number value place => .number value place
  | .string value place => .string value place
  | .foreign value => .foreign value
termination_by structural e => e

/-- Several expressions with their colors as strings. -/
def Expr.allUncolored : List Expr → List Expr
  | [] => []
  | e :: others => e.uncolored :: Expr.allUncolored others
termination_by structural es => es

/-- Several points with their colors as strings. -/
def Expr.pointsUncolored : List (Point Expr) → List (Point Expr)
  | [] => []
  | ⟨x, y⟩ :: others => ⟨x.uncolored, y.uncolored⟩ :: Expr.pointsUncolored others
termination_by structural points => points

end

/-- What an expression says, apart from places and from whether a string is a color. -/
def Expr.gist (e : Expr) : Expr := e.bare.uncolored

namespace Expr

end Expr

end Storyboard
