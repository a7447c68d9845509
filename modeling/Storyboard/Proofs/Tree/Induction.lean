/-
  Storyboard.Proofs.Tree.Induction

  Induction on trees. Expressions hold lists of expressions and of points, and
  statements hold lists of statements, so their own recursors speak of those
  lists too. The two principles here speak of trees only: a list gives one
  hypothesis for each of its members, and a point one for each coordinate.
-/
import Storyboard.Tree

namespace Storyboard

/-- Induction on expressions. -/
theorem Expr.induction {motive : Expr → Prop}
    (identifier : ∀ id, motive (.identifier id))
    (number : ∀ value place, motive (.number value place))
    (string : ∀ value place, motive (.string value place))
    (color : ∀ value place, motive (.color value place))
    (binary : ∀ operator left right place, motive left → motive right →
      motive (.binary operator left right place))
    (call : ∀ callee arguments place, motive callee → (∀ e ∈ arguments, motive e) →
      motive (.call callee arguments place))
    (circle : ∀ x y size fill place, motive x → motive y → motive size → motive fill →
      motive (.circle ⟨x, y⟩ size fill place))
    (rect : ∀ x y width height fill place, motive x → motive y → motive width → motive height →
      motive fill → motive (.rect ⟨x, y⟩ width height fill place))
    (line : ∀ x₁ y₁ x₂ y₂ fill place, motive x₁ → motive y₁ → motive x₂ → motive y₂ →
      motive fill → motive (.line ⟨x₁, y₁⟩ ⟨x₂, y₂⟩ fill place))
    (triangle : ∀ corners fill place, (∀ point ∈ corners, motive point.x ∧ motive point.y) →
      motive fill → motive (.triangle corners fill place))
    (foreign : ∀ value, motive (.foreign value)) (e : Expr) : motive e := by
  refine @Expr.rec motive (fun es => ∀ e ∈ es, motive e)
    (fun point => motive point.x ∧ motive point.y)
    (fun points => ∀ point ∈ points, motive point.x ∧ motive point.y)
    identifier number string color binary call ?_ ?_ ?_ triangle foreign ?_ ?_ ?_ ?_ ?_ e
  · rintro ⟨x, y⟩ size fill place ⟨hx, hy⟩ hsize hfill
    exact circle x y size fill place hx hy hsize hfill
  · rintro ⟨x, y⟩ width height fill place ⟨hx, hy⟩ hwidth hheight hfill
    exact rect x y width height fill place hx hy hwidth hheight hfill
  · rintro ⟨x₁, y₁⟩ ⟨x₂, y₂⟩ fill place ⟨hx₁, hy₁⟩ ⟨hx₂, hy₂⟩ hfill
    exact line x₁ y₁ x₂ y₂ fill place hx₁ hy₁ hx₂ hy₂ hfill
  · simp
  · intro e others he hothers
    exact List.forall_mem_cons.mpr ⟨he, hothers⟩
  · intro x y hx hy
    exact ⟨hx, hy⟩
  · simp
  · intro point others hpoint hothers
    exact List.forall_mem_cons.mpr ⟨hpoint, hothers⟩

/-- Induction on statements. -/
theorem Stmt.induction {motive : Stmt → Prop}
    (binding : ∀ name value place, motive (.binding name value place))
    (function : ∀ name parameters body place, (∀ stmt ∈ body, motive stmt) →
      motive (.function name parameters body place))
    (giveBack : ∀ value place, motive (.giveBack value place))
    (plain : ∀ condition thenBody place, (∀ stmt ∈ thenBody, motive stmt) →
      motive (.branch condition thenBody none place))
    (otherwise : ∀ condition thenBody elseBody place, (∀ stmt ∈ thenBody, motive stmt) →
      (∀ stmt ∈ elseBody, motive stmt) → motive (.branch condition thenBody (some elseBody) place))
    (loop : ∀ times body place, (∀ stmt ∈ body, motive stmt) → motive (.loop times body place))
    (animation : ∀ commands place, motive (.animation commands place))
    (scene : ∀ name body place, (∀ stmt ∈ body, motive stmt) → motive (.scene name body place))
    (expression : ∀ value place, motive (.expression value place))
    (foreign : ∀ value, motive (.foreign value)) (stmt : Stmt) : motive stmt := by
  refine @Stmt.rec motive (fun body => ∀ stmt ∈ body, motive stmt)
    (fun body? => ∀ body, body? = some body → ∀ stmt ∈ body, motive stmt)
    binding function giveBack ?_ loop animation scene expression foreign ?_ ?_ ?_ ?_ stmt
  · intro condition thenBody elseBody place hthen helse
    cases elseBody with
    | none => exact plain condition thenBody place hthen
    | some elseBody =>
      exact otherwise condition thenBody elseBody place hthen (helse elseBody rfl)
  · simp
  · intro stmt others hstmt hothers
    exact List.forall_mem_cons.mpr ⟨hstmt, hothers⟩
  · simp
  · intro body hbody _ heq
    cases heq
    exact hbody

end Storyboard
