/-
  Storyboard.Proofs.Script.Shapes

  What the text of an expression is made of: the texts of its parts, for binary
  expressions and calls (`script_binary_eq_ok`, `script_call_eq_ok`) as for shapes.

  The four shapes are written alike: a function that saves the state, declares constants
  in order, draws, and restores the state. A `Figure` holds the names of the constants
  and the lines behind them, and `Expr.figure?` gives the figure of a shape and the
  values of its constants. So a proof about texts has one case for all shapes
  (`script_shape`), and so has an induction over the expressions of a text
  (`Expr.From.shapewise`).
-/
import Storyboard.Proofs.Parse.Provenance
import Storyboard.Script.Expr

namespace Storyboard

open Script

/-- What a bind does that has a result. -/
theorem Script.bind_eq_ok {ε α β : Type} {x : Except ε α} {f : α → Except ε β} {b : β}
    (h : x >>= f = .ok b) : ∃ a, x = .ok a ∧ f a = .ok b := by
  cases x with
  | error e => cases h
  | ok a => exact ⟨a, rfl, h⟩

/-- The figures that a script can draw. -/
inductive Figure where
  | circle
  | rect
  | line
  | triangle
  deriving DecidableEq

namespace Figure

/-- The constants that are declared before a figure is drawn. -/
def names : Figure → List String
  | circle => ["__x", "__y", "__size", "__color"]
  | rect => ["__x", "__y", "__w", "__h", "__color"]
  | line => ["__x1", "__y1", "__x2", "__y2", "__color"]
  | triangle => ["__x1", "__y1", "__x2", "__y2", "__x3", "__y3", "__color"]

/-- The lines that draw a figure. -/
def strokes : Figure → List String
  | circle =>
    ["applyTransform(__x, __y);", "ctx.beginPath();", "ctx.arc(0, 0, __size, 0, Math.PI * 2);",
     "ctx.fillStyle = __color;", "ctx.fill();"]
  | rect =>
    ["applyTransform(__x, __y);", "ctx.fillStyle = __color;",
     "ctx.fillRect(-__w / 2, -__h / 2, __w, __h);"]
  | line =>
    ["applyTransform(0, 0);", "ctx.strokeStyle = __color;", "ctx.beginPath();",
     "ctx.moveTo(__x1, __y1);", "ctx.lineTo(__x2, __y2);", "ctx.stroke();"]
  | triangle =>
    ["applyTransform(0, 0);", "ctx.fillStyle = __color;", "ctx.beginPath();",
     "ctx.moveTo(__x1, __y1);", "ctx.lineTo(__x2, __y2);", "ctx.lineTo(__x3, __y3);",
     "ctx.closePath();", "ctx.fill();"]

/-- The lines of a figure, given the texts of the constants. -/
def lines (figure : Figure) (texts : List String) : List String :=
  "ctx.save();" ::
    (List.zipWith constant figure.names texts ++ (figure.strokes ++ ["ctx.restore();"]))

end Figure

namespace Expr

/-- The figure of a shape and the values of the constants, if a triangle has three corners. -/
def figure? : Expr → Option (Figure × List Expr)
  | .circle center size fill _ => some (.circle, [center.x, center.y, size, fill])
  | .rect center width height fill _ => some (.rect, [center.x, center.y, width, height, fill])
  | .line start stop fill _ => some (.line, [start.x, start.y, stop.x, stop.y, fill])
  | .triangle [a, b, c] fill _ => some (.triangle, [a.x, a.y, b.x, b.y, c.x, c.y, fill])
  | _ => none

theorem length_names_of_figure? {e : Expr} {figure : Figure} {values : List Expr}
    (h : e.figure? = some (figure, values)) : figure.names.length = values.length := by
  unfold figure? at h
  split at h
  all_goals cases h
  all_goals rfl

-- ============================================================================
-- Texts of parts
-- ============================================================================

section Texts

variable {indent : Int} {text : String}

theorem script_binary_eq_ok {operator : String} {left right : Expr} {place : Location}
    (h : (Expr.binary operator left right place).script indent = .ok text) :
    ∃ l r, left.script indent = .ok l ∧ right.script indent = .ok r ∧
      text = "(" ++ l ++ " " ++ operator ++ " " ++ r ++ ")" := by
  rw [script] at h
  obtain ⟨l, hl, h⟩ := bind_eq_ok h
  obtain ⟨r, hr, h⟩ := bind_eq_ok h
  cases h
  exact ⟨l, r, hl, hr, rfl⟩

theorem script_call_eq_ok {callee : Expr} {arguments : List Expr} {place : Location}
    (h : (Expr.call callee arguments place).script indent = .ok text) :
    ∃ f values, callee.script indent = .ok f ∧ scripts indent arguments = .ok values ∧
      text = f ++ "(" ++ ", ".intercalate values ++ ")" := by
  rw [script] at h
  obtain ⟨f, hf, h⟩ := bind_eq_ok h
  obtain ⟨values, hvalues, h⟩ := bind_eq_ok h
  cases h
  exact ⟨f, values, hf, hvalues, rfl⟩

theorem scripts_cons_eq_ok {e : Expr} {es : List Expr} {texts : List String}
    (h : scripts indent (e :: es) = .ok texts) :
    ∃ text others, e.script indent = .ok text ∧ scripts indent es = .ok others ∧
      texts = text :: others := by
  rw [scripts] at h
  obtain ⟨text, htext, h⟩ := bind_eq_ok h
  obtain ⟨others, hothers, h⟩ := bind_eq_ok h
  cases h
  exact ⟨text, others, htext, hothers, rfl⟩

theorem pointScripts_cons_eq_ok {point : Point Expr} {points : List (Point Expr)}
    {texts : List (Point String)} (h : pointScripts indent (point :: points) = .ok texts) :
    ∃ x y others, point.x.script indent = .ok x ∧ point.y.script indent = .ok y ∧
      pointScripts indent points = .ok others ∧ texts = ⟨x, y⟩ :: others := by
  rw [pointScripts] at h
  obtain ⟨x, hx, h⟩ := bind_eq_ok h
  obtain ⟨y, hy, h⟩ := bind_eq_ok h
  obtain ⟨others, hothers, h⟩ := bind_eq_ok h
  cases h
  exact ⟨x, y, others, hx, hy, hothers, rfl⟩

/-- The lines of a triangle with three corners. -/
theorem triangleLines_eq_lines (x₁ y₁ x₂ y₂ x₃ y₃ fill : String) :
    triangleLines [⟨x₁, y₁⟩, ⟨x₂, y₂⟩, ⟨x₃, y₃⟩] fill =
      Figure.triangle.lines [x₁, y₁, x₂, y₂, x₃, y₃, fill] := by
  have hconstants : pointConstants 1 [⟨x₁, y₁⟩, ⟨x₂, y₂⟩, ⟨x₃, y₃⟩] =
      [constant "__x1" x₁, constant "__y1" y₁, constant "__x2" x₂, constant "__y2" y₂,
        constant "__x3" x₃, constant "__y3" y₃] := rfl
  have hpath : path 3 =
      ["ctx.moveTo(__x1, __y1);", "ctx.lineTo(__x2, __y2);", "ctx.lineTo(__x3, __y3);"] := by decide
  have hlength : [(⟨x₁, y₁⟩ : Point String), ⟨x₂, y₂⟩, ⟨x₃, y₃⟩].length = 3 := rfl
  rw [triangleLines, hconstants, hlength, hpath]
  rfl

/-- The text of a shape is its figure as a function that is called on the spot. -/
theorem script_shape {e : Expr} {figure : Figure} {values : List Expr}
    (hfigure : e.figure? = some (figure, values)) (h : e.script indent = .ok text) :
    ∃ texts, scripts (indent + 1) values = .ok texts ∧
      text = calledOnce indent (figure.lines texts) := by
  -- Each shape writes the values of its own constants in the order of their names.
  unfold figure? at hfigure
  split at hfigure
  · cases hfigure
    rw [script] at h
    obtain ⟨x, hx, h⟩ := bind_eq_ok h
    obtain ⟨y, hy, h⟩ := bind_eq_ok h
    obtain ⟨s, hs, h⟩ := bind_eq_ok h
    obtain ⟨f, hf, h⟩ := bind_eq_ok h
    cases h
    refine ⟨[x, y, s, f], ?_, rfl⟩
    simp only [scripts, hx, hy, hs, hf]
    rfl
  · cases hfigure
    rw [script] at h
    obtain ⟨x, hx, h⟩ := bind_eq_ok h
    obtain ⟨y, hy, h⟩ := bind_eq_ok h
    obtain ⟨w, hw, h⟩ := bind_eq_ok h
    obtain ⟨t, ht, h⟩ := bind_eq_ok h
    obtain ⟨f, hf, h⟩ := bind_eq_ok h
    cases h
    refine ⟨[x, y, w, t, f], ?_, rfl⟩
    simp only [scripts, hx, hy, hw, ht, hf]
    rfl
  · cases hfigure
    rw [script] at h
    obtain ⟨x₁, hx₁, h⟩ := bind_eq_ok h
    obtain ⟨y₁, hy₁, h⟩ := bind_eq_ok h
    obtain ⟨x₂, hx₂, h⟩ := bind_eq_ok h
    obtain ⟨y₂, hy₂, h⟩ := bind_eq_ok h
    obtain ⟨f, hf, h⟩ := bind_eq_ok h
    cases h
    refine ⟨[x₁, y₁, x₂, y₂, f], ?_, rfl⟩
    simp only [scripts, hx₁, hy₁, hx₂, hy₂, hf]
    rfl
  · cases hfigure
    rw [script] at h
    obtain ⟨points, hpoints, h⟩ := bind_eq_ok h
    obtain ⟨f, hf, h⟩ := bind_eq_ok h
    cases h
    -- The corners are written point by point, so there are three points to take apart.
    obtain ⟨x₁, y₁, _, hx₁, hy₁, hothers, rfl⟩ := pointScripts_cons_eq_ok hpoints
    obtain ⟨x₂, y₂, _, hx₂, hy₂, hlast, rfl⟩ := pointScripts_cons_eq_ok hothers
    obtain ⟨x₃, y₃, _, hx₃, hy₃, hnone, rfl⟩ := pointScripts_cons_eq_ok hlast
    cases hnone
    refine ⟨[x₁, y₁, x₂, y₂, x₃, y₃, f], ?_, by rw [triangleLines_eq_lines]⟩
    simp only [scripts, hx₁, hy₁, hx₂, hy₂, hx₃, hy₃, hf]
    rfl
  · cases hfigure

end Texts

-- ============================================================================
-- One case for all shapes
-- ============================================================================

/-- A triangle of a text has three corners. -/
theorem From.corners {T : Token → Prop} {corners : List (Point Expr)} {fill : Expr}
    {place : Location} (h : (Expr.triangle corners fill place).From T) :
    ∃ a b c, corners = [a, b, c] := by
  cases h with
  | triangle _ hlength =>
    obtain ⟨a, others, rfl⟩ := List.exists_cons_of_length_eq_add_one hlength
    obtain ⟨b, others, rfl⟩ := List.exists_cons_of_length_eq_add_one (Nat.succ.inj hlength)
    obtain ⟨c, others, rfl⟩ :=
      List.exists_cons_of_length_eq_add_one (Nat.succ.inj (Nat.succ.inj hlength))
    obtain rfl := List.length_eq_zero_iff.mp (Nat.succ.inj (Nat.succ.inj (Nat.succ.inj hlength)))
    exact ⟨a, b, c, rfl⟩

/-- Induction over expressions of a text, with one case for all shapes. -/
theorem From.shapewise {T : Token → Prop} {motive : (e : Expr) → e.From T → Prop}
    (identifier : ∀ id (hid : Identifier.From T id), motive (.identifier id) (.identifier hid))
    (number : ∀ token value (htoken : T token) (hkind : token.kind = .number)
      (hread : Numeral.read? token.text = some value),
      motive (.number value token.location) (.number htoken hkind hread))
    (string : ∀ value place (hplace : Placed T place),
      motive (.string value place) (.string hplace))
    (color : ∀ value place (hplace : Placed T place), motive (.color value place) (.color hplace))
    (binary : ∀ token left right (htoken : T token) (hkind : token.kind.isOperator = true)
      (hleft : left.From T) (hright : right.From T), motive left hleft → motive right hright →
      motive (.binary token.text left right token.location) (.binary htoken hkind hleft hright))
    (call : ∀ callee arguments (hcallee : callee.From T) (harguments : ∀ e ∈ arguments, e.From T),
      motive callee hcallee → (∀ e (he : e ∈ arguments), motive e (harguments e he)) →
      motive (.call callee arguments callee.location) (.call hcallee harguments))
    (shape : ∀ e figure values (he : e.From T), e.figure? = some (figure, values) →
      ∀ (hvalues : ∀ value ∈ values, value.From T),
      (∀ value (hvalue : value ∈ values), motive value (hvalues value hvalue)) → motive e he)
    {e : Expr} (h : e.From T) : motive e h := by
  -- Any proof will do for `motive`, so what is to be shown of a value is that there is one.
  have hshape : ∀ e figure values (he : e.From T), e.figure? = some (figure, values) →
      (∀ value ∈ values, ∃ hvalue : value.From T, motive value hvalue) → motive e he := by
    intro e figure values he hfigure hvalues
    exact shape e figure values he hfigure (fun value hvalue => (hvalues value hvalue).1)
      fun value hvalue => (hvalues value hvalue).2
  induction h with
  | identifier hid => exact identifier _ hid
  | number htoken hkind hread => exact number _ _ htoken hkind hread
  | string hplace => exact string _ _ hplace
  | color hplace => exact color _ _ hplace
  | binary htoken hkind hleft hright ihleft ihright =>
    exact binary _ _ _ htoken hkind hleft hright ihleft ihright
  | call hcallee harguments ihcallee iharguments =>
    exact call _ _ hcallee harguments ihcallee iharguments
  | circle _ hx hy hsize hfill ihx ihy ihsize ihfill =>
    refine hshape _ _ _ _ rfl ?_
    simpa using ⟨⟨hx, ihx⟩, ⟨hy, ihy⟩, ⟨hsize, ihsize⟩, ⟨hfill, ihfill⟩⟩
  | rect _ hx hy hwidth hheight hfill ihx ihy ihwidth ihheight ihfill =>
    refine hshape _ _ _ _ rfl ?_
    simpa using
      ⟨⟨hx, ihx⟩, ⟨hy, ihy⟩, ⟨hwidth, ihwidth⟩, ⟨hheight, ihheight⟩, ⟨hfill, ihfill⟩⟩
  | line _ hx₁ hy₁ hx₂ hy₂ hfill ihx₁ ihy₁ ihx₂ ihy₂ ihfill =>
    refine hshape _ _ _ _ rfl ?_
    simpa using ⟨⟨hx₁, ihx₁⟩, ⟨hy₁, ihy₁⟩, ⟨hx₂, ihx₂⟩, ⟨hy₂, ihy₂⟩, ⟨hfill, ihfill⟩⟩
  | @triangle corners fill place hplace hlength hx hy hfill ihx ihy ihfill =>
    have hcorner : ∀ point ∈ corners, (∃ h : point.x.From T, motive point.x h) ∧
        ∃ h : point.y.From T, motive point.y h := fun point hpoint =>
      ⟨⟨hx point hpoint, ihx point hpoint⟩, ⟨hy point hpoint, ihy point hpoint⟩⟩
    obtain ⟨a, b, c, rfl⟩ := (From.triangle hplace hlength hx hy hfill).corners
    refine hshape _ _ _ _ rfl ?_
    simp only [List.forall_mem_cons] at hcorner
    simp only [List.forall_mem_cons]
    exact ⟨hcorner.1.1, hcorner.1.2, hcorner.2.1.1, hcorner.2.1.2, hcorner.2.2.1.1,
      hcorner.2.2.1.2, ⟨hfill, ihfill⟩, List.forall_mem_nil _⟩

end Expr

end Storyboard
