/-
  Storyboard.Proofs.Script.Strays

  Foreign values, and how they stop the writing of expressions.

  `strays` lists the foreign values of a tree in the order in which writing comes to them;
  in a statement each has with it the number of loops in whose bodies it stands. An
  expression has a text if it has no strays, and stops at the first of them otherwise
  (`Expr.script_meets`).

  The text of an expression depends on the indentation only. `spell` writes an expression
  step by step in a draft, and goes one level deeper and back for each shape; that comes to
  the same (`spell_eq`), so it leaves no trace in the draft, wherever it stops.
-/
import Storyboard.Proofs.Tree.Induction
import Storyboard.Scope.Check
import Storyboard.Script.Stmt

namespace Storyboard

-- ============================================================================
-- Foreign values
-- ============================================================================

/-- The foreign value that a leaf is. -/
def Leaf.foreign? : Leaf → Option Foreign
  | .name _ => none
  | .foreign value => some value

namespace Expr

/-- The foreign values in an expression, from left to right. -/
def strays (e : Expr) : List Foreign := e.leaves.filterMap Leaf.foreign?

/-- The foreign values in a point. -/
def pointStrays (point : Point Expr) : List Foreign := point.x.strays ++ point.y.strays

theorem strays_binary (operator : String) (left right : Expr) (place : Location) :
    (Expr.binary operator left right place).strays = left.strays ++ right.strays := by
  simp [strays, leaves]

theorem filterMap_allLeaves (es : List Expr) :
    (allLeaves es).filterMap Leaf.foreign? = es.flatMap strays := by
  induction es with
  | nil => rfl
  | cons e es ih => simp [allLeaves, ih, strays]

theorem filterMap_pointLeaves (points : List (Point Expr)) :
    (pointLeaves points).filterMap Leaf.foreign? = points.flatMap pointStrays := by
  induction points with
  | nil => rfl
  | cons point points ih => simp [pointLeaves, ih, strays, pointStrays]

theorem strays_call (callee : Expr) (arguments : List Expr) (place : Location) :
    (Expr.call callee arguments place).strays = callee.strays ++ arguments.flatMap strays := by
  simp [strays, leaves, ← filterMap_allLeaves]

theorem strays_circle (x y size fill : Expr) (place : Location) :
    (Expr.circle ⟨x, y⟩ size fill place).strays =
      x.strays ++ (y.strays ++ (size.strays ++ fill.strays)) := by
  simp [strays, leaves]

theorem strays_rect (x y width height fill : Expr) (place : Location) :
    (Expr.rect ⟨x, y⟩ width height fill place).strays =
      x.strays ++ (y.strays ++ (width.strays ++ (height.strays ++ fill.strays))) := by
  simp [strays, leaves]

theorem strays_line (x₁ y₁ x₂ y₂ fill : Expr) (place : Location) :
    (Expr.line ⟨x₁, y₁⟩ ⟨x₂, y₂⟩ fill place).strays =
      x₁.strays ++ (y₁.strays ++ (x₂.strays ++ (y₂.strays ++ fill.strays))) := by
  simp [strays, leaves]

theorem strays_triangle (corners : List (Point Expr)) (fill : Expr) (place : Location) :
    (Expr.triangle corners fill place).strays =
      corners.flatMap pointStrays ++ fill.strays := by
  simp [strays, leaves, ← filterMap_pointLeaves]

end Expr

/-- The foreign values in a command. -/
def Command.strays : Command → List Foreign
  | .move amount _ _ => amount.strays
  | .rotate angle _ => angle.strays
  | .scale factor _ => factor.strays
  | .fade amount _ => amount.strays
  | .foreign value => [value]

/-- A foreign value in a statement, and the number of loops in whose bodies it stands. -/
structure Stray where
  value : Foreign
  loops : Nat
  deriving DecidableEq, Inhabited

namespace Stray

/-- A foreign value that stands in no loop. -/
def outside (value : Foreign) : Stray := ⟨value, 0⟩

/-- The same in the body of one more loop. -/
def inLoop (stray : Stray) : Stray := ⟨stray.value, stray.loops + 1⟩

end Stray

mutual

/-- The foreign values in a statement, in the order in which it is written. The bound of a loop is
    no part of its body. -/
def Stmt.strays : Stmt → List Stray
  | .binding _ value _ => value.strays.map .outside
  | .function _ _ body _ => Stmt.allStrays body
  | .giveBack none _ => []
  | .giveBack (some value) _ => value.strays.map .outside
  | .branch condition thenBody none _ =>
    condition.strays.map .outside ++ Stmt.allStrays thenBody
  | .branch condition thenBody (some elseBody) _ =>
    condition.strays.map .outside ++ (Stmt.allStrays thenBody ++ Stmt.allStrays elseBody)
  | .loop times body _ =>
    times.strays.map .outside ++ (Stmt.allStrays body).map .inLoop
  | .animation commands _ => (commands.flatMap Command.strays).map .outside
  | .scene _ body _ => Stmt.allStrays body
  | .expression value _ => value.strays.map .outside
  | .foreign value => [.outside value]
termination_by structural stmt => stmt

/-- The foreign values in several statements. -/
def Stmt.allStrays : List Stmt → List Stray
  | [] => []
  | stmt :: others => stmt.strays ++ Stmt.allStrays others
termination_by structural body => body

end

-- ============================================================================
-- Expressions
-- ============================================================================

/-- A result that is there if there is no foreign value, and is the first of them otherwise. -/
def Meets {α : Type} (strays : List Foreign) (result : Except Foreign α) : Prop :=
  (∃ a, result = .ok a ∧ strays = []) ∨ ∃ value more, result = .error value ∧ strays = value :: more

namespace Meets

variable {α β : Type} {strays later : List Foreign} {result : Except Foreign α}
  {f : α → Except Foreign β}

theorem ok (a : α) : Meets [] (Except.ok a : Except Foreign α) := .inl ⟨a, rfl, rfl⟩

theorem bind (h : Meets strays result) (hf : ∀ a, Meets later (f a)) :
    Meets (strays ++ later) (result >>= f) := by
  obtain ⟨a, rfl, rfl⟩ | ⟨value, more, rfl, rfl⟩ := h
  · exact hf a
  · exact .inr ⟨value, more ++ later, rfl, rfl⟩

/-- A last part, and what is made of it. -/
theorem last (h : Meets strays result) (g : α → β) :
    Meets strays (result >>= fun a => .ok (g a)) := by
  have hall := h.bind fun a => ok (g a)
  rwa [List.append_nil] at hall

end Meets

namespace Expr

theorem scripts_meets {es : List Expr} {k : Int} (h : ∀ e ∈ es, Meets e.strays (e.script k)) :
    Meets (es.flatMap strays) (scripts k es) := by
  induction es with
  | nil => exact .ok []
  | cons e es ih =>
    obtain ⟨he, hes⟩ := List.forall_mem_cons.mp h
    exact he.bind fun text => (ih hes).last fun texts => text :: texts

theorem pointScripts_meets {points : List (Point Expr)} {k : Int}
    (h : ∀ point ∈ points, Meets point.x.strays (point.x.script k) ∧
      Meets point.y.strays (point.y.script k)) :
    Meets (points.flatMap pointStrays) (pointScripts k points) := by
  induction points with
  | nil => exact .ok []
  | cons point points ih =>
    obtain ⟨⟨hx, hy⟩, hpoints⟩ := List.forall_mem_cons.mp h
    rw [List.flatMap_cons, pointStrays, List.append_assoc]
    exact hx.bind fun x => hy.bind fun y => (ih hpoints).last fun texts => Point.mk x y :: texts

/-- An expression without foreign values has a text, and any other stops at its first one. -/
theorem script_meets (e : Expr) (k : Int) : Meets e.strays (e.script k) := by
  -- The order in which the parts are written is the order of the list, so the first that stops is
  -- the first in the list.
  induction e using Expr.induction generalizing k with
  | identifier id => exact .ok _
  | number value place => exact .ok _
  | string value place => exact .ok _
  | color value place => exact .ok _
  | binary operator left right place hleft hright =>
    rw [strays_binary]
    exact (hleft k).bind fun l => (hright k).last fun r => _
  | call callee arguments place hcallee harguments =>
    rw [strays_call]
    have hvalues := scripts_meets fun e he => harguments e he k
    exact (hcallee k).bind fun f => hvalues.last fun values => _
  | circle x y size fill place hx hy hsize hfill =>
    rw [strays_circle]
    exact (hx _).bind fun x => (hy _).bind fun y => (hsize _).bind fun size =>
      (hfill _).last fun fill => _
  | rect x y width height fill place hx hy hwidth hheight hfill =>
    rw [strays_rect]
    exact (hx _).bind fun x => (hy _).bind fun y => (hwidth _).bind fun width =>
      (hheight _).bind fun height => (hfill _).last fun fill => _
  | line x₁ y₁ x₂ y₂ fill place hx₁ hy₁ hx₂ hy₂ hfill =>
    rw [strays_line]
    exact (hx₁ _).bind fun x₁ => (hy₁ _).bind fun y₁ => (hx₂ _).bind fun x₂ =>
      (hy₂ _).bind fun y₂ => (hfill _).last fun fill => _
  | triangle corners fill place hcorners hfill =>
    rw [strays_triangle]
    have hpoints := pointScripts_meets fun point hpoint =>
      ⟨(hcorners point hpoint).1 (k + 1), (hcorners point hpoint).2 (k + 1)⟩
    exact hpoints.bind fun points => (hfill _).last fun fill => _
  | foreign value => exact .inr ⟨value, [], rfl, rfl⟩

end Expr

namespace Script

mutual

/-- Writes an expression step by step. What a shape computes first is written one level deeper, and
    the shape itself where it stands. -/
def spell : Expr → Writer String
  | .identifier id => pure (userName id.name)
  | .number value _ => pure value.inScript
  | .string value _ => pure (Text.literal value)
  | .color value _ => pure (Text.literal value)
  | .binary operator left right _ => do
    let l ← spell left
    let r ← spell right
    return "(" ++ l ++ " " ++ operator ++ " " ++ r ++ ")"
  | .call callee arguments _ => do
    let f ← spell callee
    let values ← spellAll arguments
    return f ++ "(" ++ ", ".intercalate values ++ ")"
  | .circle ⟨x, y⟩ size fill _ => do
    let body ← deeper do
      let x ← spell x
      let y ← spell y
      let size ← spell size
      let fill ← spell fill
      return circleLines ⟨x, y⟩ size fill
    return calledOnce (← get).indent body
  | .rect ⟨x, y⟩ width height fill _ => do
    let body ← deeper do
      let x ← spell x
      let y ← spell y
      let width ← spell width
      let height ← spell height
      let fill ← spell fill
      return rectLines ⟨x, y⟩ width height fill
    return calledOnce (← get).indent body
  | .line ⟨x₁, y₁⟩ ⟨x₂, y₂⟩ fill _ => do
    let body ← deeper do
      let x₁ ← spell x₁
      let y₁ ← spell y₁
      let x₂ ← spell x₂
      let y₂ ← spell y₂
      let fill ← spell fill
      return lineLines ⟨x₁, y₁⟩ ⟨x₂, y₂⟩ fill
    return calledOnce (← get).indent body
  | .triangle corners fill _ => do
    let body ← deeper do
      let points ← spellPoints corners
      let fill ← spell fill
      return triangleLines points fill
    return calledOnce (← get).indent body
  | .foreign value => throw value
termination_by structural e => e

/-- Writes several expressions. -/
def spellAll : List Expr → Writer (List String)
  | [] => pure []
  | e :: others => do
    let text ← spell e
    let texts ← spellAll others
    return text :: texts
termination_by structural es => es

/-- Writes the coordinates of several points. -/
def spellPoints : List (Point Expr) → Writer (List (Point String))
  | [] => pure []
  | ⟨x, y⟩ :: others => do
    let x ← spell x
    let y ← spell y
    let texts ← spellPoints others
    return ⟨x, y⟩ :: texts
termination_by structural points => points

end

/-- A step that only looks at the indentation. -/
def reading {α : Type} (f : Int → Except Foreign α) : Writer α := fun d =>
  match f d.indent with
  | .ok a => .ok a d
  | .error value => .error value d

/-! ### Steps one after the other -/

section Steps

variable {α β : Type} {w : Writer α} {f : α → Writer β} {d e : Draft}

theorem bind_of_ok {a : α} (h : w d = .ok a e) : (w >>= f) d = f a e := by
  change EStateM.bind w f d = _
  rw [EStateM.bind, h]

theorem bind_of_error {value : Foreign} (h : w d = .error value e) :
    (w >>= f) d = .error value e := by
  change EStateM.bind w f d = _
  rw [EStateM.bind, h]

end Steps

section Reading

variable {α β : Type} {f : Int → Except Foreign α} {d : Draft}

theorem reading_of_ok {a : α} (h : f d.indent = .ok a) : reading f d = .ok a d := by
  rw [reading, h]

theorem reading_of_error {value : Foreign} (h : f d.indent = .error value) :
    reading f d = .error value d := by
  rw [reading, h]

theorem expression_eq_reading (e : Expr) : expression e = reading fun k => e.script k := by
  funext d
  cases h : e.script d.indent with
  | ok text => rw [reading_of_ok h, expression, h]
  | error value => rw [reading_of_error h, expression, h]

/-- In any draft, an expression comes to its end or stops at its first foreign value, and the draft
    is left as it was. -/
theorem expression_leaves (e : Expr) (d : Draft) :
    (∃ text, expression e d = .ok text d ∧ e.strays = []) ∨
      ∃ value more, expression e d = .error value d ∧ e.strays = value :: more := by
  rw [expression_eq_reading]
  obtain ⟨text, hscript, hnone⟩ | ⟨value, more, hscript, hfirst⟩ := e.script_meets d.indent
  · exact .inl ⟨text, reading_of_ok hscript, hnone⟩
  · exact .inr ⟨value, more, reading_of_error hscript, hfirst⟩

theorem pure_eq_reading (a : α) : (pure a : Writer α) = reading fun _ => .ok a := rfl

theorem reading_bind (f : Int → Except Foreign α) (g : α → Int → Except Foreign β) :
    (reading f >>= fun a => reading (g a)) = reading fun k => f k >>= fun a => g a k := by
  funext d
  cases h : f d.indent with
  | ok a =>
    rw [bind_of_ok (reading_of_ok h), reading, reading, h]
    rfl
  | error value =>
    have hstop : (f d.indent >>= fun a => g a d.indent) = .error value := by
      rw [h]
      rfl
    rw [bind_of_error (reading_of_error h), reading_of_error hstop]

/-- What only looks at the indentation, one level deeper, leaves it as it was. -/
theorem deeper_reading (f : Int → Except Foreign α) :
    deeper (reading f) = reading fun k => f (k + 1) := by
  have hback : ∀ d : Draft, { d with indent := d.indent + 1 - 1 } = d := by
    intro d
    rw [Int.add_sub_cancel]
  funext d
  cases h : f (d.indent + 1) with
  | ok a =>
    have hinner : reading f { d with indent := d.indent + 1 } = .ok a _ := reading_of_ok h
    rw [deeper, hinner, reading, h]
    exact congrArg (EStateM.Result.ok a) (hback d)
  | error value =>
    have hinner : reading f { d with indent := d.indent + 1 } = .error value _ :=
      reading_of_error h
    rw [deeper, hinner, reading, h]
    exact congrArg (EStateM.Result.error value) (hback d)

/-- A shape is written where it stands, around what was written one level deeper. -/
theorem deeper_called {w : Writer (List String)} {f : Int → Except Foreign (List String)}
    (h : w = reading f) :
    (do let body ← deeper w; return calledOnce (← get).indent body) =
      reading fun k => f (k + 1) >>= fun body => .ok (calledOnce k body) := by
  rw [h, deeper_reading]
  exact reading_bind _ fun body k => .ok (calledOnce k body)

end Reading

theorem spellAll_eq {es : List Expr} (h : ∀ e ∈ es, spell e = reading fun k => e.script k) :
    spellAll es = reading fun k => Expr.scripts k es := by
  induction es with
  | nil => rfl
  | cons e es ih =>
    obtain ⟨he, hes⟩ := List.forall_mem_cons.mp h
    rw [spellAll, he, ih hes]
    simp only [pure_eq_reading, reading_bind]
    rfl

theorem spellPoints_eq {points : List (Point Expr)}
    (h : ∀ point ∈ points, spell point.x = (reading fun k => point.x.script k) ∧
      spell point.y = reading fun k => point.y.script k) :
    spellPoints points = reading fun k => Expr.pointScripts k points := by
  induction points with
  | nil => rfl
  | cons point points ih =>
    obtain ⟨⟨hx, hy⟩, hpoints⟩ := List.forall_mem_cons.mp h
    rw [spellPoints, hx, hy, ih hpoints]
    simp only [pure_eq_reading, reading_bind]
    rfl

/-- Writing an expression step by step only looks at the indentation: whatever levels are entered
    are left again, also if a foreign value stops the writing inside them. -/
theorem spell_eq (e : Expr) : spell e = reading fun k => e.script k := by
  -- Both sides go through the parts in the same order. A shape enters a level for its values and
  -- leaves it before its own lines are put together.
  induction e using Expr.induction with
  | identifier id => rfl
  | number value place => rfl
  | string value place => rfl
  | color value place => rfl
  | binary operator left right place hleft hright =>
    rw [spell, hleft, hright]
    simp only [pure_eq_reading, reading_bind]
    rfl
  | call callee arguments place hcallee harguments =>
    rw [spell, hcallee, spellAll_eq harguments]
    simp only [pure_eq_reading, reading_bind]
    rfl
  | circle x y size fill place hx hy hsize hfill =>
    rw [spell, hx, hy, hsize, hfill]
    refine (deeper_called (by simp only [pure_eq_reading, reading_bind]; rfl)).trans ?_
    simp only [bind_assoc]
    rfl
  | rect x y width height fill place hx hy hwidth hheight hfill =>
    rw [spell, hx, hy, hwidth, hheight, hfill]
    refine (deeper_called (by simp only [pure_eq_reading, reading_bind]; rfl)).trans ?_
    simp only [bind_assoc]
    rfl
  | line x₁ y₁ x₂ y₂ fill place hx₁ hy₁ hx₂ hy₂ hfill =>
    rw [spell, hx₁, hy₁, hx₂, hy₂, hfill]
    refine (deeper_called (by simp only [pure_eq_reading, reading_bind]; rfl)).trans ?_
    simp only [bind_assoc]
    rfl
  | triangle corners fill place hcorners hfill =>
    rw [spell, spellPoints_eq hcorners, hfill]
    refine (deeper_called (by simp only [pure_eq_reading, reading_bind]; rfl)).trans ?_
    simp only [bind_assoc]
    rfl
  | foreign value => rfl

end Script

end Storyboard
