/-
  Storyboard.Proofs.Script.Native

  Every native tree has a script. Writing stops only at a foreign value, so a tree
  without one is written to its end: `Writes` says this of a step of writing, in any
  draft, and there is one rule for each way in which steps are made.
-/
import Storyboard.Proofs.Tree.Bare
import Storyboard.Proofs.Tree.Induction
import Storyboard.Script.Program

namespace Storyboard

-- ============================================================================
-- Expressions
-- ============================================================================

namespace Expr

/-- Expressions that have texts one by one have them together. -/
theorem scripts_eq_ok {es : List Expr} {indent : Int}
    (h : ∀ e ∈ es, ∃ text, e.script indent = .ok text) :
    ∃ texts, Expr.scripts indent es = .ok texts := by
  induction es with
  | nil => exact ⟨[], rfl⟩
  | cons e es ih =>
    obtain ⟨he, hes⟩ := List.forall_mem_cons.mp h
    obtain ⟨text, htext⟩ := he
    obtain ⟨texts, htexts⟩ := ih hes
    refine ⟨text :: texts, ?_⟩
    rw [Expr.scripts, htext, htexts]
    rfl

/-- Points whose coordinates have texts have texts together. -/
theorem pointScripts_eq_ok {points : List (Point Expr)} {indent : Int}
    (h : ∀ point ∈ points,
      (∃ text, point.x.script indent = .ok text) ∧ ∃ text, point.y.script indent = .ok text) :
    ∃ texts, Expr.pointScripts indent points = .ok texts := by
  induction points with
  | nil => exact ⟨[], rfl⟩
  | cons point points ih =>
    obtain ⟨⟨⟨x, hx⟩, ⟨y, hy⟩⟩, hpoints⟩ := List.forall_mem_cons.mp h
    obtain ⟨texts, htexts⟩ := ih hpoints
    refine ⟨⟨x, y⟩ :: texts, ?_⟩
    rw [Expr.pointScripts, hx, hy, htexts]
    rfl

/-- A native expression has a text at every indentation. -/
theorem script_eq_ok {e : Expr} (h : e.native = true) (indent : Int) :
    ∃ text, e.script indent = .ok text := by
  -- What a shape computes stands one level deeper, so the induction goes over all indentations.
  induction e using Expr.induction generalizing indent with
  | identifier id => exact ⟨_, rfl⟩
  | number value place => exact ⟨_, rfl⟩
  | string value place => exact ⟨_, rfl⟩
  | color value place => exact ⟨_, rfl⟩
  | binary operator left right place hleft hright =>
    simp only [native_binary, Bool.and_eq_true] at h
    obtain ⟨l, hl⟩ := hleft h.1 indent
    obtain ⟨r, hr⟩ := hright h.2 indent
    rw [Expr.script, hl, hr]
    exact ⟨_, rfl⟩
  | call callee arguments place hcallee harguments =>
    simp only [native_call, Bool.and_eq_true, List.all_eq_true] at h
    obtain ⟨f, hf⟩ := hcallee h.1 indent
    obtain ⟨values, hvalues⟩ := scripts_eq_ok fun e he => harguments e he (h.2 e he) indent
    rw [Expr.script, hf, hvalues]
    exact ⟨_, rfl⟩
  | circle x y size fill place hx hy hsize hfill =>
    simp only [native_circle, Point.native, Bool.and_eq_true] at h
    obtain ⟨⟨⟨hx', hy'⟩, hsize'⟩, hfill'⟩ := h
    obtain ⟨_, hx⟩ := hx hx' (indent + 1)
    obtain ⟨_, hy⟩ := hy hy' (indent + 1)
    obtain ⟨_, hsize⟩ := hsize hsize' (indent + 1)
    obtain ⟨_, hfill⟩ := hfill hfill' (indent + 1)
    rw [Expr.script, hx, hy, hsize, hfill]
    exact ⟨_, rfl⟩
  | rect x y width height fill place hx hy hwidth hheight hfill =>
    simp only [native_rect, Point.native, Bool.and_eq_true] at h
    obtain ⟨⟨⟨⟨hx', hy'⟩, hwidth'⟩, hheight'⟩, hfill'⟩ := h
    obtain ⟨_, hx⟩ := hx hx' (indent + 1)
    obtain ⟨_, hy⟩ := hy hy' (indent + 1)
    obtain ⟨_, hwidth⟩ := hwidth hwidth' (indent + 1)
    obtain ⟨_, hheight⟩ := hheight hheight' (indent + 1)
    obtain ⟨_, hfill⟩ := hfill hfill' (indent + 1)
    rw [Expr.script, hx, hy, hwidth, hheight, hfill]
    exact ⟨_, rfl⟩
  | line x₁ y₁ x₂ y₂ fill place hx₁ hy₁ hx₂ hy₂ hfill =>
    simp only [native_line, Point.native, Bool.and_eq_true] at h
    obtain ⟨⟨⟨hx₁', hy₁'⟩, ⟨hx₂', hy₂'⟩⟩, hfill'⟩ := h
    obtain ⟨_, hx₁⟩ := hx₁ hx₁' (indent + 1)
    obtain ⟨_, hy₁⟩ := hy₁ hy₁' (indent + 1)
    obtain ⟨_, hx₂⟩ := hx₂ hx₂' (indent + 1)
    obtain ⟨_, hy₂⟩ := hy₂ hy₂' (indent + 1)
    obtain ⟨_, hfill⟩ := hfill hfill' (indent + 1)
    rw [Expr.script, hx₁, hy₁, hx₂, hy₂, hfill]
    exact ⟨_, rfl⟩
  | triangle corners fill place hcorners hfill =>
    simp only [native_triangle, Point.native, Bool.and_eq_true, List.all_eq_true] at h
    -- The corners are a list, and each of its points has two texts.
    obtain ⟨points, hpoints⟩ := pointScripts_eq_ok fun point hpoint =>
      ⟨(hcorners point hpoint).1 (h.1 point hpoint).1 (indent + 1),
        (hcorners point hpoint).2 (h.1 point hpoint).2 (indent + 1)⟩
    obtain ⟨_, hfill⟩ := hfill h.2 (indent + 1)
    rw [Expr.script, hpoints, hfill]
    exact ⟨_, rfl⟩
  | foreign value => cases h

end Expr

namespace Script

-- ============================================================================
-- Steps of writing
-- ============================================================================

/-- A step of writing that comes to its end in every draft. -/
def Writes {α : Type} (w : Writer α) : Prop := ∀ d, ∃ a e, w d = .ok a e

namespace Writes

variable {α β : Type}

theorem pure (a : α) : Writes (Pure.pure a) := fun d => ⟨a, d, rfl⟩

theorem bind {w : Writer α} {f : α → Writer β} (h : Writes w) (hf : ∀ a, Writes (f a)) :
    Writes (w >>= f) := by
  intro d
  obtain ⟨a, e, hw⟩ := h d
  obtain ⟨b, e', hf⟩ := hf a e
  refine ⟨b, e', ?_⟩
  change EStateM.bind w f d = _
  rw [EStateM.bind, hw]
  exact hf

theorem emit (code : String) : Writes (Script.emit code) := fun _ => ⟨_, _, rfl⟩

theorem deeper {inner : Writer α} (h : Writes inner) : Writes (Script.deeper inner) := by
  intro d
  obtain ⟨a, e, hinner⟩ := h { d with indent := d.indent + 1 }
  refine ⟨a, { e with indent := e.indent - 1 }, ?_⟩
  rw [Script.deeper, hinner]

theorem looped {inner : Writer Unit} (h : Writes inner) : Writes (Script.looped inner) :=
  bind (fun _ => ⟨_, _, rfl⟩) fun _ => bind h fun _ _ => ⟨_, _, rfl⟩

theorem routine (base : String) : Writes (Script.routine base) := fun _ => ⟨_, _, rfl⟩

theorem expression {e : Expr} (h : e.native = true) : Writes (Script.expression e) := by
  intro d
  obtain ⟨text, htext⟩ := e.script_eq_ok h d.indent
  refine ⟨text, d, ?_⟩
  rw [Script.expression, htext]

theorem command {c : Command} (h : c.native = true) : Writes (Script.command c) := by
  cases c with
  | move amount direction place => exact bind (expression h) fun _ => pure _
  | rotate angle place => exact bind (expression h) fun _ => pure _
  | scale factor place => exact bind (expression h) fun _ => pure _
  | fade amount place => exact bind (expression h) fun _ => pure _
  | foreign value => cases h

theorem commands {cs : List Command} (h : cs.all Command.native = true) :
    Writes (Script.commands cs) := by
  induction cs with
  | nil => exact pure ()
  | cons c cs ih =>
    rw [List.all_cons, Bool.and_eq_true] at h
    exact bind (command h.1) fun text => bind (emit text) fun _ => ih h.2

end Writes

-- ============================================================================
-- Statements
-- ============================================================================

/-- Statements that are written one by one are written together. -/
theorem each_writes {body : List Stmt} (hbody : Stmt.allNative body = true)
    (h : ∀ stmt ∈ body, stmt.native = true → Writes (statement stmt)) : Writes (each body) := by
  induction body with
  | nil => exact .pure ()
  | cons stmt body ih =>
    rw [Stmt.allNative_cons, Bool.and_eq_true] at hbody
    obtain ⟨hstmt, hothers⟩ := List.forall_mem_cons.mp h
    exact .bind (hstmt hbody.1) fun _ => ih hbody.2 hothers

/-- A native statement is written to its end. -/
theorem statement_writes {stmt : Stmt} (h : stmt.native = true) : Writes (statement stmt) := by
  -- Only expressions and commands can stop the writing; lines, names of routines and levels never
  -- do.
  induction stmt using Stmt.induction with
  | binding name value place => exact .bind (.expression h) fun _ => .emit _
  | function name parameters body place ih =>
    exact .bind (.emit _) fun _ => .bind (.deeper (each_writes h ih)) fun _ => .emit _
  | giveBack value place =>
    cases value with
    | none => exact .emit _
    | some value => exact .bind (.expression h) fun _ => .emit _
  | plain condition thenBody place ih =>
    obtain ⟨hcondition, hthen⟩ := Bool.and_eq_true_iff.mp h
    exact .bind (.expression hcondition) fun _ => .bind (.emit _) fun _ =>
      .bind (.deeper (each_writes hthen ih)) fun _ => .emit _
  | otherwise condition thenBody elseBody place ihThen ihElse =>
    obtain ⟨hfirst, helse⟩ := Bool.and_eq_true_iff.mp h
    obtain ⟨hcondition, hthen⟩ := Bool.and_eq_true_iff.mp hfirst
    exact .bind (.expression hcondition) fun _ => .bind (.emit _) fun _ =>
      .bind (.deeper (each_writes hthen ihThen)) fun _ => .bind (.emit _) fun _ =>
        .bind (.deeper (each_writes helse ihElse)) fun _ => .emit _
  | loop times body place ih =>
    obtain ⟨htimes, hbody⟩ := Bool.and_eq_true_iff.mp h
    exact .bind (fun d => ⟨d, d, rfl⟩) fun _ => .bind (.expression htimes) fun _ =>
      .bind (.emit _) fun _ => .bind (.looped (.deeper (each_writes hbody ih))) fun _ => .emit _
  | animation commands place =>
    exact .bind (.routine _) fun _ => .bind (.emit _) fun _ => .bind (.emit _) fun _ =>
      .bind (.deeper (.bind (.emit _) fun _ => .bind (.commands h) fun _ => .emit _)) fun _ =>
        .bind (.emit _) fun _ => .emit _
  | scene name body place ih =>
    exact .bind (.routine _) fun _ => .bind (.emit _) fun _ => .bind (.emit _) fun _ =>
      .bind (.deeper (each_writes h ih)) fun _ => .bind (.emit _) fun _ => .emit _
  | expression value place => exact .bind (.expression h) fun _ => .emit _
  | foreign value => cases h

end Script

/-- A native program has a script. -/
theorem generate_eq_ok {p : Program} (h : Stmt.allNative p.body = true) :
    ∃ script, generate p = .ok script := by
  have hbody : Script.Writes (Script.each p.body) :=
    Script.each_writes h fun stmt _ => Script.statement_writes
  have hmain : Script.Writes (Script.mainFunction p.body) :=
    .bind (.emit _) fun _ => .bind (.emit _) fun _ => .bind (.deeper hbody) fun _ => .emit _
  have htext : Script.Writes (do return Script.preamble ++ (← get).text) :=
    .bind (fun _ => ⟨_, _, rfl⟩) fun _ => .pure _
  have hprogram : Script.Writes (Script.program p) := by
    refine .bind (fun _ => ⟨_, _, rfl⟩) fun _ => ?_
    dsimp only
    split
    · exact .bind hmain fun _ => htext
    · exact htext
  obtain ⟨script, d, hrun⟩ := hprogram .fresh
  exact ⟨script, by rw [generate, hrun]⟩

end Storyboard
