/-
  Storyboard.Proofs.Script.Sense

  Scripts hold no places. A native tree and the bare tree have the same text at every
  indentation and are written by the same steps, so programs that are the same, places
  apart, have the same script. Only a foreign value would bring its place along.
-/
import Storyboard.Proofs.Tree.Bare
import Storyboard.Proofs.Tree.Induction
import Storyboard.Script.Program

namespace Storyboard

-- ============================================================================
-- Expressions
-- ============================================================================

namespace Expr

/-- A change that one by one leaves the texts as they are leaves all of them as they are. -/
theorem scripts_map {f : Expr → Expr} {es : List Expr} {indent : Int}
    (h : ∀ e ∈ es, (f e).script indent = e.script indent) :
    scripts indent (es.map f) = scripts indent es := by
  induction es with
  | nil => rfl
  | cons e es ih =>
    obtain ⟨he, hes⟩ := List.forall_mem_cons.mp h
    rw [List.map_cons, scripts, scripts, he, ih hes]

theorem pointScripts_map {f : Expr → Expr} {points : List (Point Expr)} {indent : Int}
    (h : ∀ point ∈ points, (f point.x).script indent = point.x.script indent ∧
      (f point.y).script indent = point.y.script indent) :
    pointScripts indent (points.map fun point => ⟨f point.x, f point.y⟩) =
      pointScripts indent points := by
  induction points with
  | nil => rfl
  | cons point points ih =>
    obtain ⟨⟨hx, hy⟩, hpoints⟩ := List.forall_mem_cons.mp h
    rw [List.map_cons, pointScripts, pointScripts, hx, hy, ih hpoints]

/-- A bare expression has the text of the expression. -/
theorem script_bare {e : Expr} (h : e.native = true) (indent : Int) :
    e.bare.script indent = e.script indent := by
  -- A text has no places in it, and places are all that is lost.
  induction e using Expr.induction generalizing indent with
  | identifier id => rfl
  | number value place => rfl
  | string value place => rfl
  | color value place => rfl
  | binary operator left right place hleft hright =>
    simp only [native_binary, Bool.and_eq_true] at h
    rw [bare_binary, script, script, hleft h.1, hright h.2]
  | call callee arguments place hcallee harguments =>
    simp only [native_call, Bool.and_eq_true, List.all_eq_true] at h
    rw [bare_call, script, script, hcallee h.1,
      scripts_map fun e he => harguments e he (h.2 e he) indent]
  | circle x y size fill place hx hy hsize hfill =>
    simp only [native_circle, Point.native, Bool.and_eq_true] at h
    obtain ⟨⟨⟨hx', hy'⟩, hsize'⟩, hfill'⟩ := h
    rw [bare_circle, Point.bare, script, script, hx hx', hy hy', hsize hsize', hfill hfill']
  | rect x y width height fill place hx hy hwidth hheight hfill =>
    simp only [native_rect, Point.native, Bool.and_eq_true] at h
    obtain ⟨⟨⟨⟨hx', hy'⟩, hwidth'⟩, hheight'⟩, hfill'⟩ := h
    rw [bare_rect, Point.bare, script, script, hx hx', hy hy', hwidth hwidth', hheight hheight',
      hfill hfill']
  | line x₁ y₁ x₂ y₂ fill place hx₁ hy₁ hx₂ hy₂ hfill =>
    simp only [native_line, Point.native, Bool.and_eq_true] at h
    obtain ⟨⟨⟨hx₁', hy₁'⟩, ⟨hx₂', hy₂'⟩⟩, hfill'⟩ := h
    rw [bare_line, Point.bare, Point.bare, script, script, hx₁ hx₁', hy₁ hy₁', hx₂ hx₂', hy₂ hy₂',
      hfill hfill']
  | triangle corners fill place hcorners hfill =>
    simp only [native_triangle, Point.native, Bool.and_eq_true, List.all_eq_true] at h
    have hpoints : pointScripts (indent + 1) (corners.map Point.bare) =
        pointScripts (indent + 1) corners := pointScripts_map fun point hpoint =>
      ⟨(hcorners point hpoint).1 (h.1 point hpoint).1 _,
        (hcorners point hpoint).2 (h.1 point hpoint).2 _⟩
    rw [bare_triangle, script, script, hfill h.2, hpoints]
  | foreign value => cases h

end Expr

namespace Script

-- ============================================================================
-- Statements
-- ============================================================================

theorem expression_bare {e : Expr} (h : e.native = true) : expression e.bare = expression e := by
  funext d
  rw [expression, expression, Expr.script_bare h]

/-- Whether parentheses are there already does not depend on places. -/
theorem hasParens_bare (e : Expr) : hasParens e.bare = hasParens e := by
  cases e <;> rfl

theorem command_bare {c : Command} (h : c.native = true) : command c.bare = command c := by
  cases c with
  | foreign value => cases h
  | _ => simp only [Command.bare, command, expression_bare h]

theorem commands_bare {cs : List Command} (h : cs.all Command.native = true) :
    commands (cs.map Command.bare) = commands cs := by
  induction cs with
  | nil => rfl
  | cons c cs ih =>
    rw [List.all_cons, Bool.and_eq_true] at h
    rw [List.map_cons, commands, commands, command_bare h.1, ih h.2]

/-- Statements that are written alike one by one are written alike together. -/
theorem each_bareAll {body : List Stmt} (hbody : Stmt.allNative body = true)
    (h : ∀ stmt ∈ body, stmt.native = true → statement stmt.bare = statement stmt) :
    each (Stmt.bareAll body) = each body := by
  induction body with
  | nil => rfl
  | cons stmt body ih =>
    rw [Stmt.allNative_cons, Bool.and_eq_true] at hbody
    obtain ⟨hstmt, hothers⟩ := List.forall_mem_cons.mp h
    rw [Stmt.bareAll_cons, each, each, hstmt hbody.1, ih hbody.2 hothers]

/-- A bare statement is written as the statement is. -/
theorem statement_bare {stmt : Stmt} (h : stmt.native = true) :
    statement stmt.bare = statement stmt := by
  -- The names of identifiers are kept, and only these are written.
  induction stmt using Stmt.induction with
  | binding name value place =>
    simp only [Stmt.bare, statement, expression_bare h, Identifier.bare]
  | function name parameters body place ih =>
    simp only [Stmt.bare, statement, each_bareAll h ih, Identifier.bare, List.map_map,
      Function.comp_def]
  | giveBack value place =>
    cases value with
    | none => rfl
    | some value => simp only [Stmt.bare, statement, expression_bare h]
  | plain condition thenBody place ih =>
    obtain ⟨hcondition, hthen⟩ := Bool.and_eq_true_iff.mp h
    simp only [Stmt.bare, statement, expression_bare hcondition, hasParens_bare,
      each_bareAll hthen ih]
  | otherwise condition thenBody elseBody place ihThen ihElse =>
    obtain ⟨hfirst, helse⟩ := Bool.and_eq_true_iff.mp h
    obtain ⟨hcondition, hthen⟩ := Bool.and_eq_true_iff.mp hfirst
    simp only [Stmt.bare, statement, expression_bare hcondition, hasParens_bare,
      each_bareAll hthen ihThen, each_bareAll helse ihElse]
  | loop times body place ih =>
    obtain ⟨htimes, hbody⟩ := Bool.and_eq_true_iff.mp h
    simp only [Stmt.bare, statement, expression_bare htimes, each_bareAll hbody ih]
  | animation commands place =>
    simp only [Stmt.bare, statement, commands_bare h]
  | scene name body place ih => simp only [Stmt.bare, statement, each_bareAll h ih]
  | expression value place => simp only [Stmt.bare, statement, expression_bare h]
  | foreign value => cases h

end Script

/-- A native program and the bare program have the same script. -/
theorem generate_bare {p : Program} (h : Stmt.allNative p.body = true) :
    generate p.bare = generate p := by
  have hbody : Script.each p.bare.body = Script.each p.body :=
    Script.each_bareAll h fun stmt _ => Script.statement_bare
  have hempty : p.bare.body.isEmpty = p.body.isEmpty := by
    rw [Program.bare]
    cases p.body <;> rfl
  simp only [generate, Script.program, Script.mainFunction, hbody, hempty]

end Storyboard
