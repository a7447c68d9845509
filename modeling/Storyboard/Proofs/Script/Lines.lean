/-
  Storyboard.Proofs.Script.Lines

  What statements are written to, as a relation between statements and lines.

  `Wrote k body lines` lists the forms: one for each kind of statement, at indentation
  `k`, with the texts of its expressions and, one level deeper, the lines of its bodies.
  Whatever draft the statements are written into, the lines that come to it are of these
  forms (`each_adds`). So a fact about scripts is proved by induction on `Wrote`, without
  a word about drafts.
-/
import Storyboard.Proofs.Script.StmtLayout
import Storyboard.Proofs.Tree.Induction
import Storyboard.Proofs.Tree.Parts

namespace Storyboard

/-- How the line of a command goes on behind the name of the state. -/
def Command.opening : Command → String
  | .move _ .up _ => "y -= "
  | .move _ .down _ => "y += "
  | .move _ .left _ => "x -= "
  | .move _ .right _ => "x += "
  | .rotate _ _ => "rotation += "
  | .scale _ _ => "scale *= "
  | .fade _ _ => "opacity -= "
  | .foreign _ => ""

namespace Script

-- ============================================================================
-- Forms of lines
-- ============================================================================

/-- The lines of commands. -/
inductive Steps (k : Int) : List Command → List String → Prop where
  | nil : Steps k [] []
  | cons {c : Command} {amount : Expr} {text : String} {rest : List Command} {lines : List String} :
      c.expressions = [amount] → amount.script k = .ok text → Steps k rest lines →
      Steps k (c :: rest) ((margin k ++ ("animationState." ++ c.opening ++ text ++ ";")) :: lines)

/-- The lines of statements at an indentation. -/
inductive Wrote : Int → List Stmt → List String → Prop where
  | nil {k : Int} : Wrote k [] []
  | binding {k : Int} {name : Identifier} {value : Expr} {place : Location} {text : String}
      {rest : List Stmt} {lines : List String} :
      value.script k = .ok text → Wrote k rest lines →
      Wrote k (.binding name value place :: rest)
        ((margin k ++ ("var " ++ userName name.name ++ " = " ++ text ++ ";")) :: lines)
  | function {k : Int} {name : Identifier} {parameters : List Identifier} {body : List Stmt}
      {place : Location} {inner : List String} {rest : List Stmt} {lines : List String} :
      Wrote (k + 1) body inner → Wrote k rest lines →
      Wrote k (.function name parameters body place :: rest)
        ((margin k ++ ("function " ++ userName name.name ++ "(" ++
          ", ".intercalate (parameters.map fun p => userName p.name) ++ ") \x7b")) ::
          (inner ++ (margin k ++ "\x7d") :: lines))
  | giveBack {k : Int} {place : Location} {rest : List Stmt} {lines : List String} :
      Wrote k rest lines → Wrote k (.giveBack none place :: rest) ((margin k ++ "return;") :: lines)
  | giveBackValue {k : Int} {value : Expr} {place : Location} {text : String} {rest : List Stmt}
      {lines : List String} :
      value.script k = .ok text → Wrote k rest lines →
      Wrote k (.giveBack (some value) place :: rest)
        ((margin k ++ ("return " ++ text ++ ";")) :: lines)
  | plain {k : Int} {condition : Expr} {thenBody : List Stmt} {place : Location} {text : String}
      {inner : List String} {rest : List Stmt} {lines : List String} :
      condition.script k = .ok text → Wrote (k + 1) thenBody inner → Wrote k rest lines →
      Wrote k (.branch condition thenBody none place :: rest)
        ((margin k ++ ("if " ++ (if hasParens condition then text else "(" ++ text ++ ")") ++
          " \x7b")) :: (inner ++ (margin k ++ "\x7d") :: lines))
  | otherwise {k : Int} {condition : Expr} {thenBody elseBody : List Stmt} {place : Location}
      {text : String} {inner other : List String} {rest : List Stmt} {lines : List String} :
      condition.script k = .ok text → Wrote (k + 1) thenBody inner → Wrote (k + 1) elseBody other →
      Wrote k rest lines →
      Wrote k (.branch condition thenBody (some elseBody) place :: rest)
        ((margin k ++ ("if " ++ (if hasParens condition then text else "(" ++ text ++ ")") ++
          " \x7b")) :: (inner ++ (margin k ++ "\x7d else \x7b") ::
            (other ++ (margin k ++ "\x7d") :: lines)))
  | loop {k : Int} {times : Expr} {body : List Stmt} {place : Location} {text : String}
      {inner : List String} {rest : List Stmt} {lines : List String} (depth : Int) :
      times.script k = .ok text → Wrote (k + 1) body inner → Wrote k rest lines →
      Wrote k (.loop times body place :: rest)
        ((margin k ++ ("for (let " ++ s!"__i{depth}" ++ " = 0, " ++ s!"__n{depth}" ++ " = " ++
          text ++ "; " ++ s!"__i{depth}" ++ " < " ++ s!"__n{depth}" ++ "; " ++ s!"__i{depth}" ++
          "++) \x7b")) :: (inner ++ (margin k ++ "\x7d") :: lines))
  | animation {k : Int} {steps : List Command} {place : Location} {name : String}
      {inner : List String} {rest : List Stmt} {lines : List String} (taken : List String) :
      name = freshName taken "animate" → Steps (k + 1) steps inner → Wrote k rest lines →
      Wrote k (.animation steps place :: rest)
        ((margin k ++ "// Animation loop") :: (margin k ++ ("function " ++ name ++ "() \x7b")) ::
          (margin (k + 1) ++ "clear();") ::
          (inner ++ (margin (k + 1) ++ ("requestAnimationFrame(" ++ name ++ ");")) ::
            (margin k ++ "\x7d") :: (margin k ++ (name ++ "();")) :: lines))
  | scene {k : Int} {title : String} {body : List Stmt} {place : Location} {name : String}
      {inner : List String} {rest : List Stmt} {lines : List String} (taken : List String) :
      name = freshName taken ("scene_" ++ title) → Wrote (k + 1) body inner → Wrote k rest lines →
      Wrote k (.scene title body place :: rest)
        ((margin k ++ ("// Scene: " ++ title)) ::
          (margin k ++ ("function " ++ name ++ "() \x7b")) ::
          (inner ++ (margin k ++ "\x7d") :: (margin k ++ (name ++ "();")) :: lines))
  | expression {k : Int} {value : Expr} {place : Location} {text : String} {rest : List Stmt}
      {lines : List String} :
      value.script k = .ok text → Wrote k rest lines →
      Wrote k (.expression value place :: rest) ((margin k ++ (text ++ ";")) :: lines)

-- ============================================================================
-- Steps of writing
-- ============================================================================

/-- A step of writing that keeps the indentation and, if it ends, adds lines of which `post` is
    true. -/
def Adds {α : Type} (k : Int) (w : Writer α) (post : α → List String → Prop) : Prop :=
  ∀ (d : Draft) (a : α) (e : Draft), d.indent = k → w d = .ok a e →
    e.indent = k ∧ ∃ new, e.lines = d.lines ++ new ∧ post a new

namespace Adds

variable {α β : Type} {k : Int} {post : β → List String → Prop}

/-- A step that adds no line. -/
theorem quiet {w : Writer β}
    (h : ∀ (d : Draft) (b : β) (e : Draft), w d = .ok b e →
      e.indent = d.indent ∧ e.lines = d.lines ∧ (d.indent = k → post b [])) : Adds k w post := by
  intro d b e hd hrun
  obtain ⟨hindent, hlines, hpost⟩ := h d b e hrun
  exact ⟨hindent.trans hd, [], by rw [hlines, List.append_nil], hpost hd⟩

theorem pure {b : β} (h : post b []) : Adds k (Pure.pure b) post := by
  refine quiet ?_
  rintro d _ _ ⟨⟩
  exact ⟨rfl, rfl, fun _ => h⟩

theorem bind {w : Writer α} {f : α → Writer β} {mid : α → List String → Prop} (hw : Adds k w mid)
    (hf : ∀ a new, mid a new → Adds k (f a) fun b more => post b (new ++ more)) :
    Adds k (w >>= f) post := by
  intro d b e hd hrun
  change EStateM.bind w f d = _ at hrun
  unfold EStateM.bind at hrun
  split at hrun
  · rename_i a d' hfirst
    obtain ⟨hd', new, hnew, hmid⟩ := hw d a d' hd hfirst
    obtain ⟨he, more, hmore, hpost⟩ := hf a new hmid d' b e hd' hrun
    exact ⟨he, new ++ more, by rw [hmore, hnew, List.append_assoc], hpost⟩
  · cases hrun

theorem weaken {w : Writer β} {better : β → List String → Prop} (h : Adds k w better)
    (hpost : ∀ b new, better b new → post b new) : Adds k w post := by
  intro d b e hd hrun
  obtain ⟨he, new, hnew, hbetter⟩ := h d b e hd hrun
  exact ⟨he, new, hnew, hpost b new hbetter⟩

theorem emit {code : String} {post : Unit → List String → Prop} (h : post () [margin k ++ code]) :
    Adds k (Script.emit code) post := by
  rintro d _ _ rfl ⟨⟩
  exact ⟨rfl, [margin d.indent ++ code], rfl, h⟩

/-- A line, and then more. -/
theorem line {code : String} {f : Unit → Writer β}
    (h : Adds k (f ()) fun b more => post b ((margin k ++ code) :: more)) :
    Adds k (Script.emit code >>= f) post := by
  have hline : Adds k (Script.emit code) fun _ new => new = [margin k ++ code] := emit rfl
  refine hline.bind ?_
  rintro _ _ rfl
  exact h

/-- A step that adds no line, and then more. -/
theorem after {w : Writer α} {f : α → Writer β} {good : α → Prop}
    (hw : ∀ (d : Draft) (a : α) (e : Draft), w d = .ok a e →
      e.indent = d.indent ∧ e.lines = d.lines ∧ (d.indent = k → good a))
    (hf : ∀ a, good a → Adds k (f a) post) : Adds k (w >>= f) post := by
  have hquiet : Adds k w fun a new => good a ∧ new = [] := by
    refine quiet fun d a e hrun => ?_
    obtain ⟨hindent, hlines, hgood⟩ := hw d a e hrun
    exact ⟨hindent, hlines, fun hd => ⟨hgood hd, rfl⟩⟩
  refine hquiet.bind ?_
  rintro a _ ⟨ha, rfl⟩
  exact hf a ha

/-- The text of an expression, and then more. -/
theorem expression {e : Expr} {f : String → Writer β}
    (h : ∀ text, e.script k = .ok text → Adds k (f text) post) :
    Adds k (Script.expression e >>= f) post := by
  refine after (fun d text d' hrun => ?_) h
  unfold Script.expression at hrun
  split at hrun
  · rename_i text' htext
    cases hrun
    exact ⟨rfl, rfl, fun hd => hd ▸ htext⟩
  · cases hrun

/-- The name of a routine, and then more. -/
theorem routine {base : String} {f : String → Writer β}
    (h : ∀ taken, Adds k (f (freshName taken base)) post) :
    Adds k (Script.routine base >>= f) post := by
  have hname : ∀ name, (∃ taken, name = freshName taken base) → Adds k (f name) post := by
    rintro _ ⟨taken, rfl⟩
    exact h taken
  refine after ?_ hname
  rintro d _ _ ⟨⟩
  exact ⟨rfl, rfl, fun _ => ⟨d.routines, rfl⟩⟩

theorem deeper {inner : Writer β} (h : Adds (k + 1) inner post) :
    Adds k (Script.deeper inner) post := by
  intro d a e hd hrun
  unfold Script.deeper at hrun
  split at hrun
  · rename_i a' d' hinner
    cases hrun
    obtain ⟨hd', new, hnew, hpost⟩ := h _ _ _ (congrArg (· + 1) hd) hinner
    refine ⟨?_, new, hnew, hpost⟩
    change d'.indent - 1 = k
    omega
  · cases hrun

theorem looped {inner : Writer Unit} {post : Unit → List String → Prop} (h : Adds k inner post) :
    Adds k (Script.looped inner) post := by
  refine @after _ _ _ _ _ _ (fun _ => True) ?_ fun _ _ => h.bind fun _ new hnew => quiet ?_
  · rintro d _ _ ⟨⟩
    exact ⟨rfl, rfl, fun _ => trivial⟩
  · rintro d _ _ ⟨⟩
    exact ⟨rfl, rfl, fun _ => by rwa [List.append_nil]⟩

end Adds

-- ============================================================================
-- Statements
-- ============================================================================

theorem command_adds (k : Int) (c : Command) :
    Adds k (command c) fun code new => new = [] ∧ ∃ amount text, c.expressions = [amount] ∧
      amount.script k = .ok text ∧ code = "animationState." ++ c.opening ++ text ++ ";" := by
  cases c with
  | move amount direction place =>
    refine .expression fun text htext => .pure ⟨rfl, amount, text, rfl, htext, ?_⟩
    cases direction
    all_goals rfl
  | rotate angle place =>
    exact .expression fun text htext => .pure ⟨rfl, angle, text, rfl, htext, rfl⟩
  | scale factor place =>
    exact .expression fun text htext => .pure ⟨rfl, factor, text, rfl, htext, rfl⟩
  | fade amount place =>
    exact .expression fun text htext => .pure ⟨rfl, amount, text, rfl, htext, rfl⟩
  | foreign value => rintro d _ _ _ ⟨⟩

theorem commands_adds (k : Int) (steps : List Command) :
    Adds k (commands steps) fun _ new => Steps k steps new := by
  induction steps with
  | nil => exact .pure .nil
  | cons c steps ih =>
    refine (command_adds k c).bind ?_
    rintro _ _ ⟨rfl, amount, text, hamount, htext, rfl⟩
    exact .line (ih.weaken fun _ lines hlines => .cons hamount htext hlines)

/-- Statements that are written in their forms one by one are so together. -/
theorem each_adds_of {body : List Stmt} {k : Int}
    (h : ∀ stmt ∈ body, ∀ k, Adds k (statement stmt) fun _ new =>
      ∀ {rest lines}, Wrote k rest lines → Wrote k (stmt :: rest) (new ++ lines)) :
    Adds k (each body) fun _ new => Wrote k body new := by
  induction body with
  | nil => exact .pure .nil
  | cons stmt body ih =>
    obtain ⟨hstmt, hbody⟩ := List.forall_mem_cons.mp h
    exact (hstmt k).bind fun _ new hnew => (ih hbody).weaken fun _ lines hlines => hnew hlines

/-- A statement is written in its form, whatever is written behind it. -/
theorem statement_adds (stmt : Stmt) (k : Int) :
    Adds k (statement stmt) fun _ new =>
      ∀ {rest lines}, Wrote k rest lines → Wrote k (stmt :: rest) (new ++ lines) := by
  -- What follows the statement is left open in each case, since the relation puts the lines of a
  -- statement in front of those of the rest.
  induction stmt using Stmt.induction generalizing k with
  | binding name value place =>
    exact .expression fun text htext => .emit fun hrest => .binding htext hrest
  | function name parameters body place ih =>
    refine .line ((Adds.deeper (each_adds_of ih)).bind fun _ inner hinner => .emit ?_)
    intro rest lines hrest
    rw [List.cons_append, List.append_assoc]
    exact .function hinner hrest
  | giveBack value place =>
    cases value with
    | none => exact .emit fun hrest => .giveBack hrest
    | some value =>
      exact .expression fun text htext => .emit fun hrest => .giveBackValue htext hrest
  | plain condition thenBody place ih =>
    refine .expression fun text htext => .line
      ((Adds.deeper (each_adds_of ih)).bind fun _ inner hinner => .emit ?_)
    intro rest lines hrest
    rw [List.cons_append, List.append_assoc]
    exact .plain htext hinner hrest
  | otherwise condition thenBody elseBody place ihThen ihElse =>
    refine .expression fun text htext => .line
      ((Adds.deeper (each_adds_of ihThen)).bind fun _ inner hinner => .line
        ((Adds.deeper (each_adds_of ihElse)).bind fun _ other hother => .emit ?_))
    intro rest lines hrest
    rw [List.cons_append, List.append_assoc, List.cons_append, List.append_assoc]
    exact .otherwise htext hinner hother hrest
  | loop times body place ih =>
    -- Any count of loops will do for the names of the counters.
    have hget : ∀ (d : Draft) (found e : Draft), (get : Writer Draft) d = .ok found e →
        e.indent = d.indent ∧ e.lines = d.lines ∧ (d.indent = k → True) := by
      rintro d _ _ ⟨⟩
      exact ⟨rfl, rfl, fun _ => trivial⟩
    refine .after hget fun d _ => .expression fun text htext => .line
      ((Adds.looped (.deeper (each_adds_of ih))).bind fun _ inner hinner => .emit ?_)
    intro rest lines hrest
    rw [List.cons_append, List.append_assoc]
    exact .loop d.loops htext hinner hrest
  | animation steps place =>
    -- The lines inside the routine, with the commands between two fixed ones.
    have hframe : ∀ name, Adds (k + 1) (do
        emit "clear();"
        commands steps
        emit ("requestAnimationFrame(" ++ name ++ ");")) fun _ new => ∃ inner,
          Steps (k + 1) steps inner ∧ new = (margin (k + 1) ++ "clear();") ::
            (inner ++ [margin (k + 1) ++ ("requestAnimationFrame(" ++ name ++ ");")]) := fun name =>
      .line ((commands_adds (k + 1) steps).bind fun _ inner hinner => .emit ⟨inner, hinner, rfl⟩)
    refine .routine fun taken => .line (.line ((Adds.deeper (hframe _)).bind ?_))
    rintro _ _ ⟨inner, hinner, rfl⟩
    refine .line (.emit ?_)
    intro rest lines hrest
    have hwrote : Wrote k (.animation steps place :: rest) _ := .animation taken rfl hinner hrest
    simpa using hwrote
  | scene title body place ih =>
    refine .routine fun taken => .line (.line
      ((Adds.deeper (each_adds_of ih)).bind fun _ inner hinner => .line (.emit ?_)))
    intro rest lines hrest
    rw [List.cons_append, List.cons_append, List.append_assoc]
    exact .scene taken rfl hinner hrest
  | expression value place =>
    exact .expression fun text htext => .emit fun hrest => .expression htext hrest
  | foreign value => rintro d _ _ _ ⟨⟩

/-- Statements in a row are written in their forms. -/
theorem each_adds (body : List Stmt) (k : Int) :
    Adds k (each body) fun _ new => Wrote k body new :=
  each_adds_of fun stmt _ => statement_adds stmt

/-- The lines of a program: a function around those of its statements. -/
theorem mainFunction_adds (body : List Stmt) :
    Adds 0 (mainFunction body) fun _ new => ∃ inner, Wrote 1 body inner ∧
      new = "// Main program" :: "(function main() \x7b" :: (inner ++ ["\x7d)();"]) :=
  .line (.line ((Adds.deeper (each_adds body 1)).bind fun _ inner hinner =>
    .emit ⟨inner, hinner, rfl⟩))

/-- A script is its preamble, and behind it the lines of its statements in a function, if there are
    any. -/
theorem generate_wrote {p : Program} {script : String} (h : generate p = .ok script) :
    p.body = [] ∧ script = preamble ∨
      ∃ inner, Wrote 1 p.body inner ∧ script = preamble ++
        closed ("// Main program" :: "(function main() \x7b" :: (inner ++ ["\x7d)();"])) := by
  rcases generate_cases h with hempty | ⟨d, hmain, rfl⟩
  · exact .inl hempty
  · obtain ⟨-, new, hnew, inner, hinner, rfl⟩ := mainFunction_adds p.body .fresh () d rfl hmain
    have hlines : d.lines = _ := hnew
    refine .inr ⟨inner, hinner, ?_⟩
    rw [Draft.text_eq_closed (by rw [hlines]; simp [Draft.fresh]), hlines]
    rfl

end Script

end Storyboard
