/-
  Storyboard.Proofs.Script.Effects

  What writing leaves behind, whether it comes to its end or stops at a foreign value.

  `Effect` says of a step of writing what it does to any draft: it ends if there is no
  stray, and stops at the first one otherwise; lines and names of routines are only added,
  the indentation is as before, and the count of open loops is as before or, at a stray,
  larger by the loops around it. There is one rule for each way in which steps are made,
  and so one case for each kind of statement (`statement_effect`). What a draft is left with
  (`writing_leaves`) and how its routines are named (`routines_named_apart`) are both read
  off that.
-/
import Storyboard.Proofs.Script.Routines
import Storyboard.Proofs.Script.Strays
import Storyboard.Script.Program

namespace Storyboard

namespace Script

-- ============================================================================
-- Steps of writing
-- ============================================================================

/-- A draft to which lines were added, among them those that open some routines, with their names
    given one after the other. -/
structure Grown (d e : Draft) (routines : List Routine) : Prop where
  indent : e.indent = d.indent
  added : ∃ lines given, e.lines = d.lines ++ lines ∧
    e.routines = d.routines ++ given.map Prod.snd ∧ given.map Prod.fst = routines ∧
    Given d.routines given ∧ (given.map fun entry => entry.1.opening entry.2).Sublist lines

namespace Grown

variable {d e : Draft} {routines : List Routine}

/-- Lines are added and no routines. -/
theorem lines {new : List String} (hindent : e.indent = d.indent)
    (hlines : e.lines = d.lines ++ new) (hroutines : e.routines = d.routines) : Grown d e [] :=
  ⟨hindent, new, [], hlines, by rw [hroutines, List.map_nil, List.append_nil], rfl, .nil,
    List.nil_sublist new⟩

theorem refl (d : Draft) : Grown d d [] := lines rfl (List.append_nil _).symm rfl

theorem trans {e' : Draft} {later : List Routine} (h : Grown d e routines)
    (hlater : Grown e e' later) : Grown d e' (routines ++ later) := by
  obtain ⟨hindent, lines, given, hlines, hnames, hsites, hgiven, hopened⟩ := h
  obtain ⟨hindent', lines', given', hlines', hnames', hsites', hgiven', hopened'⟩ := hlater
  refine ⟨hindent'.trans hindent, lines ++ lines', given ++ given', ?_, ?_, ?_, ?_, ?_⟩
  · rw [hlines', hlines, List.append_assoc]
  · rw [hnames', hnames, List.map_append, List.append_assoc]
  · rw [List.map_append, hsites, hsites']
  · exact hgiven.append (hnames ▸ hgiven')
  · rw [List.map_append]
    exact hopened.append hopened'

/-- What was there before comes first. -/
theorem begins (h : Grown d e routines) : d.lines <+: e.lines ∧ d.routines <+: e.routines := by
  obtain ⟨-, lines, given, hlines, hnames, -⟩ := h
  exact ⟨⟨lines, hlines.symm⟩, ⟨given.map Prod.snd, hnames.symm⟩⟩

/-- One level deeper and back. -/
theorem deeper {d e : Draft} (h : Grown { d with indent := d.indent + 1 } e routines) :
    Grown d { e with indent := e.indent - 1 } routines := by
  refine ⟨?_, h.added⟩
  have hindent : e.indent = d.indent + 1 := h.indent
  change e.indent - 1 = d.indent
  omega

end Grown

/-- What a step of writing at an indentation does to any draft. If there are no strays it ends, with
    as many loops open as before; otherwise it stops at the first of them, inside the loops around
    it, and only some of the routines are named. -/
def Effect {α : Type} (k : Int) (w : Writer α) (strays : List Stray) (routines : List Routine) :
    Prop :=
  ∀ d : Draft, d.indent = k →
    (∃ a e, w d = .ok a e ∧ strays = [] ∧ e.loops = d.loops ∧ Grown d e routines) ∨
    ∃ stray more e done, w d = .error stray.value e ∧ strays = stray :: more ∧
      e.loops = d.loops + stray.loops ∧ done <+: routines ∧ Grown d e done

namespace Effect

variable {α β : Type} {k : Int} {strays later : List Stray} {routines next : List Routine}

theorem pure (a : α) : Effect k (Pure.pure a) [] [] := fun d _ =>
  .inl ⟨a, d, rfl, rfl, rfl, .refl d⟩

theorem throw (value : Foreign) : Effect k (throw value : Writer α) [.outside value] [] :=
  fun d _ => .inr ⟨.outside value, [], d, [], rfl, rfl, (Int.add_zero d.loops).symm,
    List.prefix_refl [], .refl d⟩

theorem bind {w : Writer α} {f : α → Writer β} (hw : Effect k w strays routines)
    (hf : ∀ a, Effect k (f a) later next) :
    Effect k (w >>= f) (strays ++ later) (routines ++ next) := by
  intro d hd
  obtain ⟨a, e, hrun, rfl, hloops, hgrown⟩ |
    ⟨stray, more, e, done, hrun, rfl, hloops, hdone, hgrown⟩ := hw d hd
  · rw [bind_of_ok hrun, List.nil_append, ← hloops]
    obtain ⟨b, e', hrun', hnone, hloops', hgrown'⟩ |
      ⟨stray, more, e', done, hrun', hfirst, hloops', hdone, hgrown'⟩ :=
        hf a e (hgrown.indent.trans hd)
    · exact .inl ⟨b, e', hrun', hnone, hloops', hgrown.trans hgrown'⟩
    · exact .inr ⟨stray, more, e', routines ++ done, hrun', hfirst, hloops',
        (List.prefix_append_right_inj routines).mpr hdone, hgrown.trans hgrown'⟩
  · exact .inr ⟨stray, more ++ later, e, done, bind_of_error hrun, rfl, hloops,
      hdone.trans (List.prefix_append routines next), hgrown⟩

theorem emit (code : String) : Effect k (Script.emit code) [] [] := fun _ _ =>
  .inl ⟨(), _, rfl, rfl, rfl, .lines rfl rfl rfl⟩

/-- A line, and then more. -/
theorem line {code : String} {f : Unit → Writer β} (h : Effect k (f ()) strays routines) :
    Effect k (Script.emit code >>= f) strays routines := (emit code).bind fun _ => h

/-- Something, and behind it nothing but lines. -/
theorem followed {w : Writer α} {f : α → Writer β} (h : Effect k w strays routines)
    (hf : ∀ a, Effect k (f a) [] []) : Effect k (w >>= f) strays routines := by
  have hall := h.bind hf
  rwa [List.append_nil, List.append_nil] at hall

/-- An expression leaves the draft as it is, whether it has a text or not. -/
theorem expression (e : Expr) : Effect k (Script.expression e) (e.strays.map .outside) [] := by
  intro d _
  obtain ⟨text, hrun, hnone⟩ | ⟨value, more, hrun, hfirst⟩ := expression_leaves e d
  · exact .inl ⟨text, d, hrun, by rw [hnone]; rfl, rfl, .refl d⟩
  · exact .inr ⟨.outside value, more.map .outside, d, [], hrun, by rw [hfirst]; rfl,
      (Int.add_zero d.loops).symm, List.prefix_refl [], .refl d⟩

/-- The text of an expression, and then more. -/
theorem text {e : Expr} {f : String → Writer β} (h : ∀ text, Effect k (f text) later next) :
    Effect k (Script.expression e >>= f) (e.strays.map .outside ++ later) next :=
  (expression e).bind h

/-- The draft itself, and then more. -/
theorem get {f : Draft → Writer β} (h : ∀ d, Effect k (f d) strays routines) :
    Effect k (MonadState.get >>= f) strays routines := fun d hd => h d d hd

theorem deeper {inner : Writer α} (h : Effect (k + 1) inner strays routines) :
    Effect k (Script.deeper inner) strays routines := by
  intro d hd
  obtain ⟨a, e, hrun, hnone, hloops, hgrown⟩ |
    ⟨stray, more, e, done, hrun, hfirst, hloops, hdone, hgrown⟩ :=
      h { d with indent := d.indent + 1 } (congrArg (· + 1) hd)
  · refine .inl ⟨a, { e with indent := e.indent - 1 }, ?_, hnone, hloops, hgrown.deeper⟩
    rw [Script.deeper, hrun]
  · refine .inr ⟨stray, more, { e with indent := e.indent - 1 }, done, ?_, hfirst, hloops, hdone,
      hgrown.deeper⟩
    rw [Script.deeper, hrun]

/-- Inside one more loop. If the writing stops there, the loop stays open. -/
theorem looped {inner : Writer Unit} (h : Effect k inner strays routines) :
    Effect k (Script.looped inner) (strays.map .inLoop) routines := by
  intro d hd
  obtain ⟨a, e, hrun, rfl, hloops, hgrown⟩ |
    ⟨stray, more, e, done, hrun, rfl, hloops, hdone, hgrown⟩ :=
      h { d with loops := d.loops + 1 } hd
  · refine .inl ⟨(), { e with loops := e.loops - 1 }, ?_, rfl, ?_, hgrown.indent, hgrown.added⟩
    · exact bind_of_ok (f := fun _ => modify fun d => { d with loops := d.loops - 1 }) hrun
    · change e.loops - 1 = d.loops
      have hopen : e.loops = d.loops + 1 := hloops
      omega
  · refine .inr ⟨stray.inLoop, more.map .inLoop, e, done, ?_, rfl, ?_, hdone, hgrown.indent,
      hgrown.added⟩
    · exact bind_of_error (f := fun _ => modify fun d => { d with loops := d.loops - 1 }) hrun
    · have hopen : e.loops = d.loops + 1 + stray.loops := hloops
      change e.loops = d.loops + (stray.loops + 1 : Nat)
      omega

/-- A routine is named and opened, and then more. -/
theorem routine {base comment : String} {f : String → Writer β}
    (h : ∀ name, Effect k (f name) strays routines) :
    Effect k (do
      let name ← Script.routine base
      Script.emit comment
      Script.emit ("function " ++ name ++ "() \x7b")
      f name) strays (⟨k, base⟩ :: routines) := by
  intro d hd
  generalize hname : freshName d.routines base = name
  let opened : Draft := { d with
    lines := d.lines ++ [margin d.indent ++ comment] ++
      [margin d.indent ++ ("function " ++ name ++ "() \x7b")]
    routines := d.routines ++ [name] }
  -- Two lines are added, of which the second opens the routine under a name not taken before.
  have hopened : Grown d opened [⟨k, base⟩] := by
    refine ⟨rfl, [margin d.indent ++ comment, Routine.opening ⟨k, base⟩ name],
      [(⟨k, base⟩, name)], ?_, rfl, rfl, ?_, ?_⟩
    · rw [← hd]
      exact List.append_assoc _ _ _
    · exact .cons (hname ▸ isFresh_freshName d.routines base) .nil
    · exact List.sublist_cons_self _ _
  have hrun : (do
      let name ← Script.routine base
      Script.emit comment
      Script.emit ("function " ++ name ++ "() \x7b")
      f name) d = f name opened := by
    subst hname
    rfl
  rw [hrun]
  obtain ⟨a, e, hrun, hnone, hloops, hgrown⟩ |
    ⟨stray, more, e, done, hrun, hfirst, hloops, hdone, hgrown⟩ := h name opened hd
  · exact .inl ⟨a, e, hrun, hnone, hloops, hopened.trans hgrown⟩
  · exact .inr ⟨stray, more, e, ⟨k, base⟩ :: done, hrun, hfirst, hloops,
      (List.prefix_cons_inj _).mpr hdone, hopened.trans hgrown⟩

end Effect

-- ============================================================================
-- Statements
-- ============================================================================

theorem command_effect (k : Int) (c : Command) :
    Effect k (command c) (c.strays.map .outside) [] := by
  cases c with
  | move amount direction place => exact .followed (.expression amount) fun _ => .pure _
  | rotate angle place => exact .followed (.expression angle) fun _ => .pure _
  | scale factor place => exact .followed (.expression factor) fun _ => .pure _
  | fade amount place => exact .followed (.expression amount) fun _ => .pure _
  | foreign value => exact .throw value

theorem commands_effect (k : Int) (steps : List Command) :
    Effect k (commands steps) ((steps.flatMap Command.strays).map .outside) [] := by
  induction steps with
  | nil => exact .pure ()
  | cons c steps ih =>
    rw [List.flatMap_cons, List.map_append]
    exact (command_effect k c).bind fun text => .line ih

/-- Statements have their effects one after the other. -/
theorem each_effect_of {body : List Stmt} {k : Int}
    (h : ∀ stmt ∈ body, ∀ k, Effect k (statement stmt) stmt.strays (stmt.routines k)) :
    Effect k (each body) (Stmt.allStrays body) (Stmt.allRoutines k body) := by
  induction body with
  | nil => exact .pure ()
  | cons stmt body ih =>
    obtain ⟨hstmt, hbody⟩ := List.forall_mem_cons.mp h
    exact (hstmt k).bind fun _ => ih hbody

/-- A statement comes to its end or stops at its first stray, and its routines are named in the
    order in which they are opened. -/
theorem statement_effect (stmt : Stmt) (k : Int) :
    Effect k (statement stmt) stmt.strays (stmt.routines k) := by
  -- The strays and the routines of a statement are listed in the order of its writing, so each step
  -- takes its part off the front.
  induction stmt using Stmt.induction generalizing k with
  | binding name value place => exact .followed (.expression value) fun _ => .emit _
  | function name parameters body place ih =>
    exact .line (.followed (.deeper (each_effect_of ih)) fun _ => .emit _)
  | giveBack value place =>
    cases value with
    | none => exact .emit _
    | some value => exact .followed (.expression value) fun _ => .emit _
  | plain condition thenBody place ih =>
    exact .text fun _ => .line (.followed (.deeper (each_effect_of ih)) fun _ => .emit _)
  | otherwise condition thenBody elseBody place ihThen ihElse =>
    exact .text fun _ => .line (.bind (.deeper (each_effect_of ihThen)) fun _ => .line
      (.followed (.deeper (each_effect_of ihElse)) fun _ => .emit _))
  | loop times body place ih =>
    exact .get fun _ => .text fun _ => .line
      (.followed (.looped (.deeper (each_effect_of ih))) fun _ => .emit _)
  | animation steps place =>
    exact .routine fun _ => .followed
      (.deeper (.line (.followed (commands_effect (k + 1) steps) fun _ => .emit _)))
      fun _ => .line (.emit _)
  | scene title body place ih =>
    exact .routine fun _ => .followed (.deeper (each_effect_of ih)) fun _ => .line (.emit _)
  | expression value place => exact .followed (.expression value) fun _ => .emit _
  | foreign value => exact .throw value

theorem mainFunction_effect (body : List Stmt) :
    Effect 0 (mainFunction body) (Stmt.allStrays body) (Stmt.allRoutines 1 body) :=
  .line (.line (.followed (.deeper (each_effect_of fun stmt _ => statement_effect stmt))
    fun _ => .emit _))

/-! ### Whole scripts -/

/-- The draft that is left when a program was written, or when a foreign value stopped that. -/
def draftOf (p : Program) : Draft :=
  match program p .fresh with
  | .ok _ d => d
  | .error _ d => d

/-- A program without statements is just the preamble. -/
theorem program_of_nil {p : Program} (h : p.body = []) :
    program p .fresh = .ok preamble .fresh := by
  unfold program
  rw [h]
  exact congrArg (fun text => EStateM.Result.ok text Draft.fresh) String.append_empty

/-- Any other program is its main function behind the preamble. -/
theorem program_of_cons {p : Program} (h : p.body ≠ []) :
    program p .fresh =
      (mainFunction p.body >>= fun _ => do return preamble ++ (← get).text) .fresh := by
  unfold program
  rw [if_pos (by simpa using h)]
  rfl

/-- A program's routines are named as they are opened, all of them if it has a script. -/
theorem draftOf_grown (p : Program) :
    ∃ done, done <+: Stmt.allRoutines 1 p.body ∧ Grown .fresh (draftOf p) done ∧
      ∀ script, generate p = .ok script →
        done = Stmt.allRoutines 1 p.body ∧ script = preamble ++ (draftOf p).text := by
  unfold draftOf generate
  by_cases hbody : p.body = []
  · rw [program_of_nil hbody, hbody]
    refine ⟨[], List.prefix_refl [], .refl .fresh, ?_⟩
    rintro _ ⟨⟩
    exact ⟨rfl, String.append_empty.symm⟩
  · rw [program_of_cons hbody]
    obtain ⟨_, e, hrun, -, -, hgrown⟩ | ⟨stray, more, e, done, hrun, -, -, hdone, hgrown⟩ :=
      mainFunction_effect p.body .fresh rfl
    · rw [bind_of_ok hrun]
      refine ⟨_, List.prefix_refl _, hgrown, ?_⟩
      rintro _ ⟨⟩
      exact ⟨rfl, rfl⟩
    · rw [bind_of_error hrun]
      refine ⟨done, hdone, hgrown, ?_⟩
      rintro _ ⟨⟩

end Script

open Script

-- ============================================================================
-- What is left
-- ============================================================================

/-- What writing leaves behind. In any draft, an expression written step by step is the same as its
    text at the present indentation: the draft is left exactly as it was, whether there is a text or
    a foreign value, then the first one from the left, stops it.
    A statement comes to its end if it holds no foreign value, and otherwise stops at the first one
    that it comes to. In both cases lines and names of routines are only added, behind what was
    there, and the indentation is as before. As many loops are open as before if it ends; if it
    stops, they are more by just the loops of the statement in whose bodies the value stands. -/
theorem writing_leaves (d : Draft) :
    (∀ e : Expr, spell e = expression e ∧
      ((∃ text, spell e d = .ok text d ∧ e.strays = []) ∨
        ∃ value more, spell e d = .error value d ∧ e.strays = value :: more)) ∧
    ∀ stmt : Stmt,
      (∃ e, statement stmt d = .ok () e ∧ stmt.strays = [] ∧ d.lines <+: e.lines ∧
        d.routines <+: e.routines ∧ e.indent = d.indent ∧ e.loops = d.loops) ∨
      ∃ stray more e, statement stmt d = .error stray.value e ∧ stmt.strays = stray :: more ∧
        d.lines <+: e.lines ∧ d.routines <+: e.routines ∧ e.indent = d.indent ∧
        e.loops = d.loops + stray.loops := by
  constructor
  · intro e
    have hsame : spell e = expression e := (spell_eq e).trans (expression_eq_reading e).symm
    refine ⟨hsame, ?_⟩
    rw [hsame]
    exact expression_leaves e d
  · intro stmt
    obtain ⟨_, e, hrun, hnone, hloops, hgrown⟩ |
      ⟨stray, more, e, done, hrun, hfirst, hloops, -, hgrown⟩ :=
        statement_effect stmt d.indent d rfl
    · exact .inl ⟨e, hrun, hnone, hgrown.begins.1, hgrown.begins.2, hgrown.indent, hloops⟩
    · exact .inr ⟨stray, more, e, hrun, hfirst, hgrown.begins.1, hgrown.begins.2, hgrown.indent,
        hloops⟩

/-- The bound of the outer loop is in no body, and a scene around the inner loop does not count. -/
example (bound value : Foreign) :
    let inner : Stmt := .loop (.foreign value) [.animation [.foreign value] .start] .start
    (Stmt.loop (.foreign bound) [.scene "a" [inner] .start] .start).strays =
      [⟨bound, 0⟩, ⟨value, 1⟩, ⟨value, 2⟩] := rfl

/-- No two routines of a program have the same name. Whether the program is written to its end or a
    foreign value stops it, its draft holds one name for each routine that was opened, in the order
    in which they are opened, and for all routines if there is a script. The names differ. Each is
    the base of its routine, or the base with the least number from two on with which it was not
    taken by a routine before; the search for it ends after at most as many steps as there are names
    taken. And under its name each routine is opened in the lines of the script. -/
theorem routines_named_apart (p : Program) :
    (∃ given : List (Routine × String),
      (draftOf p).routines = given.map Prod.snd ∧ (given.map Prod.snd).Nodup ∧
      given.map Prod.fst <+: Stmt.allRoutines 1 p.body ∧
      (∀ script, generate p = .ok script →
        given.map Prod.fst = Stmt.allRoutines 1 p.body ∧
        script = preamble ++ (draftOf p).text) ∧
      (∀ before r name after, given = before ++ (r, name) :: after →
        IsFresh (before.map Prod.snd) r.base name) ∧
      (given.map fun entry => entry.1.opening entry.2).Sublist (draftOf p).lines) ∧
    ∀ taken base, ∃ n, n ≤ taken.length ∧ (∀ m, m < n → candidate base m ∈ taken) ∧
      candidate base n ∉ taken ∧ freshName taken base = candidate base n := by
  refine ⟨?_, freshName_eq_candidate⟩
  obtain ⟨done, hdone, ⟨-, lines, given, hlines, hnames, rfl, hgiven, hopened⟩, hscript⟩ :=
    draftOf_grown p
  refine ⟨given, hnames, hgiven.nodup.1, hdone, hscript, ?_, ?_⟩
  · rintro before r name after rfl
    exact hgiven.isFresh
  · rw [hlines]
    exact hopened

/-- The second routine of one scene takes the name of another, which comes later and inside it. -/
example : (draftOf ⟨[.scene "s" [] .start, .scene "s" [.scene "s_2" [] .start] .start,
    .scene "s" [] .start], .start⟩).routines =
      ["scene_s", "scene_s_2", "scene_s_2_2", "scene_s_3"] := by decide +kernel

end Storyboard
