/-
  Storyboard.Proofs.Scope.Restoring

  What steps leave of the frames of a scope. Between a frame's opening and the
  closing that belongs to it, the frames below it are out of reach: every step
  works on the innermost frame, and that is one of those opened since
  (`Above`, `step_above`, `run_above`). So a run that ends with the closing gives
  back the scope it began with.

  While nothing is closed, a look-up can only change by a declaration of the very
  name that is new in the innermost frame (`lookup_step_declare`, `lookup_run`).
-/
import Storyboard.Scope.Step

namespace Storyboard.Scope

variable {scope outer : Scope}

-- ============================================================================
-- Frames
-- ============================================================================

/-- A scope with the frames of another and at least one more. -/
def Above (outer scope : Scope) : Prop :=
  ∃ own inner, scope.frames = own :: (inner ++ outer.frames)

theorem above_enter (scope : Scope) : Above scope scope.enter := ⟨[], [], rfl⟩

section Innermost

variable {own : Frame} {others : List Frame} (h : scope.frames = own :: others)
include h

/-- A name that the innermost frame has already stays as it is. -/
theorem step_declare_of_some {symbol previous : Symbol}
    (hfind : own.find? symbol.name = some previous) : (scope.step (.declare symbol)).2 = scope := by
  simp only [step, declare, h, hfind]

/-- A name that is new is put into the innermost frame. -/
theorem step_declare_of_none {symbol : Symbol} (hfind : own.find? symbol.name = none) :
    (scope.step (.declare symbol)).2 = ⟨(symbol :: own) :: others⟩ := by
  simp only [step, declare, h, hfind]

/-- Declaring changes the innermost frame only, if anything. -/
theorem exists_frames_step_declare (symbol : Symbol) :
    ∃ own', (scope.step (.declare symbol)).2.frames = own' :: others := by
  cases hfind : own.find? symbol.name with
  | some previous => exact ⟨own, by rw [step_declare_of_some h hfind, h]⟩
  | none => exact ⟨symbol :: own, by rw [step_declare_of_none h hfind]⟩

theorem step_leave_frames : (scope.step .leave).2 = ⟨others⟩ := by
  simp only [step, leave, h]

end Innermost

/-- A step that does not come down to the other scope's depth leaves its frames alone. -/
theorem step_above {next : Step} (h : Above outer scope)
    (hdepth : outer.depth < (scope.step next).2.depth) : Above outer (scope.step next).2 := by
  obtain ⟨own, inner, hframes⟩ := h
  cases next with
  | enter => exact ⟨[], own :: inner, congrArg (List.cons []) hframes⟩
  | lookup name => exact ⟨own, inner, hframes⟩
  | declare symbol =>
    obtain ⟨own', hstep⟩ := exists_frames_step_declare hframes symbol
    exact ⟨own', inner, hstep⟩
  | leave =>
    rw [step_leave_frames hframes] at hdepth ⊢
    cases inner with
    | nil => exact absurd hdepth (Nat.lt_irrefl _)
    | cons own inner => exact ⟨own, inner, rfl⟩

theorem run_cons (scope : Scope) (next : Step) (steps : List Step) :
    scope.run (next :: steps) = (scope.step next).2.run steps := rfl

theorem run_append (scope : Scope) (steps more : List Step) :
    scope.run (steps ++ more) = (scope.run steps).run more := List.foldl_append

/-- So does a run that never comes down to that depth. -/
theorem run_above {steps : List Step} (h : Above outer scope)
    (hdepth : ∀ n ≤ steps.length, outer.depth < (scope.run (steps.take n)).depth) :
    Above outer (scope.run steps) := by
  induction steps generalizing scope with
  | nil => exact h
  | cons next steps ih =>
    refine ih (step_above h (hdepth 1 (Nat.le_add_left 1 _))) fun n hn => ?_
    exact hdepth (n + 1) (Nat.succ_le_succ hn)

/-- Closing the one frame that a scope has more than another gives the other. -/
theorem step_leave_eq (h : Above outer scope) (hdepth : (scope.step .leave).2.depth = outer.depth) :
    (scope.step .leave).2 = outer := by
  obtain ⟨own, inner, hframes⟩ := h
  rw [step_leave_frames hframes] at hdepth ⊢
  have hlength : (inner ++ outer.frames).length = outer.frames.length := hdepth
  rw [List.length_append] at hlength
  rw [List.length_eq_zero_iff.mp (by omega : inner.length = 0), List.nil_append]

/-- Steps between the opening of a frame and the closing that belongs to it. -/
theorem run_enter_leave {steps : List Step}
    (habove : ∀ n ≤ steps.length, scope.depth < (scope.run (.enter :: steps.take n)).depth)
    (hback : (scope.run (.enter :: steps ++ [.leave])).depth = scope.depth) :
    scope.run (.enter :: steps ++ [.leave]) = scope := by
  rw [run_append] at hback ⊢
  have hrun : Above scope (scope.enter.run steps) := run_above (above_enter scope) habove
  exact step_leave_eq hrun hback

-- ============================================================================
-- Look-ups
-- ============================================================================

/-- A name that the innermost frame does not have, so that it can be declared there. -/
def Admits (scope : Scope) (name : String) : Prop :=
  scope.frames.head?.map (fun own => own.find? name) = some none

instance (scope : Scope) (name : String) : Decidable (scope.Admits name) :=
  inferInstanceAs (Decidable (_ = _))

/-- Declaring a symbol changes what its own name stands for, if the innermost frame does not have
    the name, and nothing else. -/
theorem lookup_step_declare (scope : Scope) (symbol : Symbol) (name : String) :
    (scope.step (.declare symbol)).2.lookup name =
      if name = symbol.name ∧ scope.Admits name then some symbol else scope.lookup name := by
  obtain ⟨_ | ⟨own, others⟩⟩ := scope
  · exact (if_neg fun hown => Option.some_ne_none _ hown.2.symm).symm
  cases hfind : own.find? symbol.name with
  | some previous =>
    rw [step_declare_of_some rfl hfind, if_neg]
    rintro ⟨rfl, hnew⟩
    exact Option.some_ne_none previous (hfind.symm.trans (Option.some.inj hnew))
  | none =>
    rw [step_declare_of_none rfl hfind]
    by_cases hname : name = symbol.name
    · subst hname
      rw [if_pos ⟨rfl, congrArg some hfind⟩]
      simp only [lookup, List.findSome?_cons, Frame.find?, List.find?_cons, decide_true]
    · have hskip : Frame.find? (symbol :: own) name = own.find? name :=
        List.find?_cons_of_neg (by simpa using Ne.symm hname)
      rw [if_neg fun hown => hname hown.1]
      simp only [lookup, List.findSome?_cons, hskip]

/-- In a run without a closing, a look-up gives what it gave before, or else a symbol that was
    declared in the run when the innermost frame did not have its name. -/
theorem lookup_run {steps : List Step} (h : .leave ∉ steps) (name : String) :
    (scope.run steps).lookup name = scope.lookup name ∨
      ∃ before symbol after, steps = before ++ .declare symbol :: after ∧ symbol.name = name ∧
        (scope.run before).Admits name ∧ (scope.run steps).lookup name = some symbol := by
  induction steps generalizing scope with
  | nil => exact .inl rfl
  | cons next steps ih =>
    obtain ⟨hnext, hsteps⟩ := not_or.mp (mt List.mem_cons.mpr h)
    rw [run_cons]
    rcases @ih (scope.step next).2 hsteps with hsame | ⟨before, symbol, after, rfl, hnew⟩
    · cases next with
      | leave => exact absurd rfl hnext
      | enter | lookup => exact .inl hsame
      | declare symbol =>
        rw [lookup_step_declare] at hsame
        split at hsame
        · rename_i hown
          exact .inr ⟨[], symbol, steps, rfl, hown.1.symm, hown.2, hsame⟩
        · exact .inl hsame
    · exact .inr ⟨next :: before, symbol, after, rfl, hnew⟩

/-- Frames are restored: steps that begin with the opening of a frame, end with the closing that
    belongs to it and stay above the depth at the start in between give back the whole scope, and
    with it every look-up. And while nothing is closed, a look-up changes only by a declaration of
    its name that is new in the innermost frame; such a declaration does change it, and no other
    look-up. -/
theorem frames_restored (scope : Scope) (steps : List Step) :
    ((∀ n ≤ steps.length, scope.depth < (scope.run (.enter :: steps.take n)).depth) →
      (scope.run (.enter :: steps ++ [.leave])).depth = scope.depth →
      (scope.run (.enter :: steps ++ [.leave])).frames = scope.frames ∧
        ∀ name, (scope.run (.enter :: steps ++ [.leave])).lookup name = scope.lookup name) ∧
    (.leave ∉ steps → ∀ name, (scope.run steps).lookup name = scope.lookup name ∨
      ∃ before symbol after, steps = before ++ .declare symbol :: after ∧ symbol.name = name ∧
        (scope.run before).Admits name ∧ (scope.run steps).lookup name = some symbol) ∧
    ∀ symbol name, (scope.step (.declare symbol)).2.lookup name =
      if name = symbol.name ∧ scope.Admits name then some symbol else scope.lookup name := by
  refine ⟨fun habove hback => ?_, fun hopen name => lookup_run hopen name,
    lookup_step_declare scope⟩
  rw [run_enter_leave habove hback]
  exact ⟨rfl, fun _ => rfl⟩

/-- A frame with `a`; in a second one, opened above it, `a` is declared anew, then a third time in
    a frame above that, where a fourth declaration clashes. After both closings `a` is what it
    was. -/
theorem frames_restored_sample :
    let global : Symbol := ⟨"a", .binding, ⟨1, 1⟩⟩
    let scope : Scope := ⟨[[global]]⟩
    let steps : List Step :=
      [.declare ⟨"a", .parameter, ⟨2, 1⟩⟩, .enter, .declare ⟨"a", .function, ⟨3, 1⟩⟩,
        .declare ⟨"a", .binding, ⟨4, 1⟩⟩, .lookup "a", .leave, .declare ⟨"b", .binding, ⟨5, 1⟩⟩]
    (∀ n ≤ steps.length, scope.depth < (scope.run (.enter :: steps.take n)).depth) ∧
      (scope.run (.enter :: steps)).lookup "a" = some ⟨"a", .parameter, ⟨2, 1⟩⟩ ∧
      (scope.run (.enter :: steps ++ [.leave])).frames = [[global]] ∧
      (scope.run (.enter :: steps ++ [.leave])).lookup "a" = some global := by
  intro global scope steps
  have habove : ∀ n ≤ steps.length, scope.depth < (scope.run (.enter :: steps.take n)).depth := by
    decide
  obtain ⟨hframes, hlookup⟩ := (frames_restored scope steps).1 habove rfl
  exact ⟨habove, by decide, hframes, hlookup "a"⟩

end Storyboard.Scope
