/-
  Storyboard.Proofs.Scope.Memory

  The scope check has no memory. Errors found before are never looked at: a step with
  earlier errors does what it does without them, and its own errors come behind them,
  also when a foreign value stops it halfway (`Steady.behind`). Frames are opened and
  closed in pairs, so a step that comes to its end is back at the depth where it began
  (`Steady.depth`). A program is checked in a scope of its own, so nothing that earlier
  checks left behind shows in what it gives (`program_eq`, `program_cases`).
-/
import Storyboard.Proofs.Tree.Induction
import Storyboard.Scope.Check

namespace Storyboard

/-- A declaration leaves the depth as it is. -/
theorem Scope.depth_declare {scope after : Scope} {symbol : Symbol} {previous : Option Symbol}
    (h : scope.declare symbol = .ok (previous, after)) : after.depth = scope.depth := by
  unfold Scope.declare at h
  split at h
  · cases h
  · rename_i frame outer hframes
    split at h
    · cases h
      rfl
    · cases h
      simp only [Scope.depth, hframes, List.length_cons]

namespace Check

-- ============================================================================
-- Earlier errors
-- ============================================================================

/-- A state with errors that were found earlier. -/
def State.behind (before : List NamingError) (s : State) : State :=
  { s with errors := before ++ s.errors }

/-- An end of a check with errors that were found earlier. -/
def endBehind {α : Type} (before : List NamingError) :
    EStateM.Result Fault State α → EStateM.Result Fault State α
  | .ok a s => .ok a (s.behind before)
  | .error fault s => .error fault (s.behind before)

/-- A step that does not look at earlier errors, and that opens so many more frames than it
    closes if it comes to its end. -/
structure Steady (opened : Int) (m : Checker Unit) : Prop where
  behind : ∀ before s, m (s.behind before) = endBehind before (m s)
  depth : ∀ s t, m s = .ok () t → (t.scope.depth : Int) = s.scope.depth + opened

theorem report_behind (error : NamingError) (before : List NamingError) (s : State) :
    report error (s.behind before) = endBehind before (report error s) := by
  simp only [report, endBehind, State.behind, List.append_assoc]

namespace Steady

theorem pure : Steady 0 (Pure.pure ()) where
  behind _ _ := rfl
  depth s t h := by
    cases h
    exact (Int.add_zero _).symm

theorem throw (fault : Fault) : Steady 0 (MonadExcept.throw fault) where
  behind _ _ := rfl
  depth s t h := by cases h

theorem bind {i j : Int} {m n : Checker Unit} (hm : Steady i m) (hn : Steady j n) :
    Steady (i + j) (do m; n) where
  behind before s := by
    change EStateM.bind m (fun _ => n) _ = endBehind before (EStateM.bind m (fun _ => n) s)
    unfold EStateM.bind
    rw [hm.behind]
    cases m s with
    | ok _ t => exact hn.behind before t
    | error fault t => rfl
  depth s t h := by
    change EStateM.bind m (fun _ => n) s = _ at h
    unfold EStateM.bind at h
    cases hrun : m s with
    | ok _ u =>
      rw [hrun] at h
      rw [hn.depth u t h, hm.depth s u hrun, Int.add_assoc]
    | error fault u =>
      rw [hrun] at h
      cases h

/-- Steps for the members of a list, each at the depth of the others. -/
theorem forM {α : Type} {f : α → Checker Unit} (h : ∀ a, Steady 0 (f a)) (as : List α) :
    Steady 0 (as.forM f) := by
  induction as with
  | nil => exact pure
  | cons a as ih => exact (h a).bind ih

theorem enter : Steady 1 Check.enter where
  behind _ _ := rfl
  depth s t h := by
    cases h
    rfl

theorem leave : Steady (-1) Check.leave where
  behind before s := by
    unfold Check.leave State.behind
    cases s.scope.leave <;> rfl
  depth s t h := by
    obtain ⟨⟨frames⟩, errors⟩ := s
    cases frames with
    | nil => cases h
    | cons frame frames =>
      cases h
      simp only [Scope.depth, List.length_cons]
      omega

theorem declare (kind : SymbolKind) (id : Identifier) : Steady 0 (Check.declare kind id) where
  behind before s := by
    unfold Check.declare
    have hscope : (s.behind before).scope = s.scope := rfl
    rw [hscope]
    -- Only the frames are asked whether the name is new; the errors found before are not looked at.
    cases s.scope.declare ⟨id.name, kind, id.location⟩ with
    | error fault => rfl
    | ok outcome =>
      obtain ⟨previous, after⟩ := outcome
      cases previous with
      | none => rfl
      | some previous => exact report_behind _ before s
  depth s t h := by
    unfold Check.declare at h
    cases hdeclare : s.scope.declare ⟨id.name, kind, id.location⟩ with
    | error fault =>
      rw [hdeclare] at h
      cases h
    | ok outcome =>
      obtain ⟨previous, after⟩ := outcome
      rw [hdeclare] at h
      have hdepth := Scope.depth_declare hdeclare
      cases previous with
      | none =>
        cases h
        simp only [hdepth, Int.add_zero]
      | some previous =>
        cases h
        simp only [Int.add_zero]

theorem resolve (id : Identifier) : Steady 0 (Check.resolve id) where
  behind before s := by
    unfold Check.resolve
    have hscope : (s.behind before).scope = s.scope := rfl
    rw [hscope]
    cases s.scope.lookup id.name with
    | some symbol => rfl
    | none => exact report_behind _ before s
  depth s t h := by
    unfold Check.resolve at h
    cases hlookup : s.scope.lookup id.name with
    | some symbol =>
      rw [hlookup] at h
      cases h
      exact (Int.add_zero _).symm
    | none =>
      rw [hlookup] at h
      cases h
      exact (Int.add_zero _).symm

theorem expression (e : Expr) : Steady 0 (Check.expression e) := by
  refine forM (fun l => ?_) e.leaves
  cases l with
  | name id => exact resolve id
  | foreign value => exact throw _

theorem hoist (body : List Stmt) : Steady 0 (Check.hoist body) := forM (declare .function) _

theorem each {body : List Stmt} (h : ∀ stmt ∈ body, Steady 0 (statement stmt)) :
    Steady 0 (Check.each body) := by
  induction body with
  | nil => exact pure
  | cons stmt body ih =>
    obtain ⟨hstmt, hbody⟩ := List.forall_mem_cons.mp h
    exact hstmt.bind (ih hbody)

/-- A list of statements with its functions. -/
theorem block {body : List Stmt} (h : ∀ stmt ∈ body, Steady 0 (statement stmt)) :
    Steady 0 (Check.block body) := (hoist body).bind (each h)

end Steady

-- ============================================================================
-- Trees
-- ============================================================================

/-- A statement is checked at one depth, whatever errors were found before. -/
theorem statement_steady (stmt : Stmt) : Steady 0 (statement stmt) := by
  induction stmt using Stmt.induction with
  | binding name value place => exact (Steady.expression value).bind (.declare .binding name)
  | function name parameters body place ih =>
    -- The frame that is entered is left again, so the changes of depth add up to none.
    have hbody : Steady (1 + (0 + (0 + (0 + -1))))
        (statement (.function name parameters body place)) :=
      .bind .enter (.bind (.forM (Steady.declare .parameter) parameters)
        (.bind (.hoist body) (.bind (.each ih) .leave)))
    exact hbody
  | giveBack value place =>
    cases value with
    | none => exact .pure
    | some value => exact .expression value
  | plain condition thenBody place ih => exact (Steady.expression condition).bind (.block ih)
  | otherwise condition thenBody elseBody place ihThen ihElse =>
    exact (Steady.expression condition).bind ((Steady.hoist thenBody).bind
      ((Steady.each ihThen).bind (.block ihElse)))
  | loop times body place ih => exact (Steady.expression times).bind (.block ih)
  | animation commands place => exact .pure
  | scene name body place ih =>
    have hbody : Steady (1 + (0 + (0 + -1))) (statement (.scene name body place)) :=
      .bind .enter (.bind (.hoist body) (.bind (.each ih) .leave))
    exact hbody
  | expression value place => exact .expression value
  | foreign value => exact .throw _

/-- A program is checked in a frame of its own. -/
theorem whole_steady (p : Program) : Steady 0 (do enter; block p.body; leave) := by
  have hwhole : Steady (1 + (0 + -1)) (do enter; block p.body; leave) :=
    .bind .enter (.bind (.block fun stmt _ => statement_steady stmt) .leave)
  exact hwhole

-- ============================================================================
-- Programs
-- ============================================================================

/-- A check of a program that earlier checks went before is a check of its own, with its errors
    behind those found earlier. -/
theorem program_eq (p : Program) (s : State) :
    program p s = endBehind s.errors (program p .fresh) := by
  have hwhole := (whole_steady p).behind s.errors .fresh
  have hstate : State.behind s.errors .fresh = { s with scope := .empty } := by
    simp [State.behind, State.fresh]
  have hfresh : { State.fresh with scope := .empty } = State.fresh := rfl
  unfold program
  rw [← hstate, hwhole, hfresh]
  cases (do enter; block p.body; leave) State.fresh with
  | ok _ t => simp [endBehind, State.behind, State.fresh]
  | error fault t => rfl

/-- A check of a program in any state gives what a check of its own gives. If this is a list of
    errors, then all frames are closed again, and just these errors were added. -/
theorem program_cases (p : Program) (s : State) :
    (∃ fault t, analyze p = .error fault ∧ program p s = .error fault t) ∨
      ∃ found t, analyze p = .ok found ∧ program p s = .ok found t ∧
        t.scope.depth = 0 ∧ t.errors = s.errors ++ found := by
  have hfresh : { State.fresh with scope := .empty } = State.fresh := rfl
  rw [program_eq p s]
  unfold analyze program
  rw [hfresh]
  cases hrun : (do enter; block p.body; leave) State.fresh with
  | error fault t => exact .inl ⟨fault, _, rfl, rfl⟩
  | ok _ t =>
    have hdepth := (whole_steady p).depth _ _ hrun
    refine .inr ⟨_, _, rfl, rfl, ?_, rfl⟩
    exact Int.ofNat_inj.mp hdepth

end Check

end Storyboard
