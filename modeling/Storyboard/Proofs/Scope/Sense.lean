/-
  Storyboard.Proofs.Scope.Sense

  The scope check does not look at places.

  Of a scope only the names in its frames count, not where they were declared. The
  check of a tree and that of the bare tree are followed side by side: from states with
  the same names and as many errors, either both come to states that are alike again, or
  both meet a foreign value (`Check.Alike`). So two programs that are the same, places
  apart, have as many naming errors (`length_analyze_eq`).
-/
import Storyboard.Proofs.Tree.Bare
import Storyboard.Proofs.Tree.Induction

namespace Storyboard

-- ============================================================================
-- Scopes
-- ============================================================================

/-- The names in each frame of a scope. -/
def Scope.names (scope : Scope) : List (List String) := scope.frames.map (List.map Symbol.name)

/-- A frame has a symbol for each of its names. -/
theorem Frame.isSome_find? (frame : Frame) (name : String) :
    (frame.find? name).isSome = (frame.map Symbol.name).contains name := by
  induction frame with
  | nil => rfl
  | cons symbol frame ih =>
    rw [List.map_cons, List.contains_cons, ← ih, Frame.find?, Frame.find?, List.find?_cons]
    by_cases hname : symbol.name = name
    · simp [hname]
    · simp [hname, Ne.symm hname]

/-- A name is found in a scope if one of the frames has it. -/
theorem Scope.isSome_lookup (scope : Scope) (name : String) :
    (scope.lookup name).isSome = scope.names.any (List.contains · name) := by
  rw [Scope.lookup, Scope.names]
  generalize scope.frames = frames
  induction frames with
  | nil => rfl
  | cons frame frames ih =>
    rw [List.map_cons, List.any_cons, ← ih, ← Frame.isSome_find?, List.findSome?_cons]
    cases frame.find? name with
    | none => rfl
    | some symbol => rfl

namespace Check

-- ============================================================================
-- Two checks
-- ============================================================================

/-- Two states with the same names in their frames and as many errors. -/
structure State.Alike (s t : State) : Prop where
  names : s.scope.names = t.scope.names
  errors : s.errors.length = t.errors.length

/-- Two checks that end alike. -/
inductive Ends : EStateM.Result Fault State Unit → EStateM.Result Fault State Unit → Prop where
  | ok {s t} : s.Alike t → Ends (.ok () s) (.ok () t)
  | error {fault fault' s t} : Ends (.error fault s) (.error fault' t)

/-- Steps of two checks that end alike if they begin alike. -/
def Alike (m m' : Checker Unit) : Prop := ∀ s t, s.Alike t → Ends (m s) (m' t)

/-- One more error on each side. -/
theorem report_alike (error error' : NamingError) : Alike (report error) (report error') := by
  intro s t hs
  refine .ok ⟨hs.names, ?_⟩
  rw [List.length_append, List.length_append, hs.errors]
  rfl

namespace Alike

theorem pure : Alike (Pure.pure ()) (Pure.pure ()) := fun _ _ hs => .ok hs

theorem throw (fault fault' : Fault) : Alike (MonadExcept.throw fault) (MonadExcept.throw fault') :=
  fun _ _ _ => .error

theorem bind {m m' n n' : Checker Unit} (hm : Alike m m') (hn : Alike n n') :
    Alike (do m; n) (do m'; n') := by
  intro s t hs
  change Ends (EStateM.bind m (fun _ => n) s) (EStateM.bind m' (fun _ => n') t)
  unfold EStateM.bind
  have hends := hm s t hs
  generalize m s = first at hends ⊢
  generalize m' t = second at hends ⊢
  cases hends with
  | ok hnext => exact hn _ _ hnext
  | error => exact .error

/-- Steps for the members of a list and for what becomes of them. -/
theorem forM {α : Type} {f : α → Checker Unit} {g : α → α} (h : ∀ a, Alike (f a) (f (g a)))
    (as : List α) : Alike (as.forM f) ((as.map g).forM f) := by
  induction as with
  | nil => exact pure
  | cons a as ih => exact (h a).bind ih

theorem enter : Alike Check.enter Check.enter :=
  fun _ _ hs => .ok ⟨congrArg ([] :: ·) hs.names, hs.errors⟩

theorem leave : Alike Check.leave Check.leave := by
  intro s t hs
  have hnames := hs.names
  obtain ⟨⟨frames⟩, errors⟩ := s
  obtain ⟨⟨frames'⟩, errors'⟩ := t
  cases frames with
  | nil =>
    have hnil : frames' = [] := List.map_eq_nil_iff.mp hnames.symm
    subst hnil
    exact .error
  | cons frame frames =>
    cases frames' with
    | nil => cases hnames
    | cons frame' frames' => exact .ok ⟨(List.cons.inj hnames).2, hs.errors⟩

/-- A name is new in both frames or in none. -/
theorem declare (kind : SymbolKind) (id : Identifier) :
    Alike (Check.declare kind id) (Check.declare kind id.bare) := by
  intro s t hs
  have hnames := hs.names
  obtain ⟨⟨frames⟩, errors⟩ := s
  obtain ⟨⟨frames'⟩, errors'⟩ := t
  cases frames with
  | nil =>
    have hnil : frames' = [] := List.map_eq_nil_iff.mp hnames.symm
    subst hnil
    exact .error
  | cons frame frames =>
    cases frames' with
    | nil => cases hnames
    | cons frame' frames' =>
      obtain ⟨hframe, hframes⟩ := List.cons.inj hnames
      -- Whether a name is there depends on the names of a frame only, and these are the same.
      have hfound : (frame.find? id.name).isSome = (frame'.find? id.name).isSome := by
        rw [Frame.isSome_find?, Frame.isSome_find?, hframe]
      unfold Check.declare Scope.declare
      dsimp only [Identifier.bare]
      cases hfirst : frame.find? id.name with
      | none =>
        cases hsecond : frame'.find? id.name with
        | none =>
          exact .ok ⟨List.cons_eq_cons.mpr ⟨congrArg (id.name :: ·) hframe, hframes⟩, hs.errors⟩
        | some previous' =>
          rw [hfirst, hsecond] at hfound
          cases hfound
      | some previous =>
        cases hsecond : frame'.find? id.name with
        | none =>
          rw [hfirst, hsecond] at hfound
          cases hfound
        | some previous' => exact report_alike _ _ _ _ hs

/-- A name is found in both scopes or in none. -/
theorem resolve (id : Identifier) : Alike (Check.resolve id) (Check.resolve id.bare) := by
  intro s t hs
  have hfound : (s.scope.lookup id.name).isSome = (t.scope.lookup id.name).isSome := by
    rw [Scope.isSome_lookup, Scope.isSome_lookup, hs.names]
  unfold Check.resolve
  dsimp only [Identifier.bare]
  cases hfirst : s.scope.lookup id.name with
  | none =>
    cases hsecond : t.scope.lookup id.name with
    | none => exact report_alike _ _ _ _ hs
    | some symbol =>
      rw [hfirst, hsecond] at hfound
      cases hfound
  | some symbol =>
    cases hsecond : t.scope.lookup id.name with
    | none =>
      rw [hfirst, hsecond] at hfound
      cases hfound
    | some symbol' => exact .ok hs

end Alike

end Check

-- ============================================================================
-- Bare trees
-- ============================================================================

/-- A leaf without its place. -/
def Leaf.bare : Leaf → Leaf
  | .name id => .name id.bare
  | .foreign value => .foreign ⟨value.typeName, none⟩

namespace Expr

theorem allLeaves_map_bare {es : List Expr}
    (h : ∀ e ∈ es, e.bare.leaves = e.leaves.map Leaf.bare) :
    allLeaves (es.map bare) = (allLeaves es).map Leaf.bare := by
  induction es with
  | nil => rfl
  | cons e es ih =>
    obtain ⟨he, hes⟩ := List.forall_mem_cons.mp h
    rw [List.map_cons, allLeaves, allLeaves, List.map_append, he, ih hes]

theorem pointLeaves_map_bare {points : List (Point Expr)}
    (h : ∀ point ∈ points, point.x.bare.leaves = point.x.leaves.map Leaf.bare ∧
      point.y.bare.leaves = point.y.leaves.map Leaf.bare) :
    pointLeaves (points.map Point.bare) = (pointLeaves points).map Leaf.bare := by
  induction points with
  | nil => rfl
  | cons point points ih =>
    obtain ⟨⟨hx, hy⟩, hpoints⟩ := List.forall_mem_cons.mp h
    rw [List.map_cons, Point.bare, pointLeaves, pointLeaves, List.map_append, List.map_append,
      hx, hy, ih hpoints]

/-- The leaves of a bare expression are the bare leaves. -/
theorem leaves_bare (e : Expr) : e.bare.leaves = e.leaves.map Leaf.bare := by
  induction e using Expr.induction with
  | identifier id => rfl
  | number value place => rfl
  | string value place => rfl
  | color value place => rfl
  | binary operator left right place hleft hright =>
    rw [bare_binary, leaves, leaves, hleft, hright, List.map_append]
  | call callee arguments place hcallee harguments =>
    rw [bare_call, leaves, leaves, hcallee, allLeaves_map_bare harguments, List.map_append]
  | circle x y size fill place hx hy hsize hfill =>
    rw [bare_circle, Point.bare, leaves, leaves, hx, hy, hsize, hfill]
    simp only [List.map_append]
  | rect x y width height fill place hx hy hwidth hheight hfill =>
    rw [bare_rect, Point.bare, leaves, leaves, hx, hy, hwidth, hheight, hfill]
    simp only [List.map_append]
  | line x₁ y₁ x₂ y₂ fill place hx₁ hy₁ hx₂ hy₂ hfill =>
    rw [bare_line, Point.bare, Point.bare, leaves, leaves, hx₁, hy₁, hx₂, hy₂, hfill]
    simp only [List.map_append]
  | triangle corners fill place hcorners hfill =>
    rw [bare_triangle, leaves, leaves, pointLeaves_map_bare hcorners, hfill, List.map_append]
  | foreign value => rfl

end Expr

namespace Check

/-- The functions of a bare list of statements have the bare names. -/
theorem functionNames_bareAll (body : List Stmt) :
    functionNames (Stmt.bareAll body) = (functionNames body).map Identifier.bare := by
  induction body with
  | nil => rfl
  | cons stmt body ih =>
    unfold functionNames at ih ⊢
    rw [Stmt.bareAll_cons, List.filterMap_cons, List.filterMap_cons, ih]
    cases stmt with
    | giveBack value place => cases value <;> rfl
    | branch condition thenBody elseBody place => cases elseBody <;> rfl
    | _ => rfl

theorem leaf_alike (l : Leaf) : Alike (leaf l) (leaf l.bare) := by
  cases l with
  | name id => exact .resolve id
  | foreign value => exact .throw _ _

theorem expression_alike (e : Expr) : Alike (expression e) (expression e.bare) := by
  rw [expression, expression, Expr.leaves_bare]
  exact .forM leaf_alike e.leaves

theorem hoist_alike (body : List Stmt) : Alike (hoist body) (hoist (Stmt.bareAll body)) := by
  rw [hoist, hoist, functionNames_bareAll]
  exact .forM (Alike.declare .function) _

theorem each_alike {body : List Stmt}
    (h : ∀ stmt ∈ body, Alike (statement stmt) (statement stmt.bare)) :
    Alike (each body) (each (Stmt.bareAll body)) := by
  induction body with
  | nil => exact .pure
  | cons stmt body ih =>
    obtain ⟨hstmt, hbody⟩ := List.forall_mem_cons.mp h
    exact .bind hstmt (ih hbody)

/-- The check of a statement and that of the bare statement go alike. -/
theorem statement_alike (stmt : Stmt) : Alike (statement stmt) (statement stmt.bare) := by
  induction stmt using Stmt.induction with
  | binding name value place => exact .bind (expression_alike value) (.declare .binding name)
  | function name parameters body place ih =>
    exact .bind .enter (.bind (.forM (Alike.declare .parameter) parameters)
      (.bind (hoist_alike body) (.bind (each_alike ih) .leave)))
  | giveBack value place =>
    cases value with
    | none => exact .pure
    | some value => exact expression_alike value
  | plain condition thenBody place ih =>
    exact .bind (expression_alike condition) (.bind (hoist_alike thenBody) (each_alike ih))
  | otherwise condition thenBody elseBody place ihThen ihElse =>
    exact .bind (expression_alike condition) (.bind (hoist_alike thenBody)
      (.bind (each_alike ihThen) (.bind (hoist_alike elseBody) (each_alike ihElse))))
  | loop times body place ih =>
    exact .bind (expression_alike times) (.bind (hoist_alike body) (each_alike ih))
  | animation commands place => exact .pure
  | scene name body place ih =>
    exact .bind .enter (.bind (hoist_alike body) (.bind (each_alike ih) .leave))
  | expression value place => exact expression_alike value
  | foreign value => exact .throw _ _

end Check

/-- The naming errors of a program are those that a check of its own ends with. -/
theorem analyze_eq_ok_iff {p : Program} {found : List NamingError} :
    analyze p = .ok found ↔
      ∃ t, (do Check.enter; Check.block p.body; Check.leave) Check.State.fresh = .ok () t ∧
        t.errors = found := by
  have hfresh : { Check.State.fresh with scope := .empty } = Check.State.fresh := rfl
  unfold analyze Check.program
  rw [hfresh]
  cases (do Check.enter; Check.block p.body; Check.leave) Check.State.fresh with
  | ok _ t => simp [Check.State.fresh]
  | error fault t => simp

/-- A program has as many naming errors as the bare program. -/
theorem analyze_bare {p : Program} {found : List NamingError} (h : analyze p = .ok found) :
    ∃ found', analyze p.bare = .ok found' ∧ found.length = found'.length := by
  have hblock : Check.Alike (do Check.enter; Check.block p.body; Check.leave)
      (do Check.enter; Check.block p.bare.body; Check.leave) :=
    .bind .enter (.bind (.bind (Check.hoist_alike p.body)
      (Check.each_alike fun stmt _ => Check.statement_alike stmt)) .leave)
  obtain ⟨t, hrun, rfl⟩ := analyze_eq_ok_iff.mp h
  have hends := hblock .fresh .fresh ⟨rfl, rfl⟩
  rw [hrun] at hends
  generalize hrun' : (do Check.enter; Check.block p.bare.body; Check.leave) Check.State.fresh = run'
    at hends
  cases hends with
  | ok ht => exact ⟨_, analyze_eq_ok_iff.mpr ⟨_, hrun', rfl⟩, ht.errors⟩

/-- Programs that are the same, places apart, have as many naming errors. -/
theorem length_analyze_eq {p p' : Program} {found found' : List NamingError}
    (hbare : p.bare = p'.bare) (h : analyze p = .ok found) (h' : analyze p' = .ok found') :
    found.length = found'.length := by
  obtain ⟨shared, hshared, hlength⟩ := analyze_bare h
  obtain ⟨shared', hshared', hlength'⟩ := analyze_bare h'
  rw [hbare, hshared'] at hshared
  cases hshared
  rw [hlength, hlength']

end Storyboard
