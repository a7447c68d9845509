/-
  Storyboard.Proofs.Scope.Actions

  The scope check as a list of actions: open a frame, close it, declare a name, look
  a name up. For a tree without foreign values the check performs exactly the actions
  of the tree's timeline, in that order (`block_eq_perform`).

  The state of the check is known at every point of it: each open frame holds the
  first declarations of what happened in it so far (`Frame.ofHappenings`), so that a
  look-up in a frame is `firstDeclaration?` of what happened before.
-/
import Storyboard.Proofs.Scope.Timeline
import Storyboard.Proofs.Tree.Bare
import Storyboard.Proofs.Tree.Induction
import Storyboard.Scope.Check

namespace Storyboard

-- ============================================================================
-- Names and leaves
-- ============================================================================

namespace Expr

/-- The native leaves among some leaves are the names. -/
theorem allLeaves_eq_map {es : List Expr}
    (h : ∀ e ∈ es, e.native = true → e.leaves = e.names.map .name)
    (hnative : es.all native = true) : allLeaves es = (allNames es).map .name := by
  induction es with
  | nil => rfl
  | cons e es ih =>
    obtain ⟨he, hes⟩ := List.forall_mem_cons.mp h
    rw [List.all_cons, Bool.and_eq_true] at hnative
    rw [allLeaves, allNames, he hnative.1, ih hes hnative.2, List.map_append]

/-- The same for points. -/
theorem pointLeaves_eq_map {points : List (Point Expr)}
    (h : ∀ point ∈ points, (point.x.native = true → point.x.leaves = point.x.names.map .name) ∧
      (point.y.native = true → point.y.leaves = point.y.names.map .name))
    (hnative : points.all Point.native = true) :
    pointLeaves points = (pointNames points).map .name := by
  induction points with
  | nil => rfl
  | cons point points ih =>
    obtain ⟨⟨hx, hy⟩, hothers⟩ := List.forall_mem_cons.mp h
    rw [List.all_cons, Bool.and_eq_true, Point.native, Bool.and_eq_true] at hnative
    rw [pointLeaves, pointNames, hx hnative.1.1, hy hnative.1.2, ih hothers hnative.2,
      List.map_append, List.map_append]

/-- In a native expression the check meets its names. -/
theorem leaves_eq_map_names {e : Expr} (h : e.native = true) : e.leaves = e.names.map .name := by
  -- Both lists are in the order of the parts; a foreign value would be a leaf without a name.
  induction e using Expr.induction with
  | identifier | number | string | color => rfl
  | binary operator left right place hleft hright =>
    rw [native_binary, Bool.and_eq_true] at h
    rw [leaves, names, hleft h.1, hright h.2, List.map_append]
  | call callee arguments place hcallee harguments =>
    rw [native_call, Bool.and_eq_true] at h
    rw [leaves, names, hcallee h.1, allLeaves_eq_map harguments h.2, List.map_append]
  | circle x y size fill place hx hy hsize hfill =>
    simp only [native_circle, Point.native, Bool.and_eq_true] at h
    simp only [leaves, names, List.map_append, hx h.1.1.1, hy h.1.1.2, hsize h.1.2, hfill h.2]
  | rect x y width height fill place hx hy hwidth hheight hfill =>
    simp only [native_rect, Point.native, Bool.and_eq_true] at h
    simp only [leaves, names, List.map_append, hx h.1.1.1.1, hy h.1.1.1.2, hwidth h.1.1.2,
      hheight h.1.2, hfill h.2]
  | line x₁ y₁ x₂ y₂ fill place hx₁ hy₁ hx₂ hy₂ hfill =>
    simp only [native_line, Point.native, Bool.and_eq_true] at h
    simp only [leaves, names, List.map_append, hx₁ h.1.1.1, hy₁ h.1.1.2, hx₂ h.1.2.1, hy₂ h.1.2.2,
      hfill h.2]
  | triangle corners fill place hcorners hfill =>
    rw [native_triangle, Bool.and_eq_true] at h
    rw [leaves, names, pointLeaves_eq_map hcorners h.1, hfill h.2, List.map_append]
  | foreign value => cases h

end Expr

-- ============================================================================
-- Actions
-- ============================================================================

/-- What the check does. -/
inductive Check.Action where
  | enter
  | leave
  | declare (kind : SymbolKind) (id : Identifier)
  | resolve (id : Identifier)
  deriving DecidableEq, Inhabited

open Check (Action)

mutual

/-- The actions for a happening. -/
def Happening.actions : Happening → List Action
  | .declares kind id => [.declare kind id]
  | .uses id => [.resolve id]
  | .opens inner => .enter :: (Happening.allActions inner ++ [.leave])
termination_by structural happening => happening

/-- The actions for what happens in a frame. -/
def Happening.allActions : List Happening → List Action
  | [] => []
  | happening :: others => happening.actions ++ Happening.allActions others
termination_by structural happenings => happenings

end

theorem Happening.allActions_append (xs ys : List Happening) :
    Happening.allActions (xs ++ ys) = Happening.allActions xs ++ Happening.allActions ys := by
  induction xs with
  | nil => rfl
  | cons x xs ih => rw [List.cons_append, allActions, allActions, ih, List.append_assoc]

theorem Happening.allActions_map {α : Type} (f : α → Happening) (g : α → Action)
    (h : ∀ a, (f a).actions = [g a]) (as : List α) :
    Happening.allActions (as.map f) = as.map g := by
  induction as with
  | nil => rfl
  | cons a as ih => rw [List.map_cons, allActions, h, ih, List.map_cons, List.singleton_append]

namespace Check

/-- Does one action. -/
def Action.run : Action → Checker Unit
  | .enter => Check.enter
  | .leave => Check.leave
  | .declare kind id => Check.declare kind id
  | .resolve id => Check.resolve id

/-- Does some actions one after the other. -/
def perform (actions : List Action) : Checker Unit := actions.forM Action.run

theorem perform_append (xs ys : List Action) :
    perform (xs ++ ys) = (do perform xs; perform ys) := List.forM_append

/-- Actions that succeed, and then more. -/
theorem perform_append_of_ok {xs ys : List Action} {s t : State} (h : perform xs s = .ok () t) :
    perform (xs ++ ys) s = perform ys t := by
  rw [perform_append]
  change EStateM.bind (perform xs) _ s = _
  rw [EStateM.bind, h]

theorem perform_cons (x : Action) (xs : List Action) :
    perform (x :: xs) = (do x.run; perform xs) := rfl

theorem perform_singleton (x : Action) : perform [x] = x.run := bind_pure_unit

theorem perform_map {α : Type} (f : α → Action) (as : List α) :
    perform (as.map f) = as.forM fun a => (f a).run := List.forM_map

/-- Looking at a native expression is to look its names up. -/
theorem expression_eq_perform {e : Expr} (h : e.native = true) :
    expression e = perform (Happening.allActions e.uses) := by
  rw [expression, Expr.leaves_eq_map_names h, Expr.uses,
    Happening.allActions_map .uses .resolve fun _ => rfl, perform_map]
  exact List.forM_map

/-- Declaring the functions of a list of statements. -/
theorem hoist_eq_perform (body : List Stmt) :
    hoist body = perform (Happening.allActions (Stmt.hoisted body)) := by
  have hnames : functionNames body = body.filterMap Stmt.functionName? := by
    refine congrArg (body.filterMap ·) (funext fun stmt => ?_)
    cases stmt <;> rfl
  rw [hoist, hnames, Stmt.hoisted, Happening.allActions_map (.declares .function)
    (.declare .function) fun _ => rfl, perform_map]
  rfl

/-- Looking at native statements one after the other. -/
theorem each_eq_perform {body : List Stmt}
    (h : ∀ stmt ∈ body, stmt.native = true →
      statement stmt = perform (Happening.allActions stmt.timeline))
    (hnative : Stmt.allNative body = true) :
    each body = perform (Happening.allActions (Stmt.timelines body)) := by
  induction body with
  | nil => rfl
  | cons stmt body ih =>
    obtain ⟨hstmt, hothers⟩ := List.forall_mem_cons.mp h
    rw [Stmt.allNative_cons, Bool.and_eq_true] at hnative
    rw [each, hstmt hnative.1, ih hothers hnative.2, Stmt.timelines,
      Happening.allActions_append, perform_append]

/-- Looking at a native statement is to perform the actions of its timeline. -/
theorem statement_eq_perform {stmt : Stmt} (h : stmt.native = true) :
    statement stmt = perform (Happening.allActions stmt.timeline) := by
  induction stmt using Stmt.induction with
  | binding name value place =>
    rw [statement, expression_eq_perform h, Stmt.timeline, Happening.allActions_append,
      perform_append]
    exact congrArg (perform _ >>= fun _ => ·) (perform_singleton (.declare .binding name)).symm
  | function name parameters body place hbody =>
    -- Parameters are declared in the new frame, before what is hoisted from the body.
    have hparameters : perform (Happening.allActions (parameters.map (.declares .parameter))) =
        parameters.forM (declare .parameter) := by
      rw [Happening.allActions_map (.declares .parameter) (.declare .parameter) fun _ => rfl,
        perform_map]
      rfl
    rw [statement, hoist_eq_perform, each_eq_perform hbody h, Stmt.timeline]
    simp only [Happening.allActions, Happening.actions, Happening.allActions_append, perform_append,
      perform_cons .enter, perform_singleton, hparameters, List.append_nil, bind_assoc]
    rfl
  | giveBack value place =>
    cases value with
    | none => rfl
    | some value => exact expression_eq_perform h
  | plain condition thenBody place hthen =>
    simp only [Stmt.native, Bool.and_eq_true] at h
    rw [statement, expression_eq_perform h.1, hoist_eq_perform, each_eq_perform hthen h.2,
      Stmt.timeline, Happening.allActions_append, Happening.allActions_append, perform_append,
      perform_append]
  | otherwise condition thenBody elseBody place hthen helse =>
    simp only [Stmt.native, Bool.and_eq_true] at h
    rw [statement, expression_eq_perform h.1.1, hoist_eq_perform, hoist_eq_perform,
      each_eq_perform hthen h.1.2, each_eq_perform helse h.2, Stmt.timeline]
    simp only [Happening.allActions_append, perform_append, bind_assoc]
  | loop times body place hbody =>
    simp only [Stmt.native, Bool.and_eq_true] at h
    rw [statement, expression_eq_perform h.1, hoist_eq_perform, each_eq_perform hbody h.2,
      Stmt.timeline, Happening.allActions_append, Happening.allActions_append, perform_append,
      perform_append]
  | animation commands place => rfl
  | scene name body place hbody =>
    rw [statement, hoist_eq_perform, each_eq_perform hbody h, Stmt.timeline]
    simp only [Happening.allActions, Happening.actions, Happening.allActions_append, perform_append,
      perform_cons .enter, perform_singleton, List.append_nil, bind_assoc]
    rfl
  | expression value place => exact expression_eq_perform h
  | foreign value => cases h

/-- Checking a native list of statements is to perform the actions of its timeline. -/
theorem block_eq_perform {body : List Stmt} (h : Stmt.allNative body = true) :
    block body = perform (Happening.allActions (Stmt.hoisted body ++ Stmt.timelines body)) := by
  rw [block, hoist_eq_perform, each_eq_perform (fun _ _ => statement_eq_perform) h,
    Happening.allActions_append, perform_append]

end Check

-- ============================================================================
-- Frames
-- ============================================================================

namespace Frame

/-- A frame after one more happening: a declaration counts if its name is new. -/
def after (frame : Frame) (happening : Happening) : Frame :=
  match happening.declaration? with
  | none => frame
  | some symbol => if (frame.find? symbol.name).isSome then frame else symbol :: frame

/-- The frame in which the given things happened. -/
def ofHappenings (happenings : List Happening) : Frame := happenings.foldl after []

theorem ofHappenings_append_singleton (happenings : List Happening) (happening : Happening) :
    ofHappenings (happenings ++ [happening]) = (ofHappenings happenings).after happening := by
  rw [ofHappenings, List.foldl_append]
  rfl

/-- A frame gives a name that it has, or else the first declaration of it that follows. -/
theorem find?_foldl_after (frame : Frame) (happenings : List Happening) (name : String) :
    (happenings.foldl after frame).find? name =
      (frame.find? name).or (firstDeclaration? happenings name) := by
  induction happenings generalizing frame with
  | nil =>
    rw [List.foldl_nil, firstDeclaration?, List.filterMap_nil, List.find?_nil, Option.or_none]
  | cons happening happenings ih =>
    rw [List.foldl_cons, ih, after]
    cases hsymbol : happening.declaration? with
    | none =>
      rw [firstDeclaration?, firstDeclaration?, List.filterMap_cons_none hsymbol]
    | some symbol =>
      rw [firstDeclaration?, firstDeclaration?, List.filterMap_cons_some hsymbol]
      by_cases hname : symbol.name = name
      · -- The new declaration is of the name: it counts just if the frame lacks the name.
        subst hname
        rw [List.find?_cons_of_pos (by simp)]
        cases hfind : frame.find? symbol.name with
        | some previous =>
          dsimp only
          rw [if_pos (by rw [hfind]; rfl), hfind, Option.some_or, Option.some_or]
        | none =>
          dsimp only
          rw [if_neg (by rw [hfind]; exact Bool.false_ne_true), Frame.find?,
            List.find?_cons_of_pos (by simp), Option.some_or, Option.none_or]
      · rw [List.find?_cons_of_neg (by simpa using hname)]
        dsimp only
        split
        · rfl
        · rw [Frame.find?, Frame.find?, List.find?_cons_of_neg (by simpa using hname)]

/-- Looking a name up in a frame gives the first declaration of it. -/
theorem find?_ofHappenings (happenings : List Happening) (name : String) :
    (ofHappenings happenings).find? name = firstDeclaration? happenings name := by
  rw [ofHappenings, find?_foldl_after]
  rfl

end Frame

/-- The scope in which the given things happened, the innermost frame first. -/
def Scope.ofHappenings (frames : List (List Happening)) : Scope :=
  ⟨frames.map Frame.ofHappenings⟩

/-- A name is found in a scope if some frame has declared it. -/
theorem Scope.lookup_ofHappenings (frames : List (List Happening)) (name : String) :
    (Scope.ofHappenings frames).lookup name =
      frames.findSome? fun happenings => firstDeclaration? happenings name := by
  rw [Scope.ofHappenings, Scope.lookup, List.findSome?_map]
  exact congrArg (frames.findSome? ·) (funext fun happenings => Frame.find?_ofHappenings happenings name)

end Storyboard
