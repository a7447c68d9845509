/-
  Storyboard.Proofs.Scope.Hoisting

  Which frame a name in use belongs to, for the scope check and for the script.

  The check looks a name up when it reaches the use, and finds the innermost frame that
  has declared it by then. In the script a frame is one function, whose variables and
  functions exist throughout it, so there the name belongs to the innermost frame that
  declares it at all, before the use or after it.

  The two are the same just if no frame inside the one that the check finds declares the
  name after the use. Nothing in the check asks for that: the value of a `let` may use
  an outer name that the `let` then declares again.
-/
import Storyboard.Proofs.Compile.Totality

namespace Storyboard

open Check (Action)

-- ============================================================================
-- The frame of a name
-- ============================================================================

/-- The frame in which a name is found, counted from the innermost. -/
def Scope.frameOf? (scope : Scope) (name : String) : Option Nat :=
  scope.frames.findIdx? fun frame => (frame.find? name).isSome

/-- The innermost frame around a site that declares a name at all. What stands between the two
    parts of a moment, a use or an inner frame, declares nothing in the frame. -/
def Site.hoistedFrame? (site : Site) (name : String) : Option Nat :=
  site.moments.findIdx? fun moment => declared (moment.before ++ moment.after) name

/-- A name stands for what it stands for in its frame. -/
theorem Scope.lookup_eq_bind_frameOf? (scope : Scope) (name : String) :
    scope.lookup name =
      (scope.frameOf? name).bind fun i => scope.frames[i]?.bind fun frame => frame.find? name := by
  obtain ⟨frames⟩ := scope
  unfold Scope.lookup Scope.frameOf?
  dsimp only
  induction frames with
  | nil => rfl
  | cons frame outer ih =>
    rw [List.findSome?_cons, List.findIdx?_cons]
    cases hfind : frame.find? name with
    | some symbol => simp [hfind]
    | none =>
      dsimp only
      rw [ih, if_neg (by simp), Option.bind_map]
      rfl

theorem Scope.frameOf?_ofHappenings (frames : List (List Happening)) (name : String) :
    (Scope.ofHappenings frames).frameOf? name =
      frames.findIdx? fun happenings => declared happenings name := by
  rw [Scope.ofHappenings, Scope.frameOf?, List.findIdx?_map]
  apply congrArg (frames.findIdx? ·)
  funext happenings
  rw [Function.comp_apply, Frame.find?_ofHappenings, declared]

/-- From the frame that has declared a name before, to the innermost that declares it at all. The
    second is never further out, and it is further in just if some frame between declares the
    name after. -/
theorem exists_findIdx?_declared (name : String) (moments : List Moment) (found : Nat)
    (h : moments.findIdx? (fun moment => declared moment.before name) = some found) :
    ∃ hoisted,
      moments.findIdx? (fun moment => declared (moment.before ++ moment.after) name) =
        some hoisted ∧
      hoisted ≤ found ∧
      (found = hoisted ↔ ∀ moment ∈ moments.take found, declared moment.after name = false) := by
  induction moments generalizing found with
  | nil => cases h
  | cons moment outer ih =>
    rw [List.findIdx?_cons] at h
    rw [List.findIdx?_cons, declared_append]
    cases hbefore : declared moment.before name with
    | true =>
      rw [hbefore, if_pos rfl, Option.some.injEq] at h
      subst h
      exact ⟨0, rfl, Nat.le_refl 0, by simp⟩
    | false =>
      rw [hbefore, if_neg Bool.false_ne_true] at h
      obtain ⟨index, hindex, rfl⟩ := Option.map_eq_some_iff.mp h
      rw [Bool.false_or, List.take_succ_cons, List.forall_mem_cons]
      cases hafter : declared moment.after name with
      | true =>
        -- The innermost frame declares the name later, so the script does not look further out.
        refine ⟨0, rfl, Nat.zero_le _, ?_⟩
        simp
      | false =>
        obtain ⟨hoisted, hhoisted, hle, hiff⟩ := ih index hindex
        refine ⟨hoisted + 1, ?_, by omega, ?_⟩
        · rw [if_neg Bool.false_ne_true, hhoisted, Option.map_some]
        · rw [Nat.add_right_cancel_iff, hiff]
          simp

-- ============================================================================
-- The check on its way to a site
-- ============================================================================

/-- What the check does to come to a place in the given frames, the innermost first. -/
def Moment.actionsTo : List Moment → List Action
  | [] => []
  | moment :: outer => actionsTo outer ++ .enter :: Happening.allActions moment.before

mutual

/-- The actions of a frame come by each site of a happening in it. -/
theorem Happening.exists_actions_of_mem_sites (outer : List Moment)
    (before after : List Happening) (site : Site) : (happening : Happening) →
    site ∈ happening.sites (⟨before, after⟩ :: outer) →
    ∃ rest, Moment.actionsTo outer ++ .enter :: allActions (before ++ happening :: after) =
      Moment.actionsTo site.moments ++ (site.happening.actions ++ rest)
  | .declares kind id, h => by
    obtain rfl := List.mem_singleton.mp h
    exact ⟨allActions after, by simp [Moment.actionsTo, allActions_append, allActions]⟩
  | .uses id, h => by
    obtain rfl := List.mem_singleton.mp h
    exact ⟨allActions after, by simp [Moment.actionsTo, allActions_append, allActions]⟩
  | .opens inner, h => by
    obtain ⟨rest, hrest⟩ :=
      exists_actions_of_mem_sitesFrom (⟨before, after⟩ :: outer) [] site inner h
    rw [List.nil_append, Moment.actionsTo] at hrest
    -- The inner frame is closed after its last site, and the frame around it goes on.
    refine ⟨rest ++ .leave :: allActions after, ?_⟩
    rw [← List.append_assoc, ← List.append_assoc, List.append_assoc _ site.happening.actions,
      ← hrest]
    simp [allActions_append, allActions, actions]
termination_by structural happening => happening

/-- The actions of a frame come by each site of what happens in it. -/
theorem Happening.exists_actions_of_mem_sitesFrom (outer : List Moment)
    (before : List Happening) (site : Site) : (happenings : List Happening) →
    site ∈ sitesFrom outer before happenings →
    ∃ rest, Moment.actionsTo outer ++ .enter :: allActions (before ++ happenings) =
      Moment.actionsTo site.moments ++ (site.happening.actions ++ rest)
  | [], h => by cases h
  | happening :: after, h => by
    rw [sitesFrom, List.mem_append] at h
    rcases h with hhere | hlater
    · exact exists_actions_of_mem_sites outer before after site happening hhere
    · rw [List.append_cons before happening after]
      exact exists_actions_of_mem_sitesFrom outer (before ++ [happening]) site after hlater
termination_by structural happenings => happenings

end

namespace Check

/-- The check comes to a place with the frames in which things happened before. -/
theorem perform_actionsTo (moments : List Moment) : ∃ errors,
    perform (Moment.actionsTo moments) .fresh =
      .ok () ⟨.ofHappenings (moments.map Moment.before), errors⟩ := by
  induction moments with
  | nil => exact ⟨[], rfl⟩
  | cons moment outer ih =>
    obtain ⟨errors, hrun⟩ := ih
    have hframe := perform_allActions outer [] errors moment.before
    rw [List.nil_append] at hframe
    refine ⟨errors ++ (Happening.sitesFrom outer [] moment.before).filterMap Site.violation?, ?_⟩
    rw [Moment.actionsTo, perform_append_of_ok hrun, List.map_cons]
    exact hframe

/-- The check of a program comes to a site with the given scope: of what it does after it has
    opened the program's frame, a first part leads to the site, and leaves this scope. -/
def Reaches (p : Program) (site : Site) (scope : Scope) : Prop :=
  ∃ rest errors,
    (do enter; block p.body : Checker Unit) =
      perform (Moment.actionsTo site.moments ++ (site.happening.actions ++ rest)) ∧
    perform (Moment.actionsTo site.moments) .fresh = .ok () ⟨scope, errors⟩

/-- The check comes to every site of a native program. -/
theorem reaches_of_mem_sites {p : Program} (h : Stmt.allNative p.body = true) {site : Site}
    (hsite : site ∈ p.sites) :
    Reaches p site (.ofHappenings (site.moments.map Moment.before)) := by
  obtain ⟨rest, hrest⟩ := Happening.exists_actions_of_mem_sitesFrom [] [] site p.timeline hsite
  obtain ⟨errors, hrun⟩ := perform_actionsTo site.moments
  refine ⟨rest, errors, ?_, hrun⟩
  rw [← hrest, block_eq_perform h]
  rfl

end Check

-- ============================================================================
-- Compiled programs
-- ============================================================================

/-- In a compiled program each name in use was declared before in some frame around it. -/
theorem Site.declared_before_of_analyze {p : Program} (hnative : Stmt.allNative p.body = true)
    (hanalyze : analyze p = .ok []) {site : Site} (hsite : site ∈ p.sites) {id : Identifier}
    (huse : site.happening = .uses id) :
    (site.moments.any fun moment => declared moment.before id.name) = true := by
  rw [analyze_eq_ok hnative, Except.ok.injEq, List.filterMap_eq_nil_iff] at hanalyze
  have hnone := hanalyze site hsite
  unfold Site.violation? at hnone
  rw [huse] at hnone
  dsimp only at hnone
  split at hnone
  · assumption
  · cases hnone

/-- Whether a text compiles to a program with a use that passes a test. -/
def compilesWithUse (content : String) (test : Site → Identifier → Bool) : Bool :=
  match compile "<input>" content with
  | .error _ => false
  | .ok c => c.succeeded && c.program.sites.any fun site =>
    match site.happening with
    | .uses id => test site id
    | _ => false

theorem exists_of_compilesWithUse {content : String} {test : Site → Identifier → Bool}
    (h : compilesWithUse content test = true) :
    ∃ c site id, compile "<input>" content = .ok c ∧ c.succeeded = true ∧
      site ∈ c.program.sites ∧ site.happening = .uses id ∧ test site id = true := by
  unfold compilesWithUse at h
  cases hcompile : compile "<input>" content with
  | error fault => rw [hcompile] at h; cases h
  | ok c =>
    rw [hcompile] at h
    dsimp only at h
    rw [Bool.and_eq_true, List.any_eq_true] at h
    obtain ⟨hsucceeded, site, hsite, htest⟩ := h
    cases huse : site.happening with
    | uses id =>
      rw [huse] at htest
      exact ⟨c, site, id, rfl, hsucceeded, hsite, huse, htest⟩
    | declares kind id => rw [huse] at htest; cases htest
    | opens inner => rw [huse] at htest; cases htest

/-- Where the check and the script put a name in use. In a program that compiles, the check comes
    to each use with a scope that has the name; the script puts it into the same frame or into
    one further in; and the two frames are the same just if no frame inside the one that the
    check finds declares the name after the use. -/
theorem lookup_frame_eq_hoisted_iff (name content : String) (c : Compilation)
    (hcompile : compile name content = .ok c) (hsucceeded : c.succeeded = true)
    (site : Site) (hsite : site ∈ c.program.sites) (id : Identifier)
    (huse : site.happening = .uses id) :
    ∃ scope found hoisted,
      Check.Reaches c.program site scope ∧
      scope.frameOf? id.name = some found ∧
      scope.lookup id.name = scope.frames[found]?.bind (·.find? id.name) ∧
      site.hoistedFrame? id.name = some hoisted ∧
      hoisted ≤ found ∧
      (found = hoisted ↔
        ∀ moment ∈ site.moments.take found, declared moment.after id.name = false) := by
  obtain ⟨hparse, hanalyze, -⟩ := Compilation.stages_of_succeeded hcompile hsucceeded
  have hnative := (parse_ok hparse).1
  have hany := Site.declared_before_of_analyze hnative hanalyze hsite huse
  rw [← List.findIdx?_isSome] at hany
  obtain ⟨found, hfound⟩ := Option.isSome_iff_exists.mp hany
  have hframe : (Scope.ofHappenings (site.moments.map Moment.before)).frameOf? id.name =
      some found := by
    rw [Scope.frameOf?_ofHappenings, List.findIdx?_map]
    exact hfound
  obtain ⟨hoisted, hhoisted, hle, hiff⟩ := exists_findIdx?_declared id.name site.moments found hfound
  refine ⟨_, found, hoisted, Check.reaches_of_mem_sites hnative hsite, hframe, ?_, hhoisted, hle,
    hiff⟩
  rw [Scope.lookup_eq_bind_frameOf?, hframe, Option.bind_some]

/-- In a function of a scene, the check and the script agree on the frame of a name of the
    program, which another function of the scene has for its parameter. -/
theorem lookup_frame_eq_hoisted_iff_sample :
    ∃ c site id scope frame,
      compile "<input>" ("let x = 1\nscene s \x7b fn f(a) \x7b return a + x \x7d " ++
        "fn g(x) \x7b return x \x7d f(g(x)) \x7d") = .ok c ∧
      c.succeeded = true ∧ site ∈ c.program.sites ∧ site.happening = .uses id ∧
      id = ⟨"x", ⟨2, 32⟩⟩ ∧ Check.Reaches c.program site scope ∧
      scope.frameOf? id.name = some frame ∧ site.hoistedFrame? id.name = some frame := by
  have huses : compilesWithUse ("let x = 1\nscene s \x7b fn f(a) \x7b return a + x \x7d " ++
      "fn g(x) \x7b return x \x7d f(g(x)) \x7d") (fun site id => id = ⟨"x", ⟨2, 32⟩⟩ &&
        site.moments.all fun moment => declared moment.after id.name = false) = true := by
    decide +kernel
  obtain ⟨c, site, id, hcompile, hsucceeded, hsite, huse, htest⟩ := exists_of_compilesWithUse huses
  rw [Bool.and_eq_true, decide_eq_true_eq, List.all_eq_true] at htest
  obtain ⟨hid, hafter⟩ := htest
  obtain ⟨scope, found, hoisted, hreaches, hfound, -, hhoisted, -, hiff⟩ :=
    lookup_frame_eq_hoisted_iff _ _ c hcompile hsucceeded site hsite id huse
  have hsame : found = hoisted := by
    apply hiff.mpr
    intro moment hmoment
    exact of_decide_eq_true (hafter moment (List.mem_of_mem_take hmoment))
  subst hsame
  exact ⟨c, site, id, scope, found, hcompile, hsucceeded, hsite, huse, hid, hreaches, hfound,
    hhoisted⟩

/-- The value of a `let` that shadows the name it uses: the check finds the outer name, the script
    reads its own variable before it has a value. -/
theorem let_captures_its_value :
    ∃ c site id scope,
      compile "<input>" "let x = 1\nfn f() \x7b let x = x \x7d" = .ok c ∧
      c.succeeded = true ∧ site ∈ c.program.sites ∧ site.happening = .uses id ∧
      id = ⟨"x", ⟨2, 18⟩⟩ ∧ Check.Reaches c.program site scope ∧
      scope.frameOf? id.name = some 1 ∧ site.hoistedFrame? id.name = some 0 := by
  have huses : compilesWithUse "let x = 1\nfn f() \x7b let x = x \x7d" (fun site id =>
      id = ⟨"x", ⟨2, 18⟩⟩ &&
        (Scope.ofHappenings (site.moments.map Moment.before)).frameOf? id.name = some 1 &&
        site.hoistedFrame? id.name = some 0) = true := by
    decide +kernel
  obtain ⟨c, site, id, hcompile, hsucceeded, hsite, huse, htest⟩ := exists_of_compilesWithUse huses
  rw [Bool.and_eq_true, Bool.and_eq_true, decide_eq_true_eq, decide_eq_true_eq,
    decide_eq_true_eq] at htest
  obtain ⟨⟨hid, hframe⟩, hhoisted⟩ := htest
  have hnative := (parse_ok (Compilation.stages_of_succeeded hcompile hsucceeded).1).1
  exact ⟨c, site, id, _, hcompile, hsucceeded, hsite, huse, hid,
    Check.reaches_of_mem_sites hnative hsite, hframe, hhoisted⟩

end Storyboard
