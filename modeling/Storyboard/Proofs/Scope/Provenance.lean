/-
  Storyboard.Proofs.Scope.Provenance

  Where naming errors come from. If the parts of a program come from certain tokens, so
  do the names that are declared and used in its timeline, and with them those of every
  naming error: the name at its site and, for a second declaration, the name of the
  first.
-/
import Storyboard.Proofs.Parse.Provenance
import Storyboard.Proofs.Scope.Violations

namespace Storyboard

-- ============================================================================
-- Names that happen
-- ============================================================================

variable {T : Token → Prop}

namespace Expr

theorem mem_allNames {es : List Expr} {id : Identifier} (h : id ∈ Expr.allNames es) :
    ∃ e ∈ es, id ∈ e.names := by
  induction es with
  | nil => cases h
  | cons e es ih =>
    rw [Expr.allNames] at h
    rcases List.mem_append.mp h with hfirst | hothers
    · exact ⟨e, List.mem_cons_self, hfirst⟩
    · obtain ⟨e', he', hid⟩ := ih hothers
      exact ⟨e', List.mem_cons_of_mem _ he', hid⟩

theorem mem_pointNames {points : List (Point Expr)} {id : Identifier}
    (h : id ∈ Expr.pointNames points) :
    ∃ point ∈ points, id ∈ point.x.names ∨ id ∈ point.y.names := by
  induction points with
  | nil => cases h
  | cons point points ih =>
    obtain ⟨x, y⟩ := point
    rw [Expr.pointNames] at h
    rcases List.mem_append.mp h with hfirst | hothers
    · exact ⟨⟨x, y⟩, List.mem_cons_self, List.mem_append.mp hfirst⟩
    · obtain ⟨point', hpoint', hid⟩ := ih hothers
      exact ⟨point', List.mem_cons_of_mem _ hpoint', hid⟩

/-- The names in an expression come from where it does. -/
theorem From.names {e : Expr} (h : e.From T) : ∀ id ∈ e.names, id.From T := by
  induction h with
  | identifier hid => simpa [Expr.names] using hid
  | number => simp [Expr.names]
  | string => simp [Expr.names]
  | color => simp [Expr.names]
  | binary _ _ _ _ hleft hright =>
    rw [Expr.names]
    exact List.forall_mem_append.mpr ⟨hleft, hright⟩
  | call _ _ hcallee harguments =>
    rw [Expr.names]
    refine List.forall_mem_append.mpr ⟨hcallee, fun id hid => ?_⟩
    obtain ⟨e, he, hid⟩ := mem_allNames hid
    exact harguments e he id hid
  | @circle center size fill place _ _ _ _ _ hx hy hsize hfill =>
    obtain ⟨x, y⟩ := center
    simp only [Expr.names, List.forall_mem_append]
    exact ⟨⟨⟨hx, hy⟩, hsize⟩, hfill⟩
  | @rect center width height fill place _ _ _ _ _ _ hx hy hwidth hheight hfill =>
    obtain ⟨x, y⟩ := center
    simp only [Expr.names, List.forall_mem_append]
    exact ⟨⟨⟨⟨hx, hy⟩, hwidth⟩, hheight⟩, hfill⟩
  | @line start stop fill place _ _ _ _ _ _ hx₁ hy₁ hx₂ hy₂ hfill =>
    obtain ⟨x₁, y₁⟩ := start
    obtain ⟨x₂, y₂⟩ := stop
    simp only [Expr.names, List.forall_mem_append]
    exact ⟨⟨⟨⟨hx₁, hy₁⟩, hx₂⟩, hy₂⟩, hfill⟩
  | triangle _ _ _ _ _ hx hy hfill =>
    rw [Expr.names]
    refine List.forall_mem_append.mpr ⟨fun id hid => ?_, hfill⟩
    obtain ⟨point, hpoint, hid | hid⟩ := mem_pointNames hid
    · exact hx point hpoint id hid
    · exact hy point hpoint id hid

end Expr

/-- What happens with names that come from such tokens. -/
inductive Happening.From (T : Token → Prop) : Happening → Prop where
  | declares {kind id} : id.From T → From T (.declares kind id)
  | uses {id} : id.From T → From T (.uses id)
  | opens {inner} : (∀ happening ∈ inner, From T happening) → From T (.opens inner)

theorem Expr.From.uses {e : Expr} (h : e.From T) : ∀ x ∈ e.uses, x.From T := by
  intro x hx
  obtain ⟨id, hid, rfl⟩ := List.mem_map.mp hx
  exact .uses (h.names id hid)

theorem Stmt.hoisted_from {body : List Stmt} (h : ∀ stmt ∈ body, stmt.From T) :
    ∀ x ∈ Stmt.hoisted body, x.From T := by
  intro x hx
  obtain ⟨id, hid, rfl⟩ := List.mem_map.mp hx
  obtain ⟨stmt, hstmt, hname⟩ := List.mem_filterMap.mp hid
  cases h stmt hstmt with
  | function _ hid _ _ =>
    cases hname
    exact .declares hid
  | binding => cases hname
  | giveBack => cases hname
  | plain => cases hname
  | otherwise => cases hname
  | loop => cases hname
  | animation => cases hname
  | scene => cases hname
  | expression => cases hname

theorem Stmt.timelines_from {body : List Stmt}
    (h : ∀ stmt ∈ body, ∀ x ∈ stmt.timeline, x.From T) :
    ∀ x ∈ Stmt.timelines body, x.From T := by
  induction body with
  | nil => simp [Stmt.timelines]
  | cons stmt body ih =>
    obtain ⟨hstmt, hbody⟩ := List.forall_mem_cons.mp h
    rw [Stmt.timelines]
    exact List.forall_mem_append.mpr ⟨hstmt, ih hbody⟩

/-- What happens in a body, its functions first. -/
theorem Stmt.body_from {body : List Stmt} (h : ∀ stmt ∈ body, stmt.From T)
    (ih : ∀ stmt ∈ body, ∀ x ∈ stmt.timeline, x.From T) :
    ∀ x ∈ Stmt.hoisted body ++ Stmt.timelines body, x.From T :=
  List.forall_mem_append.mpr ⟨Stmt.hoisted_from h, Stmt.timelines_from ih⟩

/-- What happens in a statement comes from where it does. -/
theorem Stmt.From.timeline {stmt : Stmt} (h : stmt.From T) : ∀ x ∈ stmt.timeline, x.From T := by
  induction h with
  | binding _ hname hvalue =>
    rw [Stmt.timeline]
    exact List.forall_mem_append.mpr ⟨hvalue.uses, by simpa using .declares hname⟩
  | function _ _ hparameters hbody ih =>
    rw [Stmt.timeline, List.forall_mem_singleton]
    refine .opens (List.forall_mem_append.mpr ⟨fun x hx => ?_, Stmt.body_from hbody ih⟩)
    obtain ⟨id, hid, rfl⟩ := List.mem_map.mp hx
    exact .declares (hparameters id hid)
  | @giveBack value place _ hvalue =>
    cases value with
    | none => simp [Stmt.timeline]
    | some value =>
      rw [Stmt.timeline]
      exact (hvalue value rfl).uses
  | plain _ hcondition hthen ih =>
    rw [Stmt.timeline]
    exact List.forall_mem_append.mpr ⟨hcondition.uses, Stmt.body_from hthen ih⟩
  | otherwise _ hcondition hthen helse ihThen ihElse =>
    rw [Stmt.timeline]
    exact List.forall_mem_append.mpr ⟨hcondition.uses, List.forall_mem_append.mpr
      ⟨Stmt.body_from hthen ihThen, Stmt.body_from helse ihElse⟩⟩
  | loop _ htimes hbody ih =>
    rw [Stmt.timeline]
    exact List.forall_mem_append.mpr ⟨htimes.uses, Stmt.body_from hbody ih⟩
  | animation => simp [Stmt.timeline]
  | scene _ _ hbody ih =>
    rw [Stmt.timeline, List.forall_mem_singleton]
    exact .opens (Stmt.body_from hbody ih)
  | expression hvalue =>
    rw [Stmt.timeline]
    exact hvalue.uses

-- ============================================================================
-- Naming errors
-- ============================================================================

/-- Moments before which only such names happened. -/
def Moment.AllFrom (T : Token → Prop) (moments : List Moment) : Prop :=
  ∀ moment ∈ moments, ∀ x ∈ moment.before, x.From T

/-- A site that has such a name and follows such names. -/
structure Site.From (T : Token → Prop) (site : Site) : Prop where
  happening : site.happening.From T
  moments : Moment.AllFrom T site.moments

/-- The sites of what happens in a frame, if it is so for each that happens. -/
theorem Happening.sitesFrom_from {outer : List Moment} {before happenings : List Happening}
    (h : ∀ x ∈ happenings, ∀ {moments}, Moment.AllFrom T moments → ∀ site ∈ x.sites moments,
      site.From T)
    (hfrom : ∀ x ∈ happenings, x.From T) (hbefore : ∀ x ∈ before, x.From T)
    (houter : Moment.AllFrom T outer) :
    ∀ site ∈ Happening.sitesFrom outer before happenings, site.From T := by
  induction happenings generalizing before with
  | nil => simp [Happening.sitesFrom]
  | cons x after ih =>
    obtain ⟨hx, hafter⟩ := List.forall_mem_cons.mp h
    obtain ⟨hxFrom, hafterFrom⟩ := List.forall_mem_cons.mp hfrom
    have hmoments : Moment.AllFrom T (⟨before, after⟩ :: outer) :=
      List.forall_mem_cons.mpr ⟨hbefore, houter⟩
    have hnext : ∀ y ∈ before ++ [x], y.From T :=
      List.forall_mem_append.mpr ⟨hbefore, by simpa using hxFrom⟩
    rw [Happening.sitesFrom]
    exact List.forall_mem_append.mpr ⟨hx hmoments, ih hafter hafterFrom hnext⟩

theorem Happening.From.sites {x : Happening} (h : x.From T) {moments : List Moment}
    (hmoments : Moment.AllFrom T moments) : ∀ site ∈ x.sites moments, site.From T := by
  induction h generalizing moments with
  | declares hid =>
    rw [Happening.sites, List.forall_mem_singleton]
    exact ⟨.declares hid, hmoments⟩
  | uses hid =>
    rw [Happening.sites, List.forall_mem_singleton]
    exact ⟨.uses hid, hmoments⟩
  | opens hinner ih =>
    rw [Happening.sites]
    exact Happening.sitesFrom_from (fun x hx => ih x hx) hinner (by simp) hmoments

/-- Every site of a program has names that come from where the program does. -/
theorem Program.sites_from {p : Program} (h : ∀ stmt ∈ p.body, stmt.From T) :
    ∀ site ∈ p.sites, site.From T := by
  have htimeline : ∀ x ∈ p.timeline, x.From T :=
    Stmt.body_from h fun stmt hstmt => (h stmt hstmt).timeline
  exact Happening.sitesFrom_from (fun x hx => (htimeline x hx).sites) htimeline (by simp)
    (by simp [Moment.AllFrom])

/-- A naming error about names that come from such tokens; a name that was declared before has the
    same text there. -/
inductive NamingError.From (T : Token → Prop) : NamingError → Prop where
  | undefined {id : Identifier} : id.From T → From T (.undefined id)
  | redeclared {kind : SymbolKind} {id previous : Identifier} : id.From T → previous.From T →
      previous.name = id.name → From T (.redeclared kind id previous.location)

theorem Site.From.violation {site : Site} (h : site.From T) {error : NamingError}
    (herror : site.violation? = some error) : error.From T := by
  obtain ⟨happening, moments⟩ := site
  obtain ⟨hhappening, hmoments⟩ := h
  cases hhappening with
  | uses hid =>
    unfold Site.violation? at herror
    dsimp only at herror
    split at herror
    · cases herror
    · cases herror
      exact .undefined hid
  | @declares kind id hid =>
    cases moments with
    | nil => cases herror
    | cons own outer =>
      obtain ⟨previous, hprevious, rfl⟩ := Option.map_eq_some_iff.mp herror
      -- The earlier declaration was found by its name, and it is something that happened before.
      have hsame : previous.name = id.name := by
        simpa using List.find?_some hprevious
      obtain ⟨x, hx, hdeclared⟩ := List.mem_filterMap.mp (List.mem_of_find?_eq_some hprevious)
      cases hmoments own List.mem_cons_self x hx with
      | @declares kind' id' hid' =>
        cases hdeclared
        exact .redeclared hid hid' hsame
      | uses => cases hdeclared
      | opens => cases hdeclared
  | opens => cases herror

/-- The naming errors of a program are about names that come from where it does. -/
theorem analyze_from {p : Program} (hnative : Stmt.allNative p.body = true)
    (h : ∀ stmt ∈ p.body, stmt.From T) {errors : List NamingError}
    (hanalyze : analyze p = .ok errors) : ∀ error ∈ errors, error.From T := by
  rw [analyze_eq_ok hnative] at hanalyze
  cases hanalyze
  intro error herror
  obtain ⟨site, hsite, hviolation⟩ := List.mem_filterMap.mp herror
  exact (Program.sites_from h site hsite).violation hviolation

end Storyboard
