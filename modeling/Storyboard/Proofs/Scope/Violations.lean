/-
  Storyboard.Proofs.Scope.Violations

  The scope check reports exactly what is wrong by the rules of names: one error for
  each site at which a rule is broken, in the order of the timeline, and nothing else.

  The induction is over the timeline. At each point of it the frames of the check hold
  the first declarations of what happened before in the frames around it, so one action
  adds the error of its site if there is one, and its happening to the innermost frame.
-/
import Storyboard.Proofs.Parse.Soundness
import Storyboard.Proofs.Scope.Actions

namespace Storyboard

-- ============================================================================
-- One site
-- ============================================================================

/-- The naming error at a site. -/
def Site.violation? (site : Site) : Option NamingError :=
  match site.happening with
  | .uses id =>
    if site.moments.any fun moment => declared moment.before id.name then none
    else some (.undefined id)
  | .declares kind id =>
    match site.moments with
    | [] => none
    | own :: _ => (firstDeclaration? own.before id.name).map fun previous =>
      .redeclared kind id previous.location
  | .opens _ => none

theorem Site.filterMap_violation?_singleton (site : Site) :
    [site].filterMap Site.violation? = site.violation?.toList := by
  rw [List.filterMap_cons]
  cases site.violation? <;> rfl

/-- The naming error at a site says in words what is wrong there. -/
theorem Site.map_diagnostic_violation? (site : Site) :
    site.violation?.map NamingError.diagnostic = site.complaint? := by
  obtain ⟨happening, moments⟩ := site
  cases happening with
  | uses id =>
    unfold Site.violation? Site.complaint?
    dsimp only
    split
    · rfl
    · rfl
  | declares kind id =>
    have htitle : NamingError.capitalized kind.word = kind.title := by
      cases kind <;> decide +kernel
    cases moments with
    | nil => rfl
    | cons own outer =>
      unfold Site.violation? Site.complaint?
      dsimp only
      rw [Option.map_map, ← htitle]
      rfl
  | opens inner => rfl

namespace Check

section OneAction

variable (outer : List Moment) (before after : List Happening) (errors : List NamingError)

/-- What does not declare leaves the frames as they are. -/
theorem ofHappenings_of_not_declares {happening : Happening}
    (h : happening.declaration? = none) (frames : List (List Happening)) :
    Scope.ofHappenings ((before ++ [happening]) :: frames) =
      Scope.ofHappenings (before :: frames) := by
  rw [Scope.ofHappenings, List.map_cons, Frame.ofHappenings_append_singleton, Frame.after, h]
  rfl

/-- A declaration adds the error of its site, and its name to the innermost frame. -/
theorem declare_ofHappenings (kind : SymbolKind) (id : Identifier) :
    declare kind id ⟨.ofHappenings (before :: outer.map Moment.before), errors⟩ =
      .ok () ⟨.ofHappenings ((before ++ [.declares kind id]) :: outer.map Moment.before),
        errors ++ (Site.violation? ⟨.declares kind id, ⟨before, after⟩ :: outer⟩).toList⟩ := by
  have hfind := Frame.find?_ofHappenings before id.name
  have hframe := Frame.ofHappenings_append_singleton before (.declares kind id)
  unfold declare Scope.declare
  simp only [Scope.ofHappenings, List.map_cons, hframe, Frame.after, Happening.declaration?,
    Site.violation?, hfind]
  cases hfirst : firstDeclaration? before id.name with
  | none => simp
  | some previous => simp [report]

/-- A use adds the error of its site. -/
theorem resolve_ofHappenings (id : Identifier) :
    resolve id ⟨.ofHappenings (before :: outer.map Moment.before), errors⟩ =
      .ok () ⟨.ofHappenings ((before ++ [.uses id]) :: outer.map Moment.before),
        errors ++ (Site.violation? ⟨.uses id, ⟨before, after⟩ :: outer⟩).toList⟩ := by
  have hany : ((⟨before, after⟩ :: outer).any fun moment => declared moment.before id.name) =
      ((Scope.ofHappenings (before :: outer.map Moment.before)).lookup id.name).isSome := by
    rw [Scope.lookup_ofHappenings, List.isSome_findSome?, List.any_cons, List.any_cons, List.any_map]
    rfl
  rw [ofHappenings_of_not_declares before rfl, resolve, Site.violation?]
  dsimp only
  rw [hany]
  cases hlookup : (Scope.ofHappenings (before :: outer.map Moment.before)).lookup id.name with
  | none => simp [report]
  | some symbol => simp

end OneAction

-- ============================================================================
-- A whole timeline
-- ============================================================================

mutual

/-- Performing the actions of one happening adds the errors of its sites. -/
theorem perform_actions (outer : List Moment) (before after : List Happening)
    (errors : List NamingError) : (happening : Happening) →
    perform happening.actions ⟨.ofHappenings (before :: outer.map Moment.before), errors⟩ =
      .ok () ⟨.ofHappenings ((before ++ [happening]) :: outer.map Moment.before),
        errors ++ (happening.sites (⟨before, after⟩ :: outer)).filterMap Site.violation?⟩
  | .declares kind id => by
    rw [Happening.actions, perform_singleton, Happening.sites, Site.filterMap_violation?_singleton]
    exact declare_ofHappenings outer before after errors kind id
  | .uses id => by
    rw [Happening.actions, perform_singleton, Happening.sites, Site.filterMap_violation?_singleton]
    exact resolve_ofHappenings outer before after errors id
  | .opens inner => by
    have hinner := perform_allActions (⟨before, after⟩ :: outer) [] errors inner
    rw [List.nil_append] at hinner
    -- The inner frame is opened empty and closed at the end, and the frame around it stays.
    have hleave : perform [.leave] ⟨.ofHappenings (inner :: before :: outer.map Moment.before),
          errors ++ (Happening.sitesFrom (⟨before, after⟩ :: outer) [] inner).filterMap
            Site.violation?⟩ =
        .ok () ⟨.ofHappenings (before :: outer.map Moment.before),
          errors ++ (Happening.sitesFrom (⟨before, after⟩ :: outer) [] inner).filterMap
            Site.violation?⟩ := rfl
    rw [Happening.actions, Happening.sites, ofHappenings_of_not_declares before rfl]
    exact (perform_append_of_ok hinner).trans hleave
termination_by structural happening => happening

/-- Performing the actions of what happens in a frame adds the errors of its sites. -/
theorem perform_allActions (outer : List Moment) (before : List Happening)
    (errors : List NamingError) : (happenings : List Happening) →
    perform (Happening.allActions happenings)
        ⟨.ofHappenings (before :: outer.map Moment.before), errors⟩ =
      .ok () ⟨.ofHappenings ((before ++ happenings) :: outer.map Moment.before),
        errors ++ (Happening.sitesFrom outer before happenings).filterMap Site.violation?⟩
  | [] => by
    rw [Happening.allActions, Happening.sitesFrom, List.append_nil, List.filterMap_nil,
      List.append_nil]
    rfl
  | happening :: after => by
    rw [Happening.allActions, Happening.sitesFrom,
      perform_append_of_ok (perform_actions outer before after errors happening),
      perform_allActions outer (before ++ [happening]) _ after, List.filterMap_append,
      List.append_assoc, List.append_assoc, List.singleton_append]
termination_by structural happenings => happenings

end

end Check

/-- The errors that the check finds in a native program are those of its sites. -/
theorem analyze_eq_ok {p : Program} (h : Stmt.allNative p.body = true) :
    analyze p = .ok (p.sites.filterMap Site.violation?) := by
  have hrun : (do Check.enter; Check.block p.body; Check.leave : Check.Checker Unit) .fresh =
      .ok () ⟨.empty, p.sites.filterMap Site.violation?⟩ := by
    have hbody := Check.perform_allActions [] [] [] p.timeline
    rw [List.nil_append, List.nil_append] at hbody
    rw [Check.block_eq_perform h]
    change EStateM.bind (Check.perform (Happening.allActions p.timeline)) (fun _ => Check.leave)
      ⟨.ofHappenings [[]], []⟩ = _
    rw [EStateM.bind, show Check.perform (Happening.allActions p.timeline)
      ⟨.ofHappenings [[]], []⟩ = _ from hbody]
    rfl
  unfold analyze Check.program
  rw [show ({ Check.State.fresh with scope := .empty } : Check.State) = .fresh from rfl, hrun]
  rfl

-- ============================================================================
-- Parsed programs
-- ============================================================================

/-- The scope check reports exactly what is wrong by the rules of names. Whatever tree the parser
    returns, with or without syntax errors, the check ends, and its errors are in words those of
    the sites at which a rule is broken, one for each, in the order of the timeline. -/
theorem analyze_eq_complaints (tokens : List Token) (p : Program) (errors : List SyntaxError)
    (h : parse tokens = .ok (p, errors)) :
    ∃ found, analyze p = .ok found ∧ found.map NamingError.diagnostic = p.complaints := by
  refine ⟨_, analyze_eq_ok (parse_ok h).1, ?_⟩
  rw [List.map_filterMap, Program.complaints]
  exact congrArg (p.sites.filterMap ·) (funext Site.map_diagnostic_violation?)

/-- A value that uses the name of its own `let`, a parameter given twice, a function that is not
    there, a `let` with the name of a function of its list, and a name that only a later `let`
    with a syntax error has. -/
theorem analyze_eq_complaints_sample :
    let tokens := tokenize
      "let x = x\nfn f(a, a) \x7b return g(a) \x7d\nlet f = 1\nscene s \x7b f(y) \x7d\nlet y = ("
    ∃ p errors found, parse tokens = .ok (p, errors) ∧ errors.length = 1 ∧
      analyze p = .ok found ∧ found.map (fun error => error.diagnostic.text) =
        ["Undefined variable 'x'", "Parameter 'a' is already declared in this scope",
          "Undefined variable 'g'", "Variable 'f' is already declared in this scope",
          "Undefined variable 'y'"] := by
  intro tokens
  have htexts : (parse tokens).toOption.map (fun (p, errors) =>
      (errors.length, p.complaints.map Diagnostic.text)) =
        some (1, ["Undefined variable 'x'", "Parameter 'a' is already declared in this scope",
          "Undefined variable 'g'", "Variable 'f' is already declared in this scope",
          "Undefined variable 'y'"]) := by decide +kernel
  obtain ⟨p, errors, hparse⟩ := parse_eq_ok (show NumbersReadable (tokens.takeWhile _) by
    decide +kernel)
  obtain ⟨found, hfound, hwords⟩ := analyze_eq_complaints tokens p errors hparse
  rw [hparse] at htexts
  simp only [Except.toOption, Option.map_some, Option.some.injEq, Prod.mk.injEq] at htexts
  refine ⟨p, errors, found, hparse, htexts.1, hfound, ?_⟩
  rw [← htexts.2, ← hwords, List.map_map]
  rfl

end Storyboard
