/-
  Storyboard.Proofs.Script.Routines

  The names of routines.

  A routine gets the first candidate that no routine before it has: its base, or else
  the base with the least number that is free. Candidates with different numbers differ,
  so there are more of them than names taken, and the search for a free one ends
  (`freshName_eq_candidate`). `Given` says of a list of routines that they got their names
  that way, one after the other; then no two of them have the same name. A suffix that one
  base gets may be the plain name of another, so what is free depends on all names given
  before, whatever their bases.
-/
import Storyboard.Proofs.Script.Names
import Storyboard.Script.Expr

namespace Storyboard

namespace Script

-- ============================================================================
-- Free names
-- ============================================================================

theorem eq_of_toString_eq {m n : Nat} (h : toString m = toString n) : m = n := by
  rw [Nat.toString_eq_ofList_toDigits, Nat.toString_eq_ofList_toDigits] at h
  have hread := congrArg (fun text : String => Nat.ofDigitChars 10 text.toList 0) h
  simpa only [String.toList_ofList, Nat.ofDigitChars_ten_toDigits] using hread

/-- Candidates with different numbers differ. -/
theorem eq_of_candidate_eq {base : String} {m n : Nat} (h : candidate base m = candidate base n) :
    m = n := by
  -- Only the first candidate has no number; the others are longer.
  have hlonger : ∀ k, candidate base 0 ≠ candidate base (k + 1) := by
    intro k heq
    rw [candidate_succ] at heq
    have hchars := congrArg String.toList heq
    rw [String.toList_append] at hchars
    have hnil := List.self_eq_append_right.mp hchars
    rw [String.toList_append] at hnil
    cases hnil
  cases m with
  | zero =>
    cases n with
    | zero => rfl
    | succ n => exact absurd h (hlonger n)
  | succ m =>
    cases n with
    | zero => exact absurd h.symm (hlonger m)
    | succ n =>
      have hchars := congrArg String.toList h
      simp only [candidate, String.toList_append] at hchars
      have hdigits := String.toList_inj.mp (List.append_cancel_left hchars)
      have hsame := eq_of_toString_eq hdigits
      omega

/-- Among one more candidates than there are names taken, some candidate is free. -/
theorem exists_free_candidate (taken : List String) (base : String) :
    ∃ n, n ≤ taken.length ∧ candidate base n ∉ taken := by
  apply Classical.byContradiction
  intro hnone
  have hall : ∀ n, n ≤ taken.length → candidate base n ∈ taken := fun n hn =>
    Classical.byContradiction fun hfree => hnone ⟨n, hn, hfree⟩
  have hapart : ((List.range (taken.length + 1)).map (candidate base)).Nodup :=
    List.pairwise_map.mpr (List.nodup_range.imp fun hne heq => hne (eq_of_candidate_eq heq))
  have hsubset : (List.range (taken.length + 1)).map (candidate base) ⊆ taken := by
    intro name hname
    obtain ⟨n, hn, rfl⟩ := List.mem_map.mp hname
    exact hall n (Nat.le_of_lt_succ (List.mem_range.mp hn))
  have hlength := hapart.length_le_of_subset hsubset
  rw [List.length_map, List.length_range] at hlength
  omega

/-- The search for a name ends: it goes from candidate to candidate as long as they are taken, and
    finds a free one after no more steps than there are names taken. -/
theorem freshName_eq_candidate (taken : List String) (base : String) :
    ∃ n, n ≤ taken.length ∧ (∀ m, m < n → candidate base m ∈ taken) ∧ candidate base n ∉ taken ∧
      freshName taken base = candidate base n := by
  dsimp only [freshName]
  rw [List.find?_map]
  cases hfind : (List.range (taken.length + 1)).find?
      ((fun name => !taken.contains name) ∘ candidate base) with
  | none =>
    obtain ⟨n, hn, hfree⟩ := exists_free_candidate taken base
    have htaken := List.find?_range_eq_none.mp hfind n (Nat.lt_succ_of_le hn)
    exact absurd (by simpa using htaken) hfree
  | some n =>
    obtain ⟨hfree, hn, hbefore⟩ := List.find?_range_eq_some.mp hfind
    refine ⟨n, Nat.le_of_lt_succ (List.mem_range.mp hn), ?_, by simpa using hfree, rfl⟩
    intro m hm
    simpa using hbefore m hm

/-- A name that is free: the base, or if that is taken the base with the least number from two on
    with which it is not taken. -/
structure IsFresh (taken : List String) (base name : String) : Prop where
  free : name ∉ taken
  least : name = base ∨ base ∈ taken ∧ ∃ n, 2 ≤ n ∧ name = base ++ "_" ++ toString n ∧
    ∀ m, 2 ≤ m → m < n → base ++ "_" ++ toString m ∈ taken

theorem isFresh_freshName (taken : List String) (base : String) :
    IsFresh taken base (freshName taken base) := by
  obtain ⟨n, -, htaken, hfree, heq⟩ := freshName_eq_candidate taken base
  rw [heq]
  refine ⟨hfree, ?_⟩
  cases n with
  | zero => exact .inl rfl
  | succ n =>
    refine .inr ⟨htaken 0 (Nat.succ_pos n), n + 2, Nat.le_add_left 2 n, rfl, ?_⟩
    intro m hm hless
    -- The number behind a candidate is two more than how many plain numbers come before it.
    obtain ⟨k, rfl⟩ : ∃ k, m = k + 2 := ⟨m - 2, by omega⟩
    exact htaken (k + 1) (by omega)

-- ============================================================================
-- Names one after the other
-- ============================================================================

/-- A scene or an animation in a script: the indentation at which it stands, and the base of its
    name. -/
structure Routine where
  indent : Int
  base : String
  deriving DecidableEq, Inhabited

/-- The line that opens a routine under a name. -/
def Routine.opening (r : Routine) (name : String) : String :=
  margin r.indent ++ ("function " ++ name ++ "() \x7b")

/-- Routines with names, each of them fresh for the names that are taken when it is given. -/
inductive Given : (taken : List String) → List (Routine × String) → Prop where
  | nil {taken : List String} : Given taken []
  | cons {taken : List String} {r : Routine} {name : String} {given : List (Routine × String)} :
      IsFresh taken r.base name → Given (taken ++ [name]) given → Given taken ((r, name) :: given)

namespace Given

variable {taken : List String} {given later : List (Routine × String)}

theorem append (h : Given taken given) (hlater : Given (taken ++ given.map Prod.snd) later) :
    Given taken (given ++ later) := by
  induction h with
  | nil => rwa [List.map_nil, List.append_nil] at hlater
  | cons hfresh _ ih =>
    refine .cons hfresh (ih ?_)
    rwa [List.map_cons, List.append_cons] at hlater

/-- No name is given twice, and none that was taken. -/
theorem nodup (h : Given taken given) :
    (given.map Prod.snd).Nodup ∧ ∀ name ∈ given.map Prod.snd, name ∉ taken := by
  induction h with
  | nil => exact ⟨List.nodup_nil, by simp⟩
  | @cons taken r name given hfresh _ ih =>
    obtain ⟨hnodup, hfree⟩ := ih
    rw [List.map_cons]
    refine ⟨List.nodup_cons.mpr ⟨?_, hnodup⟩, List.forall_mem_cons.mpr ⟨hfresh.free, ?_⟩⟩
    · intro hmem
      exact hfree name hmem (List.mem_append_right taken List.mem_cons_self)
    · intro other hother hmem
      exact hfree other hother (List.mem_append_left [name] hmem)

/-- Each name is fresh for those given before it. -/
theorem isFresh {r : Routine} {name : String} (h : Given taken (given ++ (r, name) :: later)) :
    IsFresh (taken ++ given.map Prod.snd) r.base name := by
  induction given generalizing taken with
  | nil =>
    cases h with
    | cons hfresh _ => rwa [List.map_nil, List.append_nil]
  | cons first given ih =>
    cases h with
    | cons _ hlater =>
      have hothers := ih hlater
      rwa [← List.append_cons] at hothers

end Given

end Script

-- ============================================================================
-- Routines of statements
-- ============================================================================

open Script

mutual

/-- The routines of a statement at an indentation, in the order in which they are opened. -/
def Stmt.routines (k : Int) : Stmt → List Routine
  | .function _ _ body _ => Stmt.allRoutines (k + 1) body
  | .branch _ thenBody none _ => Stmt.allRoutines (k + 1) thenBody
  | .branch _ thenBody (some elseBody) _ =>
    Stmt.allRoutines (k + 1) thenBody ++ Stmt.allRoutines (k + 1) elseBody
  | .loop _ body _ => Stmt.allRoutines (k + 1) body
  | .animation _ _ => [⟨k, "animate"⟩]
  | .scene title body _ => ⟨k, "scene_" ++ title⟩ :: Stmt.allRoutines (k + 1) body
  | _ => []
termination_by structural stmt => stmt

/-- The routines of several statements. -/
def Stmt.allRoutines (k : Int) : List Stmt → List Routine
  | [] => []
  | stmt :: others => stmt.routines k ++ Stmt.allRoutines k others
termination_by structural body => body

end

end Storyboard
