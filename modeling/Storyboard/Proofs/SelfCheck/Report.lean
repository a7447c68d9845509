/-
  Storyboard.Proofs.SelfCheck.Report

  What a run of a table reports. The cases are filed one after the other, and the
  groups are known after each of them: the categories met so far in the order in
  which they first occurred, each with its cases in the order of the table
  (`add_groupsOf`). Checking a case of which all expectations are known always
  comes to a verdict, and changes a tally by that verdict and nothing else
  (`check_eq`); the tallies of a group and of a table are the sums of these
  changes (`foldlM_check`, `foldlM_checkGroup`).
-/
import Storyboard.Proofs.Compile.Totality
import Storyboard.SelfCheck

namespace Storyboard.SelfCheck

-- ============================================================================
-- Groups
-- ============================================================================

/-- The categories of cases, in the order in which they first occur. -/
def categories (cases : List Case) : List String := (cases.map Case.category).eraseDups

/-- The cases of a category, in their order. -/
def ofCategory (cases : List Case) (category : String) : List Case :=
  cases.filter fun entry => entry.category = category

/-- Each category with its cases. -/
def groupsOf (cases : List Case) : Groups :=
  (categories cases).map fun category => (category, ofCategory cases category)

/-- The cases category by category. -/
def listing (cases : List Case) : List Case := (categories cases).flatMap (ofCategory cases)

theorem mem_categories {cases : List Case} {category : String} :
    category ∈ categories cases ↔ ∃ entry ∈ cases, entry.category = category := by
  rw [categories, List.mem_eraseDups, List.mem_map]

theorem nodup_eraseDups (names : List String) : names.eraseDups.Nodup := by
  induction hn : names.length using Nat.strongRecOn generalizing names with
  | ind n ih =>
    cases names with
    | nil => exact List.nodup_nil
    | cons name others =>
      rw [List.eraseDups_cons]
      have hless : (others.filter fun other => !other == name).length < n :=
        hn ▸ Nat.lt_succ_of_le (List.length_filter_le _ _)
      refine List.nodup_cons.mpr ⟨?_, ih _ hless _ rfl⟩
      rw [List.mem_eraseDups, List.mem_filter]
      simp

theorem nodup_categories (cases : List Case) : (categories cases).Nodup := nodup_eraseDups _

/-- The categories with one case more. -/
theorem categories_append_singleton (cases : List Case) (entry : Case) :
    categories (cases ++ [entry]) =
      if entry.category ∈ categories cases then categories cases
      else categories cases ++ [entry.category] := by
  have hmem : entry.category ∈ categories cases ↔ entry.category ∈ cases.map Case.category :=
    List.mem_eraseDups
  rw [categories, List.map_append, List.eraseDups_append, List.map_singleton, List.removeAll]
  by_cases h : entry.category ∈ cases.map Case.category
  · rw [if_pos (hmem.mpr h), List.filter_cons_of_neg (by rw [List.elem_eq_mem]; simpa using h)]
    exact List.append_nil _
  · rw [if_neg (mt hmem.mp h), List.filter_cons_of_pos (by rw [List.elem_eq_mem]; simpa using h)]
    rfl

theorem ofCategory_append_singleton (cases : List Case) (entry : Case) (category : String) :
    ofCategory (cases ++ [entry]) category =
      if category = entry.category then ofCategory cases category ++ [entry]
      else ofCategory cases category := by
  rw [ofCategory, List.filter_append]
  by_cases h : category = entry.category
  · simp [h, ofCategory]
  · simp [h, Ne.symm h, ofCategory]

/-- Filing a case among groups with different categories: it comes behind the cases of its
    category, or into a group of its own. -/
theorem add_map {names : List String} (hnodup : names.Nodup) (members : String → List Case)
    (entry : Case) :
    Groups.add entry (names.map fun name => (name, members name)) =
      if entry.category ∈ names then
        names.map fun name =>
          (name, if name = entry.category then members name ++ [entry] else members name)
      else names.map (fun name => (name, members name)) ++ [(entry.category, [entry])] := by
  induction names with
  | nil => rfl
  | cons name names ih =>
    obtain ⟨hfresh, hnames⟩ := List.nodup_cons.mp hnodup
    rw [List.map_cons, Groups.add]
    by_cases hname : name = entry.category
    · subst hname
      have hothers : ∀ other ∈ names, (other, members other) =
          (other, if other = entry.category then members other ++ [entry] else members other) := by
        intro other hother
        rw [if_neg]
        rintro rfl
        exact hfresh hother
      rw [if_pos rfl, if_pos List.mem_cons_self, List.map_cons, if_pos rfl,
        List.map_congr_left hothers]
    · rw [if_neg hname, ih hnames]
      by_cases hmem : entry.category ∈ names
      · rw [if_pos hmem, if_pos (List.mem_cons_of_mem name hmem), List.map_cons, if_neg hname]
      · have hnot : entry.category ∉ name :: names :=
          List.not_mem_cons_of_ne_of_not_mem (Ne.symm hname) hmem
        rw [if_neg hmem, if_neg hnot, List.cons_append]

/-- One case more is filed where it belongs. -/
theorem add_groupsOf (cases : List Case) (entry : Case) :
    Groups.add entry (groupsOf cases) = groupsOf (cases ++ [entry]) := by
  rw [groupsOf, add_map (nodup_categories cases), groupsOf, categories_append_singleton]
  split
  · exact List.map_congr_left fun category _ => by rw [ofCategory_append_singleton]
  · rename_i hnew
    have hkept : ∀ category ∈ categories cases,
        ofCategory (cases ++ [entry]) category = ofCategory cases category := by
      intro category hcategory
      rw [ofCategory_append_singleton, if_neg]
      rintro rfl
      exact hnew hcategory
    have hnone : ofCategory cases entry.category = [] := by
      refine List.filter_eq_nil_iff.mpr fun other hother hsame => hnew ?_
      exact mem_categories.mpr ⟨other, hother, by simpa using hsame⟩
    rw [List.map_append, List.map_cons, List.map_nil, ofCategory_append_singleton, if_pos rfl,
      hnone, List.nil_append]
    congr 1
    exact List.map_congr_left fun category hcategory => by rw [hkept category hcategory]

/-- The groups of a table. -/
theorem grouped_eq (cases : List Case) : grouped cases = groupsOf cases := by
  -- The cases filed so far are a parameter of the induction.
  suffices h : ∀ filed, cases.foldl (fun groups entry => Groups.add entry groups) (groupsOf filed) =
      groupsOf (filed ++ cases) from h []
  induction cases with
  | nil => intro filed; rw [List.append_nil]; rfl
  | cons entry cases ih =>
    intro filed
    rw [List.foldl_cons, add_groupsOf, ih, List.append_assoc, List.singleton_append]

-- ============================================================================
-- The order of the cases
-- ============================================================================

/-- Cases picked category by category, for categories that are different and all there are. -/
theorem flatMap_ofCategory_perm {names : List String} (hnodup : names.Nodup) {cases : List Case}
    (hall : ∀ entry ∈ cases, entry.category ∈ names) :
    (names.flatMap (ofCategory cases)).Perm cases := by
  induction names generalizing cases with
  | nil =>
    have hnone : cases = [] := List.eq_nil_iff_forall_not_mem.mpr fun entry hentry =>
      List.not_mem_nil (hall entry hentry)
    rw [hnone]
    exact .nil
  | cons name names ih =>
    obtain ⟨hfresh, hnames⟩ := List.nodup_cons.mp hnodup
    -- The other categories find their cases among those of other categories.
    have hothers : names.flatMap (ofCategory cases) =
        names.flatMap (ofCategory (cases.filter fun entry => !decide (entry.category = name))) := by
      rw [List.flatMap_def, List.flatMap_def]
      refine congrArg List.flatten (List.map_congr_left fun other hother => ?_)
      rw [ofCategory, ofCategory, List.filter_filter]
      refine List.filter_congr fun entry _ => ?_
      have hne : other ≠ name := fun hsame => hfresh (hsame ▸ hother)
      by_cases hentry : entry.category = other <;> simp [hentry, hne]
    rw [List.flatMap_cons, hothers]
    refine .trans (.append_left _ (ih hnames fun entry hentry => ?_)) (List.filter_append_perm _ _)
    obtain ⟨hentry, hother⟩ := List.mem_filter.mp hentry
    exact List.mem_of_ne_of_mem (by simpa using hother) (hall entry hentry)

/-- Of the cases category by category, those of one category are all of them, in their order. -/
theorem filter_flatMap_ofCategory {names : List String} (hnodup : names.Nodup) (cases : List Case)
    {category : String} (hmem : category ∈ names) :
    (names.flatMap (ofCategory cases)).filter (fun entry => entry.category = category) =
      ofCategory cases category := by
  -- A group is kept as a whole or not at all.
  have hother : ∀ name, (ofCategory cases name).filter (fun entry => entry.category = category) =
      if name = category then ofCategory cases category else [] := by
    intro name
    rw [ofCategory, List.filter_filter]
    split
    · rename_i hname
      subst hname
      simp [ofCategory]
    · rename_i hname
      refine List.filter_eq_nil_iff.mpr fun entry _ hboth => hname ?_
      simp only [Bool.and_eq_true, decide_eq_true_eq] at hboth
      exact hboth.2.symm.trans hboth.1
  induction names with
  | nil => exact absurd hmem List.not_mem_nil
  | cons name names ih =>
    obtain ⟨hfresh, hnames⟩ := List.nodup_cons.mp hnodup
    rw [List.flatMap_cons, List.filter_append, hother]
    by_cases hname : name = category
    · subst hname
      -- The category is not named again, so nothing of it comes later.
      have hrest : (names.flatMap (ofCategory cases)).filter (fun entry => entry.category = name) =
          [] := by
        rw [List.filter_flatMap, List.flatMap_eq_nil_iff]
        intro other hmem'
        rw [hother, if_neg]
        rintro rfl
        exact hfresh hmem'
      rw [if_pos rfl, hrest, List.append_nil]
    · rw [if_neg hname, List.nil_append]
      exact ih hnames (List.mem_of_ne_of_mem (Ne.symm hname) hmem)

theorem listing_perm (cases : List Case) : (listing cases).Perm cases :=
  flatMap_ofCategory_perm (nodup_categories cases) fun entry hentry =>
    mem_categories.mpr ⟨entry, hentry, rfl⟩

/-- The listing keeps the order of the table within every category. -/
theorem ofCategory_listing (cases : List Case) (category : String) :
    ofCategory (listing cases) category = ofCategory cases category := by
  by_cases hmem : category ∈ categories cases
  · exact filter_flatMap_ofCategory (nodup_categories cases) cases hmem
  · have hnone : ∀ entries : List Case, entries.Perm cases → ofCategory entries category = [] := by
      intro entries hperm
      refine List.filter_eq_nil_iff.mpr fun entry hentry hsame => hmem ?_
      exact mem_categories.mpr ⟨entry, hperm.mem_iff.mp hentry, by simpa using hsame⟩
    rw [hnone _ (listing_perm cases), hnone _ (.refl cases)]

-- ============================================================================
-- Verdicts
-- ============================================================================

/-- An expectation that can be checked. -/
def Expectation.isKnown : Expectation → Bool
  | .unknown _ => false
  | _ => true

/-- A case of which all expectations can be checked. -/
def Case.isKnown (entry : Case) : Bool := entry.expectations.all Expectation.isKnown

/-- Known expectations give a problem or none. -/
theorem exists_firstProblem? (c : Compilation) {expectations : List Expectation}
    (h : expectations.all Expectation.isKnown = true) :
    ∃ problem, firstProblem? c expectations = .ok problem := by
  induction expectations with
  | nil => exact ⟨none, rfl⟩
  | cons e others ih =>
    obtain ⟨he, hothers⟩ := Bool.and_eq_true_iff.mp h
    obtain ⟨found, hfound⟩ : ∃ found, e.problem? c = .ok found := by
      cases e with
      | unknown key => cases he
      | _ => exact ⟨_, rfl⟩
    rw [firstProblem?, hfound]
    cases found with
    | none => exact ih hothers
    | some problem => exact ⟨some problem, rfl⟩

/-- Known cases are checked. -/
theorem Case.exists_problem? {entry : Case} (h : entry.isKnown = true) :
    ∃ problem, entry.problem? = .ok problem := by
  obtain ⟨c, hcompile, -⟩ := Compilation.ofSource_ends ⟨"<check>", entry.source⟩
  have hcompile : compile "<check>" entry.source = .ok c := hcompile
  obtain ⟨problem, hproblem⟩ := exists_firstProblem? c h
  rw [Case.problem?, hcompile]
  change ∃ problem, (if c.succeeded ≠ entry.shouldPass then _ else _) = _
  split
  · exact ⟨_, rfl⟩
  · rw [hproblem]
    exact ⟨problem, rfl⟩

/-- Whether a case is checked and has no problem. -/
def Case.passes (entry : Case) : Bool := entry.problem?.toOption = some none

theorem Case.passes_iff {entry : Case} : entry.passes = true ↔ entry.problem? = .ok none := by
  rw [Case.passes, decide_eq_true_eq]
  exact ⟨eq_ok_of_toOption, fun h => by rw [h]; rfl⟩

/-- What is printed about a case. -/
def Case.lines (entry : Case) : List String :=
  match entry.problem? with
  | .ok (some problem) => ["  ✗ " ++ entry.name, "      " ++ problem.text]
  | _ => ["  ✓ " ++ entry.name]

/-- The cases that do not pass. -/
def failing (cases : List Case) : List Case := cases.filter fun entry => !entry.passes

theorem failing_append (xs ys : List Case) : failing (xs ++ ys) = failing xs ++ failing ys :=
  List.filter_append xs ys

/-- Every case passes or fails. -/
theorem countP_add_length_failing (cases : List Case) :
    cases.countP Case.passes + (failing cases).length = cases.length := by
  rw [failing, ← List.countP_eq_length_filter, List.length_eq_countP_add_countP Case.passes]
  simp

-- ============================================================================
-- Tallies
-- ============================================================================

namespace Tally

/-- A tally after the verdicts on some more cases. -/
def after (tally : Tally) (entries : List Case) : Tally where
  passed := tally.passed + entries.countP Case.passes
  failed := tally.failed + (failing entries).length
  failures := tally.failures ++ (failing entries).map Case.name
  lines := tally.lines ++ entries.flatMap Case.lines

theorem after_nil (tally : Tally) : tally.after [] = tally := by
  simp only [after, failing, List.countP_nil, List.filter_nil, List.length_nil, List.map_nil,
    List.flatMap_nil, List.append_nil, Nat.add_zero]

theorem after_after (tally : Tally) (xs ys : List Case) :
    (tally.after xs).after ys = tally.after (xs ++ ys) := by
  simp only [after, failing_append, List.countP_append, List.length_append, List.map_append,
    List.flatMap_append, List.append_assoc, Nat.add_assoc]

/-- A check changes a tally by its verdict. -/
theorem check_eq (tally : Tally) {entry : Case} (h : entry.isKnown = true) :
    tally.check entry = .ok (tally.after [entry]) := by
  obtain ⟨problem, hproblem⟩ := Case.exists_problem? h
  rw [check, hproblem]
  cases problem with
  | none =>
    have hpasses : entry.passes = true := Case.passes_iff.mpr hproblem
    have hlines : entry.lines = ["  ✓ " ++ entry.name] := by rw [Case.lines, hproblem]
    have hfailing : failing [entry] = [] := List.filter_cons_of_neg (by simp [hpasses])
    rw [after, hfailing, List.countP_cons_of_pos hpasses, List.flatMap_singleton, hlines,
      List.map_nil, List.append_nil]
    rfl
  | some problem =>
    have hpasses : ¬entry.passes = true := by
      rw [Case.passes_iff, hproblem]
      exact fun hsame => Option.some_ne_none problem (Except.ok.inj hsame)
    have hlines : entry.lines = ["  ✗ " ++ entry.name, "      " ++ problem.text] := by
      rw [Case.lines, hproblem]
    have hfailing : failing [entry] = [entry] := List.filter_cons_of_pos (by simp [hpasses])
    rw [after, hfailing, List.countP_cons_of_neg hpasses, List.flatMap_singleton, hlines]
    rfl

/-- So do checks one after the other. -/
theorem foldlM_check (tally : Tally) {entries : List Case}
    (h : ∀ entry ∈ entries, entry.isKnown = true) :
    entries.foldlM check tally = .ok (tally.after entries) := by
  induction entries generalizing tally with
  | nil => exact congrArg Except.ok tally.after_nil.symm
  | cons entry entries ih =>
    obtain ⟨hentry, hentries⟩ := List.forall_mem_cons.mp h
    rw [List.foldlM_cons, check_eq tally hentry]
    change entries.foldlM check (tally.after [entry]) = _
    rw [ih _ hentries, after_after, List.singleton_append]

end Tally

/-- What is printed about a category: a heading, its cases, and how many of them passed. -/
def sectionLines (category : String) (members : List Case) : List String :=
  ("\n[" ++ category ++ "]") :: (members.flatMap Case.lines ++
    [s!"  [{members.countP Case.passes}/{members.length} passed]"])

namespace Tally

/-- A tally after the verdicts on the cases of some more categories. -/
def afterGroups (total : Tally) (groups : Groups) : Tally :=
  { total.after (groups.flatMap Prod.snd) with
    lines := total.lines ++ groups.flatMap fun group => sectionLines group.1 group.2 }

theorem afterGroups_nil (total : Tally) : total.afterGroups [] = total := by
  rw [afterGroups, List.flatMap_nil, after_nil, List.flatMap_nil, List.append_nil]

theorem afterGroups_afterGroups (total : Tally) (xs ys : Groups) :
    (total.afterGroups xs).afterGroups ys = total.afterGroups (xs ++ ys) := by
  simp only [afterGroups, after, failing_append, List.countP_append, List.length_append,
    List.map_append, List.flatMap_append, List.append_assoc, Nat.add_assoc]

/-- The counts of a category are added to those of all. -/
theorem checkGroup_eq (total : Tally) {group : String × List Case}
    (h : ∀ entry ∈ group.2, entry.isKnown = true) :
    total.checkGroup group = .ok (total.afterGroups [group]) := by
  rw [checkGroup, foldlM_check _ h]
  refine congrArg Except.ok ?_
  simp only [after, afterGroups, sectionLines, Nat.zero_add, countP_add_length_failing group.2,
    List.flatMap_singleton, List.append_assoc, List.cons_append, List.nil_append]

/-- The tally of a table of groups. -/
theorem foldlM_checkGroup (total : Tally) {groups : Groups}
    (h : ∀ group ∈ groups, ∀ entry ∈ group.2, entry.isKnown = true) :
    groups.foldlM checkGroup total = .ok (total.afterGroups groups) := by
  induction groups generalizing total with
  | nil => exact congrArg Except.ok total.afterGroups_nil.symm
  | cons group groups ih =>
    obtain ⟨hgroup, hgroups⟩ := List.forall_mem_cons.mp h
    rw [List.foldlM_cons, checkGroup_eq total hgroup]
    change groups.foldlM checkGroup (total.afterGroups [group]) = _
    rw [ih _ hgroups, afterGroups_afterGroups, List.singleton_append]

end Tally

-- ============================================================================
-- The report
-- ============================================================================

/-- All that is printed for a table: its categories one after the other, how many cases passed, and
    the names of those that did not. -/
def reportLines (cases : List Case) : List String :=
  ["\n" ++ rule, "TEST SUITE", rule] ++
    (categories cases).flatMap (fun category =>
      sectionLines category (ofCategory cases category)) ++
    (["\n" ++ rule, s!"TOTAL: {cases.countP Case.passes}/{cases.length} tests passed"] ++
      failedLines ((failing (listing cases)).map Case.name) ++ [rule])

theorem flatMap_snd_groupsOf (cases : List Case) :
    (groupsOf cases).flatMap Prod.snd = listing cases := by
  rw [groupsOf, List.flatMap_map]
  rfl

/-- A table of known cases is run to its end, with these counts and this text. -/
theorem run_eq {cases : List Case} (h : ∀ entry ∈ cases, entry.isKnown = true) :
    run cases = .ok ⟨cases.countP Case.passes, (failing cases).length,
      Compilation.closeLines (reportLines cases)⟩ := by
  have hgroups : ∀ group ∈ groupsOf cases, ∀ entry ∈ group.2, entry.isKnown = true := by
    intro group hgroup entry hentry
    obtain ⟨category, -, rfl⟩ := List.mem_map.mp hgroup
    exact h entry (List.mem_filter.mp hentry).1
  have hperm := listing_perm cases
  have hpassed : (listing cases).countP Case.passes = cases.countP Case.passes := hperm.countP_eq _
  have hfailed : (failing (listing cases)).length = (failing cases).length :=
    (hperm.filter _).length_eq
  rw [run, grouped_eq, Tally.foldlM_checkGroup _ hgroups]
  refine congrArg Except.ok ?_
  simp only [Tally.afterGroups, Tally.after, flatMap_snd_groupsOf, hpassed, hfailed, Nat.zero_add,
    List.nil_append, countP_add_length_failing cases, reportLines]
  rw [groupsOf, List.flatMap_map]

/-- The categories of the listing: each of them in one run, in the order in which they first occur
    in the table. -/
theorem map_category_listing (cases : List Case) :
    (listing cases).map Case.category = (categories cases).flatMap fun category =>
      List.replicate (ofCategory cases category).length category := by
  rw [listing, List.map_flatMap]
  refine congrArg (List.flatMap · _) (funext fun category => ?_)
  refine List.eq_replicate_iff.mpr ⟨List.length_map _, ?_⟩
  intro name hname
  obtain ⟨entry, hentry, rfl⟩ := List.mem_map.mp hname
  simpa using (List.mem_filter.mp hentry).2

/-- No case is lost or repeated. For every table with known expectations, the run counts as passed
    the cases without a problem and as failed all others. What it prints is made of the lines of
    the cases as they are listed, with a heading and a count for each category, and of the names of
    the failing ones in the same order. The listing is the table rearranged: categories in the order
    in which they first occur, and the order of the table within each of them. -/
theorem run_reports_each_case (cases : List Case) (h : ∀ entry ∈ cases, entry.isKnown = true) :
    ∃ summary, run cases = .ok summary ∧
      summary.passed = cases.countP Case.passes ∧
      summary.failed = cases.countP (fun entry => !entry.passes) ∧
      summary.passed + summary.failed = cases.length ∧
      summary.text = Compilation.closeLines (reportLines cases) ∧
      (listing cases).Perm cases ∧
      (∀ category, ofCategory (listing cases) category = ofCategory cases category) ∧
      (listing cases).map Case.category = (categories cases).flatMap (fun category =>
        List.replicate (ofCategory cases category).length category) ∧
      ∀ entry ∈ cases, entry.passes = true ↔ entry.problem? = .ok none := by
  have hfailed : (failing cases).length = cases.countP (fun entry => !entry.passes) :=
    List.countP_eq_length_filter.symm
  refine ⟨_, run_eq h, rfl, hfailed, countP_add_length_failing cases, ?_, listing_perm cases,
    ofCategory_listing cases, map_category_listing cases, fun entry _ => Case.passes_iff⟩
  dsimp only

/-- Two categories that take turns, and a case that fails in the first of them. -/
theorem run_reports_each_case_sample :
    let cases : List Case :=
      [⟨"Vars: one", "let", false, [.stage .syntaxFailed]⟩,
        ⟨"Names: two", "let y = z", false, [.errorCount 1]⟩,
        ⟨"Vars: three", "let", true, []⟩,
        ⟨"Names: four", "x", false, []⟩]
    (∀ entry ∈ cases, entry.isKnown = true) ∧
      (listing cases).map Case.name = ["Vars: one", "Vars: three", "Names: two", "Names: four"] ∧
      (failing (listing cases)).map Case.name = ["Vars: three"] ∧
      ∃ summary, run cases = .ok summary ∧ summary.passed = 3 ∧ summary.failed = 1 := by
  intro cases
  have hknown : ∀ entry ∈ cases, entry.isKnown = true := by decide
  have hpassed : cases.countP Case.passes = 3 := by decide +kernel
  obtain ⟨summary, hrun, hcount, -, hall, -⟩ := run_reports_each_case cases hknown
  refine ⟨hknown, by decide +kernel, by decide +kernel, summary, hrun, hcount.trans hpassed, ?_⟩
  have hlength : cases.length = 4 := rfl
  omega

end Storyboard.SelfCheck
