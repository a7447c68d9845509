/-
  Storyboard.Proofs.Script.Names

  Names in scripts never meet by accident. The mark that a script puts behind a name is
  no character of an identifier, so a marked name differs from every name without a
  mark, and a name that was left alone is none of those the script needs for itself:
  the reserved ones and those that begin like a name it makes up are marked, and the
  one made-up name that begins like no other, `animate`, is a keyword.
-/
import Storyboard.Proofs.Source.Places
import Storyboard.Script.Name

namespace Storyboard

/-- A name that some text has as an identifier. -/
def Scanned (name : String) : Prop :=
  ∃ text, ∃ token ∈ tokenize text, token.kind = .identifier ∧ token.text = name

theorem Scanned.isName {name : String} (h : Scanned name) : IsName name.toList := by
  obtain ⟨text, token, hmem, hkind, rfl⟩ := h
  exact (isName_of_mem_tokenize hmem hkind).1

/-- The mark is no character of an identifier. -/
theorem IsName.mark_not_mem {name : List Char} (h : IsName name) : '$' ∉ name := by
  intro hmem
  exact absurd (h.wordChars '$' hmem) (by decide)

namespace Script

/-! ## Names that scripts make up -/

/-- The constants and counters of a script. -/
inductive Temporary : String → Prop where
  | constant {name : String} :
      name ∈ ["__x", "__y", "__size", "__w", "__h", "__color"] → Temporary name
  | coordinate {head : String} (n : Nat) : head ∈ ["__x", "__y"] → Temporary (head ++ toString n)
  | counter {head : String} (depth : Int) :
      head ∈ ["__i", "__n"] → Temporary (head ++ toString depth)

/-- The bases of the names of routines. -/
inductive RoutineBase : String → Prop where
  | animation : RoutineBase "animate"
  | scene {title : String} : Scanned title → RoutineBase ("scene_" ++ title)

/-- A name that no name of the program can become: it has no mark, and if it is no keyword then it
    begins in a way that gets a mark. -/
structure SetApart (name : String) : Prop where
  noMark : '$' ∉ name.toList
  marked : needsMark name = true ∨ ¬ IsName name.toList

/-- A name of the program becomes none that is set apart. -/
theorem SetApart.userName_ne {x name : String} (h : SetApart name) (hx : IsName x.toList) :
    userName x ≠ name := by
  rintro rfl
  unfold userName at h
  split at h
  · exact h.noMark (by simp)
  · rename_i hmark
    rcases h.marked with hneeds | hno
    · exact hmark hneeds
    · exact hno hx

/-- Whether a name begins like those that scripts make up. -/
def BeginsMadeUp (name : String) : Prop :=
  ∃ head ∈ generatedHeads, beginsWith head name = true

/-- What follows does not change how a name begins. -/
theorem BeginsMadeUp.append {name : String} (h : BeginsMadeUp name) (rest : String) :
    BeginsMadeUp (name ++ rest) := by
  obtain ⟨head, hhead, hbegins⟩ := h
  refine ⟨head, hhead, ?_⟩
  unfold beginsWith at hbegins ⊢
  rw [List.isPrefixOf_iff_prefix] at hbegins ⊢
  rw [String.toList_append]
  exact hbegins.trans (List.prefix_append _ _)

/-- A name that begins like those made up gets a mark. -/
theorem BeginsMadeUp.needsMark {name : String} (h : BeginsMadeUp name) :
    needsMark name = true := by
  obtain ⟨head, hhead, hbegins⟩ := h
  have hany : (generatedHeads.any fun head => beginsWith head name) = true :=
    List.any_eq_true.mpr ⟨head, hhead, hbegins⟩
  rw [Script.needsMark, hany, Bool.or_true]

/-- The digits of a number hold no mark. -/
theorem mark_not_mem_toString (n : Nat) : '$' ∉ (toString n).toList := by
  intro hmem
  have hmem' : '$' ∈ Nat.toDigits 10 n := by simpa using hmem
  exact absurd (Nat.isDigit_of_mem_toDigits (by decide) (by decide) hmem') (by decide)

/-- Nor does a sign before them. -/
theorem mark_not_mem_toString_int (n : Int) : '$' ∉ (toString n).toList := by
  cases n with
  | ofNat n => exact mark_not_mem_toString n
  | negSucc n =>
    change '$' ∉ ("-" ++ toString (n + 1)).toList
    rw [String.toList_append, List.mem_append]
    exact not_or.mpr ⟨by decide, mark_not_mem_toString (n + 1)⟩

theorem mark_not_mem_append {x y : String} (hx : '$' ∉ x.toList) (hy : '$' ∉ y.toList) :
    '$' ∉ (x ++ y).toList := by
  rw [String.toList_append, List.mem_append]
  exact not_or.mpr ⟨hx, hy⟩

/-- Constants and counters are set apart. -/
theorem Temporary.setApart {name : String} (h : Temporary name) : SetApart name := by
  have hnumbered : ∀ {head number : String}, head ∈ ["__x", "__y", "__i", "__n"] →
      '$' ∉ number.toList → SetApart (head ++ number) := by
    intro head number hhead hnumber
    have hbegins : BeginsMadeUp head ∧ '$' ∉ head.toList := by
      simp only [List.mem_cons, List.not_mem_nil, or_false] at hhead
      rcases hhead with rfl | rfl | rfl | rfl
      all_goals exact ⟨⟨"__", by decide, by decide⟩, by decide⟩
    exact ⟨mark_not_mem_append hbegins.2 hnumber, .inl (hbegins.1.append _).needsMark⟩
  cases h with
  | constant hname =>
    simp only [List.mem_cons, List.not_mem_nil, or_false] at hname
    rcases hname with rfl | rfl | rfl | rfl | rfl | rfl
    all_goals exact ⟨by decide, .inl (by decide)⟩
  | coordinate n hhead =>
    exact hnumbered (List.mem_append_left ["__i", "__n"] hhead) (mark_not_mem_toString n)
  | counter depth hhead =>
    exact hnumbered (List.mem_append_right ["__x", "__y"] hhead) (mark_not_mem_toString_int depth)

/-- A base with a number behind it. -/
theorem candidate_succ (base : String) (n : Nat) :
    candidate base (n + 1) = base ++ ("_" ++ toString (n + 2)) := by
  rw [candidate, String.append_assoc]

/-- Every name that a routine may get is set apart. -/
theorem RoutineBase.setApart {base : String} (h : RoutineBase base) (n : Nat) :
    SetApart (candidate base n) := by
  have hnumber : ∀ n : Nat, '$' ∉ ("_" ++ toString (n + 2)).toList := fun n =>
    mark_not_mem_append (by decide) (mark_not_mem_toString (n + 2))
  cases h with
  | animation =>
    cases n with
    | zero =>
      -- The bare `animate` is a keyword, so no name of a text can be the same.
      refine ⟨by decide, .inr fun hname => ?_⟩
      exact hname.noKeyword (.statement .animateWord) (by unfold Lexical.Spells; decide)
    | succ n =>
      have hbegins : BeginsMadeUp ("animate" ++ "_") := ⟨"animate_", by decide, by decide⟩
      refine ⟨?_, .inl ?_⟩
      · rw [candidate_succ]
        exact mark_not_mem_append (by decide) (hnumber n)
      · exact (hbegins.append _).needsMark
  | @scene title htitle =>
    have hbegins : BeginsMadeUp ("scene_" ++ title) :=
      BeginsMadeUp.append ⟨"scene_", by decide, by decide⟩ title
    have hmark : '$' ∉ ("scene_" ++ title).toList :=
      mark_not_mem_append (by decide) htitle.isName.mark_not_mem
    cases n with
    | zero => exact ⟨hmark, .inl hbegins.needsMark⟩
    | succ n =>
      rw [candidate_succ]
      exact ⟨mark_not_mem_append hmark (hnumber n), .inl (hbegins.append _).needsMark⟩

/-- The name of a routine is a candidate for it, whatever names are taken. -/
theorem exists_candidate (taken : List String) (base : String) :
    ∃ n, freshName taken base = candidate base n := by
  dsimp only [freshName]
  cases hfind : ((List.range (taken.length + 1)).map (candidate base)).find?
      fun name => !taken.contains name with
  | none => exact ⟨0, rfl⟩
  | some name =>
    obtain ⟨n, -, rfl⟩ := List.mem_map.mp (List.mem_of_find?_eq_some hfind)
    exact ⟨n, rfl⟩

/-! ## Names of the program -/

/-- No reserved name has a mark. -/
theorem mark_not_mem_of_reserved {name : String} (h : name ∈ reservedNames) :
    '$' ∉ name.toList := by
  have hall : ∀ name ∈ reservedNames, '$' ∉ name.toList := by decide
  exact hall name h

/-- No name of the program becomes a reserved one. -/
theorem userName_not_reserved {x : String} : userName x ∉ reservedNames := by
  unfold userName
  split
  · intro hmem
    exact mark_not_mem_of_reserved hmem (by simp)
  · rename_i hmark
    intro hmem
    exact hmark (by simp [needsMark, hmem])

/-- Two names of the program never become the same. -/
theorem eq_of_userName_eq {x y : String} (hx : IsName x.toList) (hy : IsName y.toList)
    (h : userName x = userName y) : x = y := by
  unfold userName at h
  split at h
  · split at h
    · have hlist := congrArg String.toList h
      rw [String.toList_append, String.toList_append] at hlist
      exact String.toList_inj.mp (List.append_cancel_right hlist)
    · exact absurd (h ▸ hy.mark_not_mem) (by simp)
  · split at h
    · exact absurd (h ▸ hx.mark_not_mem) (by simp)
    · exact h

end Script

open Script

/-- Names of the program never collide in the script. For any name that a text can have as an
    identifier, no other such name is written the same way, and it is written neither as a reserved
    name nor as one that the script makes up for itself: a routine's name, whatever names are taken
    and whatever number it gets, a constant or a counter. -/
theorem userName_apart (x : String) (hx : Scanned x) :
    (∀ y, Scanned y → userName x = userName y → x = y) ∧
      userName x ∉ reservedNames ∧
      (∀ base, RoutineBase base →
        (∀ taken, userName x ≠ freshName taken base) ∧ ∀ n, userName x ≠ candidate base n) ∧
      ∀ name, Temporary name → userName x ≠ name := by
  have hroutine : ∀ base, RoutineBase base → ∀ n, userName x ≠ candidate base n :=
    fun base hbase n => (hbase.setApart n).userName_ne hx.isName
  refine ⟨?_, userName_not_reserved, ?_, ?_⟩
  · intro y hy heq
    exact eq_of_userName_eq hx.isName hy.isName heq
  · intro base hbase
    refine ⟨fun taken => ?_, hroutine base hbase⟩
    obtain ⟨n, hn⟩ := exists_candidate taken base
    rw [hn]
    exact hroutine base hbase n
  · intro name hname
    exact hname.setApart.userName_ne hx.isName

/-- The name of a scene's second routine, if the program uses it too. -/
theorem userName_apart_sample :
    Scanned "scene_a_2" ∧ userName "scene_a_2" = "scene_a_2$" ∧
      freshName ["scene_a"] "scene_a" = "scene_a_2" ∧
      userName "scene_a_2" ≠ freshName ["scene_a"] ("scene_" ++ "a") := by
  have hscanned : ∀ name : String,
      ((tokenize name).any fun token => token.kind = .identifier && token.text = name) = true →
        Scanned name := by
    intro name h
    obtain ⟨token, hmem, htoken⟩ := List.any_eq_true.mp h
    rw [Bool.and_eq_true, decide_eq_true_eq, decide_eq_true_eq] at htoken
    exact ⟨name, token, hmem, htoken⟩
  have hx := hscanned "scene_a_2" (by decide +kernel)
  have htitle := hscanned "a" (by decide +kernel)
  exact ⟨hx, by decide +kernel, by decide +kernel,
    ((userName_apart "scene_a_2" hx).2.2.1 _ (.scene htitle)).1 ["scene_a"]⟩

end Storyboard
