/-
  Storyboard.Proofs.Number.Numeral

  Numerals in ASCII. Reading knows many forms of numerals, but one that begins with a
  digit and has only ASCII characters of numerals is left as it is and read as a
  decimal number.
-/
import Storyboard.Number.Numeral
import Storyboard.Proofs.Number.Rounding

namespace Storyboard.Numeral

open Text (isAsciiDigit)

/-- Digits, a point, the letter of an exponent, and signs. -/
def isAsciiNumeral (c : Char) : Bool := isAsciiDigit c || ['.', 'e', '+', '-'].contains c

/-- There are ten digits. -/
theorem mem_of_isAsciiDigit {c : Char} (h : isAsciiDigit c = true) :
    c ∈ ['0', '1', '2', '3', '4', '5', '6', '7', '8', '9'] := by
  simp only [isAsciiDigit, Bool.and_eq_true, decide_eq_true_eq, Char.le_def,
    UInt32.le_iff_toNat_le] at h
  obtain ⟨hlow, hhigh⟩ := h
  have hvalue : c.toNat = 48 ∨ c.toNat = 49 ∨ c.toNat = 50 ∨ c.toNat = 51 ∨ c.toNat = 52 ∨
      c.toNat = 53 ∨ c.toNat = 54 ∨ c.toNat = 55 ∨ c.toNat = 56 ∨ c.toNat = 57 := by
    change 48 ≤ c.toNat at hlow
    change c.toNat ≤ 57 at hhigh
    omega
  rw [← Char.ofNat_toNat c]
  rcases hvalue with h | h | h | h | h | h | h | h | h | h
  all_goals
    rw [h]
    decide

/-- A character of a numeral is no margin and no underscore, and it is its own ASCII form. -/
theorem isAsciiNumeral_facts {c : Char} (h : isAsciiNumeral c = true) :
    isMargin c = false ∧ toAscii c = c ∧ c ≠ '_' := by
  have htable : ['0', '1', '2', '3', '4', '5', '6', '7', '8', '9', '.', 'e', '+', '-'].all
      (fun c => !isMargin c && toAscii c == c && c != '_') = true := by decide
  have hmem : c ∈ ['0', '1', '2', '3', '4', '5', '6', '7', '8', '9'] ++ ['.', 'e', '+', '-'] := by
    rw [isAsciiNumeral, Bool.or_eq_true] at h
    exact List.mem_append.mpr (h.imp mem_of_isAsciiDigit List.contains_iff_mem.mp)
  simpa [and_assoc] using List.all_eq_true.mp htable c hmem

/-- A digit is no sign, and no word begins with it. -/
theorem isAsciiDigit_facts {c : Char} (h : isAsciiDigit c = true) :
    c ≠ '-' ∧ c ≠ '+' ∧ c.toLower ≠ 'i' ∧ c.toLower ≠ 'n' := by
  have htable : ['0', '1', '2', '3', '4', '5', '6', '7', '8', '9'].all
      (fun c => c != '-' && c != '+' && c.toLower != 'i' && c.toLower != 'n') = true := by decide
  simpa [and_assoc] using List.all_eq_true.mp htable c (mem_of_isAsciiDigit h)

/-- A text without margins is not trimmed. -/
theorem trim_eq_self {cs : List Char} (h : ∀ c ∈ cs, isMargin c = false) : trim cs = cs := by
  have hdrop : ∀ ds : List Char, (∀ c ∈ ds, isMargin c = false) → ds.dropWhile isMargin = ds := by
    intro ds hds
    cases ds with
    | nil => rfl
    | cons d ds => exact List.dropWhile_cons_of_neg (by simp [hds d List.mem_cons_self])
  rw [trim, hdrop cs h, hdrop cs.reverse (by simpa using h), List.reverse_reverse]

/-- A text without underscores has no groups to join. -/
theorem joinGroups?_eq_some {cs : List Char} (h : ∀ c ∈ cs, c ≠ '_') (previous : Option Char) :
    joinGroups? previous cs = some cs := by
  fun_induction joinGroups? previous cs with
  | case1 => rfl
  | case2 => exact absurd rfl (h '_' List.mem_cons_self)
  | case3 => exact absurd rfl (h '_' List.mem_cons_self)
  | case4 => exact absurd rfl (h _ List.mem_cons_self)
  | case5 previous c rest _ hc ih =>
    rw [ih fun d hd => h d (List.mem_cons_of_mem c hd), Option.map_some]

/-- What begins with a digit is no word. -/
theorem unsigned?_eq_decimal? {c : Char} {cs : List Char} (hdigit : isAsciiDigit c = true)
    (negative : Bool) : unsigned? negative (c :: cs) = decimal? negative (c :: cs) := by
  obtain ⟨-, -, hi, hn⟩ := isAsciiDigit_facts hdigit
  have hword {d : Char} {ds : List Char} (hd : c.toLower ≠ d) :
      ¬String.ofList ((c :: cs).map Char.toLower) = String.ofList (d :: ds) := by
    intro heq
    have hchars := String.ofList_inj.mp heq
    rw [List.map_cons, List.cons.injEq] at hchars
    exact hd hchars.1
  have hinf : ¬String.ofList ((c :: cs).map Char.toLower) = "inf" := @hword 'i' ['n', 'f'] hi
  have hinfinity : ¬String.ofList ((c :: cs).map Char.toLower) = "infinity" :=
    @hword 'i' ['n', 'f', 'i', 'n', 'i', 't', 'y'] hi
  have hnan : ¬String.ofList ((c :: cs).map Char.toLower) = "nan" := @hword 'n' ['a', 'n'] hn
  simp only [unsigned?, hinf, hinfinity, hnan, decide_false, Bool.or_self, Bool.false_eq_true,
    if_false]

/-- A numeral in ASCII that begins with a digit is read as a decimal number. -/
theorem read?_eq_decimal? {c : Char} {cs : List Char} (hdigit : isAsciiDigit c = true)
    (hall : ∀ d ∈ cs, isAsciiNumeral d = true) :
    read? (String.ofList (c :: cs)) = decimal? false (c :: cs) := by
  have hfacts : ∀ d ∈ c :: cs, isMargin d = false ∧ toAscii d = d ∧ d ≠ '_' := fun d hd =>
    isAsciiNumeral_facts (List.forall_mem_cons.mpr ⟨by simp [isAsciiNumeral, hdigit], hall⟩ d hd)
  have hascii : (c :: cs).map toAscii = c :: cs := by
    rw [List.map_congr_left fun d hd => (hfacts d hd).2.1, List.map_id']
  obtain ⟨hminus, hplus, -⟩ := isAsciiDigit_facts hdigit
  have hsigned : signed (c :: cs) = (false, c :: cs) := by simp [signed, hminus, hplus]
  rw [read?, String.toList_ofList, trim_eq_self fun d hd => (hfacts d hd).1, hascii,
    joinGroups?_eq_some fun d hd => (hfacts d hd).2.2, Option.bind_some, hsigned]
  exact unsigned?_eq_decimal? hdigit false

/-- A decimal number without a sign is not negative, and is a number. -/
theorem decimal?_unsigned {cs : List Char} {x : Binary64} (h : decimal? false cs = some x) :
    x.isNegative = false ∧ x.magnitude ≤ Binary64.infinityBits := by
  rw [decimal?] at h
  dsimp only at h
  split at h
  all_goals
    split at h
    · cases h
    · obtain ⟨e, -, rfl⟩ := Option.map_eq_some_iff.mp h
      exact Binary64.ofDecimal_unsigned _ _

end Storyboard.Numeral
