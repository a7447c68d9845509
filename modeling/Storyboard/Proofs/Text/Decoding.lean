/-
  Storyboard.Proofs.Text.Decoding

  What a literal stands for.

  A literal is read as scripts and record files read it: up to the first quote without
  a backslash before it, each escape as the sixteen-bit units it names, and every other
  character as its own units. The units are then read as UTF-16. A reader does not know
  how long a literal is, so it gives what is left behind the closing quote as well.
  `readLiteral?_literal` says that the reader finds the value of a literal and stops at
  its end, whatever stands behind it.
-/
import Storyboard.Text.Quoted

namespace Storyboard.Text

-- ============================================================================
-- The reader
-- ============================================================================

/-- The value of a hexadecimal digit, in either case. -/
def hexValue? (c : Char) : Option Nat :=
  if '0' ≤ c ∧ c ≤ '9' then some (c.toNat - 48)
  else if 'a' ≤ c ∧ c ≤ 'f' then some (c.toNat - 87)
  else if 'A' ≤ c ∧ c ≤ 'F' then some (c.toNat - 55)
  else none

/-- The number that hexadecimal digits are written for. -/
def hexNumber? (digits : List Char) : Option Nat :=
  digits.foldlM (fun number digit => (hexValue? digit).map (16 * number + ·)) 0

/-- Escapes of one character behind the backslash, and the units they name. -/
def shortEscapes : List (Char × Nat) :=
  [('\x22', 0x22), ('\\', 0x5C), ('/', 0x2F), ('b', 0x08), ('f', 0x0C), ('n', 0x0A), ('r', 0x0D),
   ('t', 0x09)]

/-- The sixteen-bit units of a character: one, or a surrogate pair. -/
def utf16 (c : Char) : List Nat :=
  if c.toNat < 0x10000 then [c.toNat]
  else [0xD800 + (c.toNat - 0x10000) / 0x400, 0xDC00 + (c.toNat - 0x10000) % 0x400]

/-- The units of a literal whose opening quote was read, and what is left behind its closing
    quote. Control characters are refused, line ends among them. -/
def readUnits? : List Char → Option (List Nat × List Char)
  | [] => none
  | c :: cs =>
    if c = '\x22' then some ([], cs)
    else if c = '\\' then
      match cs with
      | [] => none
      | escape :: cs =>
        if escape = 'u' then
          match cs with
          | d₁ :: d₂ :: d₃ :: d₄ :: cs => do
            let unit ← hexNumber? [d₁, d₂, d₃, d₄]
            let (units, rest) ← readUnits? cs
            return (unit :: units, rest)
          | _ => none
        else do
          let unit ← shortEscapes.lookup escape
          let (units, rest) ← readUnits? cs
          return (unit :: units, rest)
    else if c < ' ' then none
    else do
      let (units, rest) ← readUnits? cs
      return (utf16 c ++ units, rest)

/-- The first unit of a surrogate pair. -/
def isHighSurrogate (unit : Nat) : Bool := 0xD800 ≤ unit && unit < 0xDC00

/-- The second unit of a surrogate pair. -/
def isLowSurrogate (unit : Nat) : Bool := 0xDC00 ≤ unit && unit < 0xE000

/-- The characters of units; a surrogate that is not in a pair has none. -/
def ofUtf16? : List Nat → Option (List Char)
  | [] => some []
  | unit :: units =>
    if isHighSurrogate unit then
      match units with
      | [] => none
      | low :: more =>
        if isLowSurrogate low then
          (ofUtf16? more).map
            (Char.ofNat (0x10000 + 0x400 * (unit - 0xD800) + (low - 0xDC00)) :: ·)
        else none
    else if isLowSurrogate unit then none
    else (ofUtf16? units).map (Char.ofNat unit :: ·)

/-- The value of the literal at the front of a text, and what is left behind it. -/
def readLiteral? : List Char → Option (List Char × List Char)
  | '\x22' :: cs => do
    let (units, rest) ← readUnits? cs
    let value ← ofUtf16? units
    return (value, rest)
  | _ => none

-- ============================================================================
-- Escapes
-- ============================================================================

/-- What holds of the sixteen digits holds of every character of a hexadecimal numeral. -/
theorem forall_mem_hexDigits {good : Char → Prop} (h : ∀ d < 16, good (hexDigit d))
    {width n : Nat} : ∀ c ∈ hexDigits width n, good c := by
  induction width generalizing n with
  | zero => simp [hexDigits]
  | succ width ih =>
    rw [hexDigits]
    exact List.forall_mem_append.mpr ⟨ih,
      List.forall_mem_singleton.mpr (h (n % 16) (Nat.mod_lt n (by decide)))⟩

/-- Sixteen-bit units are read back from their four digits. -/
theorem hexNumber?_hexDigits {n : Nat} (h : n < 0x10000) : hexNumber? (hexDigits 4 n) = some n := by
  have hdigit : ∀ d < 16, hexValue? (hexDigit d) = some d := by decide
  have hdigits : hexDigits 4 n = [hexDigit (n / 16 / 16 / 16 % 16), hexDigit (n / 16 / 16 % 16),
      hexDigit (n / 16 % 16), hexDigit (n % 16)] := rfl
  rw [hdigits, hexNumber?]
  simp only [List.foldlM_cons, List.foldlM_nil, hdigit _ (Nat.mod_lt _ (by decide : 0 < 16)),
    Option.map_some, Option.bind_eq_bind, Option.bind_some, Option.pure_def, Option.some.injEq]
  omega

theorem readUnits?_escapeUnit {unit : Nat} (h : unit < 0x10000) (rest : List Char) :
    readUnits? (escapeUnit unit ++ rest) =
      (readUnits? rest).map fun read => (unit :: read.1, read.2) := by
  obtain ⟨d₁, d₂, d₃, d₄, hdigits⟩ : ∃ d₁ d₂ d₃ d₄, hexDigits 4 unit = [d₁, d₂, d₃, d₄] :=
    ⟨_, _, _, _, rfl⟩
  have hnumber := hexNumber?_hexDigits h
  rw [hdigits] at hnumber
  rw [escapeUnit, hdigits]
  cases hrest : readUnits? rest <;> simp [readUnits?, hnumber, hrest]

theorem readUnits?_shortEscape {escape : Char} {unit : Nat} (h : (escape, unit) ∈ shortEscapes)
    (rest : List Char) :
    readUnits? ('\\' :: escape :: rest) =
      (readUnits? rest).map fun read => (unit :: read.1, read.2) := by
  have htable : shortEscapes.all (fun entry => entry.1 != 'u' &&
      shortEscapes.lookup entry.1 == some entry.2) = true := by decide
  have hentry := List.all_eq_true.mp htable _ h
  simp only [Bool.and_eq_true, bne_iff_ne, beq_iff_eq] at hentry
  obtain ⟨hne, hlookup⟩ := hentry
  rw [readUnits?.eq_def]
  cases hrest : readUnits? rest <;> simp [hne, hlookup, hrest]

theorem readUnits?_plain {c : Char} (hquote : c ≠ '\x22') (hslash : c ≠ '\\') (hprint : ' ' ≤ c)
    (rest : List Char) :
    readUnits? (c :: rest) = (readUnits? rest).map fun read => (utf16 c ++ read.1, read.2) := by
  have hcontrol : ¬c < ' ' := Char.not_lt.mpr hprint
  rw [readUnits?.eq_def]
  cases hrest : readUnits? rest <;> simp [hquote, hslash, hcontrol, hrest]

/-- The two halves of a surrogate pair are sixteen-bit units. -/
theorem surrogates_lt {c : Char} :
    0xD800 + (c.toNat - 0x10000) / 0x400 < 0xDC00 ∧
      0xDC00 + (c.toNat - 0x10000) % 0x400 < 0xE000 := by
  have hvalid := c.valid
  have hbound : c.toNat < 0x110000 := by
    rcases hvalid with h | h
    · exact Nat.lt_trans h (by decide)
    · exact h.2
  omega

theorem utf16_ne_nil (c : Char) : utf16 c ≠ [] := by
  unfold utf16
  split <;> exact List.cons_ne_nil _ _

/-- A character of a literal is escaped by one character, stands for itself, or is escaped by its
    units. -/
theorem literalChar_forms (c : Char) :
    (∃ escape unit, literalChar c = ['\\', escape] ∧ utf16 c = [unit] ∧
      (escape, unit) ∈ shortEscapes) ∨
    (literalChar c = [c] ∧ c ≠ '\x22' ∧ c ≠ '\\' ∧ ' ' ≤ c ∧ c ≤ '~') ∨
    literalChar c = (utf16 c).flatMap escapeUnit := by
  unfold literalChar
  split
  · rename_i hc
    simp only [Bool.or_eq_true, decide_eq_true_eq] at hc
    rcases hc with rfl | rfl
    · exact .inl ⟨_, _, rfl, rfl, by decide⟩
    · exact .inl ⟨_, _, rfl, rfl, by decide⟩
  rename_i hspecial
  simp only [Bool.or_eq_true, decide_eq_true_eq, not_or] at hspecial
  split
  · rename_i hc
    exact .inl ⟨'n', 0x0A, rfl, hc ▸ rfl, by decide⟩
  split
  · rename_i hc
    exact .inl ⟨'r', 0x0D, rfl, hc ▸ rfl, by decide⟩
  split
  · rename_i hc
    exact .inl ⟨'t', 0x09, rfl, hc ▸ rfl, by decide⟩
  split
  · rename_i hc
    exact .inl ⟨'b', 0x08, rfl, hc ▸ rfl, by decide⟩
  split
  · rename_i hc
    exact .inl ⟨'f', 0x0C, rfl, hc ▸ rfl, by decide⟩
  split
  · rename_i hprint
    simp only [Bool.and_eq_true, decide_eq_true_eq] at hprint
    exact .inr (.inl ⟨rfl, hspecial.1, hspecial.2, hprint⟩)
  refine .inr (.inr ?_)
  split
  · rename_i hbelow
    rw [utf16, if_pos hbelow, List.flatMap_singleton]
  · rename_i habove
    rw [utf16, if_neg habove, List.flatMap_cons, List.flatMap_singleton]

/-- The units of a character have sixteen bits. -/
theorem lt_of_mem_utf16 {c : Char} : ∀ unit ∈ utf16 c, unit < 0x10000 := by
  have hlt := @surrogates_lt c
  unfold utf16
  split
  · simpa
  · simp only [List.mem_cons, List.not_mem_nil, or_false]
    intro unit hunit
    omega

theorem readUnits?_escapeUnits {units : List Nat} (h : ∀ unit ∈ units, unit < 0x10000)
    (rest : List Char) :
    readUnits? (units.flatMap escapeUnit ++ rest) =
      (readUnits? rest).map fun read => (units ++ read.1, read.2) := by
  induction units with
  | nil => simp
  | cons unit units ih =>
    obtain ⟨hunit, hunits⟩ := List.forall_mem_cons.mp h
    rw [List.flatMap_cons, List.append_assoc, readUnits?_escapeUnit hunit, ih hunits,
      Option.map_map]
    rfl

/-- One character of a literal is read as the units of the character. -/
theorem readUnits?_literalChar (c : Char) (rest : List Char) :
    readUnits? (literalChar c ++ rest) =
      (readUnits? rest).map fun read => (utf16 c ++ read.1, read.2) := by
  obtain ⟨escape, unit, hchar, hunit, hmem⟩ | ⟨hchar, hquote, hslash, hprint, -⟩ | hchar :=
    literalChar_forms c
  · rw [hchar, hunit]
    exact readUnits?_shortEscape hmem rest
  · rw [hchar]
    exact readUnits?_plain hquote hslash hprint rest
  · rw [hchar]
    exact readUnits?_escapeUnits lt_of_mem_utf16 rest

theorem readUnits?_literal (value rest : List Char) :
    readUnits? (value.flatMap literalChar ++ '\x22' :: rest) = some (value.flatMap utf16, rest) := by
  induction value with
  | nil =>
    rw [readUnits?.eq_def]
    rfl
  | cons c value ih =>
    rw [List.flatMap_cons, List.flatMap_cons, List.append_assoc, readUnits?_literalChar, ih]
    rfl

-- ============================================================================
-- Units
-- ============================================================================

/-- The units of a character are read back, whatever stands behind them. -/
theorem ofUtf16?_utf16 (c : Char) (units : List Nat) :
    ofUtf16? (utf16 c ++ units) = (ofUtf16? units).map (c :: ·) := by
  unfold utf16
  split
  · rename_i hbelow
    have hvalid : isHighSurrogate c.toNat = false ∧ isLowSurrogate c.toNat = false := by
      have hvalid := c.valid
      simp only [isHighSurrogate, isLowSurrogate, Bool.and_eq_false_iff, decide_eq_false_iff_not]
      change c.toNat < 0xD800 ∨ 0xDFFF < c.toNat ∧ c.toNat < 0x110000 at hvalid
      omega
    rw [List.singleton_append]
    rw [ofUtf16?.eq_def]
    simp [hvalid, Char.ofNat_toNat]
  · rename_i habove
    obtain ⟨hhigh, hlow⟩ := @surrogates_lt c
    have hnumber : 0x10000 + 0x400 * (0xD800 + (c.toNat - 0x10000) / 0x400 - 0xD800) +
        (0xDC00 + (c.toNat - 0x10000) % 0x400 - 0xDC00) = c.toNat := by omega
    have hpair : isHighSurrogate (0xD800 + (c.toNat - 0x10000) / 0x400) = true ∧
        isLowSurrogate (0xDC00 + (c.toNat - 0x10000) % 0x400) = true := by
      simp only [isHighSurrogate, isLowSurrogate, Bool.and_eq_true, decide_eq_true_eq]
      omega
    rw [List.cons_append, List.singleton_append]
    rw [ofUtf16?.eq_def]
    simp only [hpair, hnumber, Char.ofNat_toNat, if_true]

theorem ofUtf16?_flatMap (value : List Char) : ofUtf16? (value.flatMap utf16) = some value := by
  induction value with
  | nil => rfl
  | cons c value ih => rw [List.flatMap_cons, ofUtf16?_utf16, ih, Option.map_some]

-- ============================================================================
-- Literals
-- ============================================================================

theorem toList_literal (value : String) :
    (literal value).toList = '\x22' :: (value.toList.flatMap literalChar ++ ['\x22']) := by
  rw [literal, String.toList_ofList, List.cons_append]

/-- A literal stands for its value, and nothing in it ends it early. -/
theorem readLiteral?_literal (value : String) (rest : List Char) :
    readLiteral? ((literal value).toList ++ rest) = some (value.toList, rest) := by
  rw [toList_literal, List.cons_append, List.append_assoc, List.singleton_append, readLiteral?,
    readUnits?_literal]
  simp [ofUtf16?_flatMap]

theorem printable_of_mem_literalChar (c : Char) : ∀ d ∈ literalChar c, ' ' ≤ d ∧ d ≤ '~' := by
  have htable : shortEscapes.all (fun entry => ' ' ≤ entry.1 && entry.1 ≤ '~') = true := by decide
  obtain ⟨escape, unit, hchar, -, hmem⟩ | ⟨hchar, -, -, hprint⟩ | hchar := literalChar_forms c
  · have hescape := List.all_eq_true.mp htable _ hmem
    simp only [Bool.and_eq_true, decide_eq_true_eq] at hescape
    rw [hchar]
    exact List.forall_mem_cons.mpr ⟨by decide, List.forall_mem_singleton.mpr hescape⟩
  · rw [hchar]
    simpa using hprint
  · rw [hchar]
    intro d hd
    obtain ⟨unit, -, hd⟩ := List.mem_flatMap.mp hd
    have hunit : ∀ d ∈ escapeUnit unit, ' ' ≤ d ∧ d ≤ '~' :=
      List.forall_mem_cons.mpr ⟨by decide, List.forall_mem_cons.mpr
        ⟨by decide, forall_mem_hexDigits (by decide)⟩⟩
    exact hunit d hd

/-- A literal has printable ASCII characters only, so it stays on its line. -/
theorem printable_of_mem_literal (value : String) :
    ∀ c ∈ (literal value).toList, ' ' ≤ c ∧ c ≤ '~' := by
  intro c hc
  rw [toList_literal, List.mem_cons, List.mem_append, List.mem_singleton] at hc
  obtain rfl | hc | rfl := hc
  · decide
  · obtain ⟨d, -, hd⟩ := List.mem_flatMap.mp hc
    exact printable_of_mem_literalChar d c hd
  · decide

end Storyboard.Text
