/-
  Storyboard.Proofs.Script.Brackets

  Brackets and margins of scripts.

  In a script, brackets count where they are code: not in a string literal, and not in
  a line that is a comment. `WellBracketed` says that those of a text are properly
  nested, and `Indented` that each line begins with two blanks for every brace that is
  open where it begins.

  Both are statements about a whole text. `Spot.walk` goes through a text character by
  character with the brackets that are open, and stops at the first one that has no
  partner or stands at the wrong margin; it can be taken apart wherever a text is put
  together. `wellBracketed_of_passes` and `indented_of_passes` are what a walk to the
  end of a text is worth.
-/
import Storyboard.Script.Expr

namespace Storyboard.Script

-- ============================================================================
-- Code, string literals and comment lines
-- ============================================================================

/-- How the next character of a script is to be read. -/
inductive Mode where
  /-- At the start of a line, behind so many blanks. -/
  | margin (blanks : Nat)
  /-- Behind a slash that begins a line. -/
  | slash
  | code
  | quoted
  /-- Behind a backslash in a string literal. -/
  | escaped
  | comment
  deriving DecidableEq

namespace Mode

/-- How to read on behind a character of code. -/
def behindCode (c : Char) : Mode :=
  if c = '\n' then .margin 0 else if c = '\x22' then .quoted else .code

/-- How to read on behind a character. -/
def next : Mode → Char → Mode
  | .margin blanks, c =>
    if c = ' ' then .margin (blanks + 1) else if c = '/' then .slash else behindCode c
  | .slash, c => if c = '/' then .comment else behindCode c
  | .code, c => behindCode c
  | .quoted, c => if c = '\x22' then .code else if c = '\\' then .escaped else .quoted
  | .escaped, _ => .quoted
  | .comment, c => if c = '\n' then .margin 0 else .comment

/-- Whether a character read in this way is code. -/
def isCode : Mode → Bool
  | .margin _ | .slash | .code => true
  | .quoted | .escaped | .comment => false

/-- A line begins behind a newline only. -/
theorem eq_newline_of_next {mode : Mode} {c : Char} (h : mode.next c = .margin 0) : c = '\n' := by
  -- The modes that read code all end in this one case.
  have hcode : behindCode c = .margin 0 → c = '\n' := by
    unfold behindCode
    split
    · exact fun _ => ‹_›
    · split <;> simp
  cases mode with
  | margin blanks =>
    rw [next] at h
    split at h
    · simp at h
    · split at h
      · cases h
      · exact hcode h
  | slash =>
    rw [next] at h
    split at h
    · cases h
    · exact hcode h
  | code => exact hcode h
  | quoted =>
    rw [next] at h
    split at h
    · cases h
    · split at h <;> cases h
  | escaped => cases h
  | comment =>
    rw [next] at h
    split at h
    · assumption
    · cases h

end Mode

/-- The code from some point on. -/
def codeFrom : Mode → List Char → List Char
  | _, [] => []
  | mode, c :: cs =>
    if mode.isCode then c :: codeFrom (mode.next c) cs else codeFrom (mode.next c) cs

/-- The code of a text: all of it but what string literals and comment lines contain. -/
def code (text : List Char) : List Char := codeFrom (.margin 0) text

-- ============================================================================
-- Nesting and indentation
-- ============================================================================

/-- Whether a character is a parenthesis or a brace. -/
def isBracket (c : Char) : Bool := c = '(' || c = ')' || c = '\x7b' || c = '\x7d'

/-- Properly nested parentheses and braces. -/
inductive Balanced : List Char → Prop where
  | nil : Balanced []
  | parens {inner rest : List Char} :
      Balanced inner → Balanced rest → Balanced ('(' :: inner ++ ')' :: rest)
  | braces {inner rest : List Char} :
      Balanced inner → Balanced rest → Balanced ('\x7b' :: inner ++ '\x7d' :: rest)

/-- A text whose code has properly nested brackets. -/
def WellBracketed (text : List Char) : Prop := Balanced ((code text).filter isBracket)

/-- A text behind which a line begins. -/
def BeforeLine (text : List Char) : Prop := text = [] ∨ ∃ front, text = front ++ ['\n']

/-- A text of whole lines, each with two blanks in front for every brace that is open where it
    begins, but for one that it closes first, and then with something that is no blank. -/
structure Indented (text : List Char) : Prop where
  whole : BeforeLine text
  margins : ∀ {before line after : List Char}, text = before ++ (line ++ '\n' :: after) →
    BeforeLine before → '\n' ∉ line →
    ∃ k c rest, line = List.replicate (2 * k) ' ' ++ c :: rest ∧ c.isWhitespace = false ∧
      (code before).count '\x7b' =
        (code before).count '\x7d' + k + if c = '\x7d' then 1 else 0

-- ============================================================================
-- Walks
-- ============================================================================

/-- Where a walk has come to: how to read on, and which brackets are open, the last one first. -/
structure Spot where
  mode : Mode
  opened : List Char
  deriving DecidableEq

/-- The bracket that a character closes. -/
def partner? (c : Char) : Option Char :=
  if c = ')' then some '(' else if c = '\x7d' then some '\x7b' else none

/-- The open brackets behind a character of code. -/
def track (opened : List Char) (c : Char) : Option (List Char) :=
  match partner? c with
  | some partner => if opened.head? = some partner then some opened.tail else none
  | none => if isBracket c then some (c :: opened) else some opened

namespace Spot

/-- Whether a character may come next: what ends a margin stands where the open braces want it, and
    a string literal ends on its line. -/
def allows (s : Spot) (c : Char) : Bool :=
  match s.mode with
  | .margin blanks =>
    c = ' ' || (!c.isWhitespace &&
      blanks + 2 * (if c = '\x7d' then 1 else 0) = 2 * s.opened.count '\x7b')
  | .quoted | .escaped => c ≠ '\n'
  | .slash | .code | .comment => true

/-- Goes past one character. -/
def step (s : Spot) (c : Char) : Option Spot :=
  if s.allows c then
    if s.mode.isCode then (track s.opened c).map fun opened => ⟨s.mode.next c, opened⟩
    else some ⟨s.mode.next c, s.opened⟩
  else none

/-- Goes through a text. -/
def walk (s : Spot) (text : List Char) : Option Spot := text.foldlM step s

theorem walk_cons (s : Spot) (c : Char) (text : List Char) :
    s.walk (c :: text) = (s.step c).bind fun t => t.walk text := by
  rw [walk, List.foldlM_cons]
  rfl

theorem walk_append (s : Spot) (front back : List Char) :
    s.walk (front ++ back) = (s.walk front).bind fun t => t.walk back := by
  rw [walk, List.foldlM_append]
  rfl

/-- What one step does. -/
theorem step_eq_some {s t : Spot} {c : Char} (h : s.step c = some t) :
    s.allows c = true ∧ t.mode = s.mode.next c ∧
      (s.mode.isCode = true ∧ track s.opened c = some t.opened ∨
        s.mode.isCode = false ∧ t.opened = s.opened) := by
  unfold step at h
  split at h
  · rename_i hallows
    split at h
    · rename_i hcode
      obtain ⟨opened, htrack, rfl⟩ := Option.map_eq_some_iff.mp h
      exact ⟨hallows, rfl, .inl ⟨hcode, htrack⟩⟩
    · rename_i hcode
      cases h
      exact ⟨hallows, rfl, .inr ⟨by simpa using hcode, rfl⟩⟩
  · cases h

end Spot

/-- What a character of code does to the open brackets: it opens one, closes the last one, or is
    none. -/
theorem track_cases {opened opened' : List Char} {c : Char} (h : track opened c = some opened') :
    (c = '(' ∨ c = '\x7b') ∧ opened' = c :: opened ∨
      (c = ')' ∧ opened = '(' :: opened' ∨ c = '\x7d' ∧ opened = '\x7b' :: opened') ∨
      isBracket c = false ∧ opened' = opened := by
  unfold track partner? at h
  by_cases hparen : c = ')'
  · subst hparen
    cases opened with
    | nil => cases h
    | cons o outer => simp_all
  · by_cases hbrace : c = '\x7d'
    · subst hbrace
      cases opened with
      | nil => cases h
      | cons o outer => simp_all
    · simp only [if_neg hparen, if_neg hbrace] at h
      by_cases hbracket : isBracket c = true
      · rw [if_pos hbracket] at h
        simp only [isBracket, hparen, hbrace, decide_false, Bool.or_false, Bool.or_eq_true,
          decide_eq_true_eq] at hbracket
        exact .inl ⟨hbracket, by simpa using h.symm⟩
      · rw [if_neg hbracket] at h
        exact .inr (.inr ⟨by simpa using hbracket, by simpa using h.symm⟩)

/-- A walk ends with the braces open that were opened and not closed in it. -/
theorem count_of_walk {s t : Spot} {text : List Char} (h : s.walk text = some t) :
    (codeFrom s.mode text).count '\x7b' + s.opened.count '\x7b' =
      (codeFrom s.mode text).count '\x7d' + t.opened.count '\x7b' := by
  induction text generalizing s with
  | nil =>
    cases h
    rfl
  | cons c text ih =>
    rw [Spot.walk_cons, Option.bind_eq_some_iff] at h
    obtain ⟨u, hstep, hwalk⟩ := h
    obtain ⟨-, hmode, ⟨hcode, htrack⟩ | ⟨hcode, hopened⟩⟩ := Spot.step_eq_some hstep
    · -- In code: a bracket that is opened, one of the two that is closed, or any other character.
      have hrest := ih hwalk
      rw [hmode] at hrest
      rw [codeFrom, if_pos hcode]
      rcases track_cases htrack with
        ⟨rfl | rfl, hopened⟩ | ⟨⟨rfl, hopened⟩ | ⟨rfl, hopened⟩⟩ | ⟨hbracket, hopened⟩
      · rw [hopened, List.count_cons_of_ne (by decide)] at hrest
        rw [List.count_cons_of_ne (by decide), List.count_cons_of_ne (by decide)]
        exact hrest
      · rw [hopened, List.count_cons_self] at hrest
        rw [List.count_cons_self, List.count_cons_of_ne (by decide)]
        omega
      · rw [hopened, List.count_cons_of_ne (by decide), List.count_cons_of_ne (by decide),
          List.count_cons_of_ne (by decide)]
        exact hrest
      · rw [hopened, List.count_cons_of_ne (by decide), List.count_cons_self,
          List.count_cons_self]
        omega
      · rw [hopened] at hrest
        simp only [isBracket, Bool.or_eq_false_iff, decide_eq_false_iff_not] at hbracket
        rw [List.count_cons_of_ne (by simpa using hbracket.1.2),
          List.count_cons_of_ne (by simpa using hbracket.2)]
        omega
    · -- In strings and comments nothing is tracked, and nothing counts as code.
      have hrest := ih hwalk
      rw [hmode, hopened] at hrest
      rw [codeFrom, if_neg (by simp [hcode])]
      exact hrest

-- ============================================================================
-- What a walk is worth
-- ============================================================================

/-- The bracket that closes another. -/
def closer (c : Char) : Char := if c = '(' then ')' else '\x7d'

/-- Brackets that close the open ones one after the other and are properly nested between. -/
def Closes : List Char → List Char → Prop
  | [], brackets => Balanced brackets
  | o :: outer, brackets => ∃ inner rest, brackets = inner ++ closer o :: rest ∧ Balanced inner ∧
      Closes outer rest

/-- Nested brackets may stand in front. -/
theorem Closes.enclose {opened : List Char} {o : Char} (ho : o = '(' ∨ o = '\x7b')
    {inner rest : List Char} (hinner : Balanced inner) (h : Closes opened rest) :
    Closes opened (o :: inner ++ closer o :: rest) := by
  have henclosed : ∀ {rest}, Balanced rest → Balanced (o :: inner ++ closer o :: rest) := by
    intro rest hrest
    rcases ho with rfl | rfl
    · exact .parens hinner hrest
    · exact .braces hinner hrest
  cases opened with
  | nil => exact henclosed h
  | cons o' outer =>
    obtain ⟨inner', rest', rfl, hinner', hrest'⟩ := h
    exact ⟨_, rest', by simp, henclosed hinner', hrest'⟩

/-- A walk that leaves nothing open closes what was. -/
theorem closes_of_walk {s t : Spot} {text : List Char} (h : s.walk text = some t)
    (ht : t.opened = []) : Closes s.opened ((codeFrom s.mode text).filter isBracket) := by
  induction text generalizing s with
  | nil =>
    cases h
    rw [ht]
    exact .nil
  | cons c text ih =>
    rw [Spot.walk_cons, Option.bind_eq_some_iff] at h
    obtain ⟨u, hstep, hwalk⟩ := h
    have hrest := ih hwalk
    obtain ⟨-, hmode, ⟨hcode, htrack⟩ | ⟨hcode, hopened⟩⟩ := Spot.step_eq_some hstep
    · rw [hmode] at hrest
      rw [codeFrom, if_pos hcode]
      -- Behind an opening bracket the rest closes it first, so it encloses that part; a closing one
      -- ends its part at once.
      rcases track_cases htrack with
        ⟨hc, hopened⟩ | ⟨⟨rfl, hopened⟩ | ⟨rfl, hopened⟩⟩ | ⟨hbracket, hopened⟩
      · rw [hopened] at hrest
        obtain ⟨inner, rest, hbrackets, hinner, houter⟩ := hrest
        rw [List.filter_cons_of_pos (by rcases hc with rfl | rfl <;> rfl), hbrackets]
        exact houter.enclose hc hinner
      · rw [hopened]
        exact ⟨[], _, rfl, .nil, hrest⟩
      · rw [hopened]
        exact ⟨[], _, rfl, .nil, hrest⟩
      · rw [List.filter_cons_of_neg (by simp [hbracket]), ← hopened]
        exact hrest
    · rw [hmode, hopened] at hrest
      rw [codeFrom, if_neg (by simp [hcode])]
      exact hrest

/-- In a walk a newline is followed by a new line. -/
theorem mode_of_step_newline {s t : Spot} (h : s.step '\n' = some t) : t.mode = .margin 0 := by
  obtain ⟨hallows, hmode, -⟩ := Spot.step_eq_some h
  rw [hmode]
  unfold Spot.allows at hallows
  cases hs : s.mode with
  | margin blanks =>
    rw [hs] at hallows
    simp [Char.isWhitespace] at hallows
  | slash => rfl
  | code => rfl
  | quoted =>
    rw [hs] at hallows
    simp at hallows
  | escaped =>
    rw [hs] at hallows
    simp at hallows
  | comment => rfl

/-- Where a line begins a walk is at the margin. -/
theorem mode_of_beforeLine {opened : List Char} {text : List Char} {t : Spot}
    (h : Spot.walk ⟨.margin 0, opened⟩ text = some t) (htext : BeforeLine text) :
    t.mode = .margin 0 := by
  rcases htext with rfl | ⟨front, rfl⟩
  · cases h
    rfl
  · rw [Spot.walk_append, Option.bind_eq_some_iff] at h
    obtain ⟨u, -, hlast⟩ := h
    rw [Spot.walk_cons, Option.bind_eq_some_iff] at hlast
    obtain ⟨v, hstep, hend⟩ := hlast
    cases hend
    exact mode_of_step_newline hstep

/-- A line that a walk goes through begins at the margin that the open braces want. -/
theorem exists_margin_of_walk {blanks : Nat} {opened line after : List Char} {t : Spot}
    (h : Spot.walk ⟨.margin blanks, opened⟩ (line ++ '\n' :: after) = some t)
    (hline : '\n' ∉ line) :
    ∃ more c rest, line = List.replicate more ' ' ++ c :: rest ∧ c.isWhitespace = false ∧
      blanks + more + 2 * (if c = '\x7d' then 1 else 0) = 2 * opened.count '\x7b' := by
  induction line generalizing blanks with
  | nil =>
    rw [List.nil_append, Spot.walk_cons, Option.bind_eq_some_iff] at h
    obtain ⟨u, hstep, -⟩ := h
    obtain ⟨hallows, -, -⟩ := Spot.step_eq_some hstep
    simp [Spot.allows, Char.isWhitespace] at hallows
  | cons c line ih =>
    rw [List.cons_append, Spot.walk_cons, Option.bind_eq_some_iff] at h
    obtain ⟨u, hstep, hwalk⟩ := h
    by_cases hc : c = ' '
    · subst hc
      cases hstep
      obtain ⟨more, c, rest, rfl, hblank, hcount⟩ :=
        ih hwalk fun hmem => hline (List.mem_cons_of_mem _ hmem)
      exact ⟨more + 1, c, rest, by rw [List.replicate_succ, List.cons_append], hblank, by omega⟩
    · obtain ⟨hallows, -, -⟩ := Spot.step_eq_some hstep
      simp only [Spot.allows, hc, decide_false, Bool.false_or, Bool.and_eq_true,
        Bool.not_eq_eq_eq_not, Bool.not_true, decide_eq_true_eq] at hallows
      exact ⟨0, c, line, rfl, hallows.1, by simpa using hallows.2⟩

/-- The walk through a text takes a spot to another. -/
def Passes (s : Spot) (text : String) (t : Spot) : Prop := s.walk text.toList = some t

/-- A walk from an outer line to an outer line finds properly nested brackets. -/
theorem wellBracketed_of_passes {text : String}
    (h : Passes ⟨.margin 0, []⟩ text ⟨.margin 0, []⟩) : WellBracketed text.toList :=
  closes_of_walk h rfl

/-- A walk from an outer line to an outer line finds every line at its margin. -/
theorem indented_of_passes {text : String}
    (h : Passes ⟨.margin 0, []⟩ text ⟨.margin 0, []⟩) : Indented text.toList := by
  unfold Passes at h
  generalize text.toList = text at h
  constructor
  · -- The text ends with a newline, since the walk ends at the beginning of a line.
    rcases List.eq_nil_or_concat text with rfl | ⟨front, c, rfl⟩
    · exact .inl rfl
    · rw [List.concat_eq_append] at h ⊢
      rw [Spot.walk_append, Option.bind_eq_some_iff] at h
      obtain ⟨u, -, hlast⟩ := h
      rw [Spot.walk_cons, Option.bind_eq_some_iff] at hlast
      obtain ⟨v, hstep, hend⟩ := hlast
      cases hend
      rw [Mode.eq_newline_of_next (Spot.step_eq_some hstep).2.1.symm]
      exact .inr ⟨front, rfl⟩
  · intro before line after heq hbefore hline
    rw [heq, Spot.walk_append, Option.bind_eq_some_iff] at h
    obtain ⟨⟨mode, opened⟩, hfront, hback⟩ := h
    obtain rfl : mode = .margin 0 := mode_of_beforeLine hfront hbefore
    obtain ⟨more, c, rest, hmargin, hblank, hmore⟩ := exists_margin_of_walk hback hline
    -- The braces open before the line are those that the code before it opens and does not close.
    have hcount := count_of_walk hfront
    rw [List.count_nil] at hcount
    change (code before).count _ + 0 = (code before).count _ + opened.count _ at hcount
    generalize hclosing : (if c = '\x7d' then 1 else 0) = closing at hmore
    have hwidth : more = 2 * (opened.count '\x7b' - closing) := by omega
    refine ⟨opened.count '\x7b' - closing, c, rest, by rw [hmargin, hwidth], hblank, ?_⟩
    rw [hclosing]
    omega

end Storyboard.Script
