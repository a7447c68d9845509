/-
  Storyboard.Proofs.Token.Tracking

  The position of a scanner is true at every point of every call.

  A call moves the scanner past a whole piece of text at once. Here each call is also
  given as the loops that find that piece one character at a time: a stack of tasks,
  each of which looks at no more than the next two characters and says what to do in
  its place, until all that is left to do is to advance by one character (`Task.plan`,
  `Underway.next`). `Does` says which tasks lead from one scanner to another, and there
  is one lemma for each loop, up to `does_call`: the tasks of a call come to an end, and
  with the scanner that the call gives.

  So whatever is kept by advancing holds at every point of a call, and by an induction on
  the calls at every point of any sequence of them.
-/
import Storyboard.Proofs.Source.Places
import Storyboard.Token.Call

namespace Storyboard

theorem Position.offset_next (p : Position) (c : Char) : (p.next c).offset = p.offset + 1 := by
  rw [next]
  split
  · rfl
  · rfl

namespace Scanner

open Lexeme
open Text (isAsciiDigit)

variable {s t u : Scanner}

-- ============================================================================
-- Calls one character at a time
-- ============================================================================

/-- What there is to do within a call: to advance by one character, or a loop. -/
inductive Task where
  | advance
  /-- To pass characters as long as they pass a test. -/
  | every (test : Char → Bool)
  | gap
  | comment
  | numeral (seenDot : Bool)
  | string
  | stringBody
  | closingQuote
  | color
  /-- To pass a token, if there is one, and then all others. -/
  | token
  | tokens

namespace Task

/-- What passes the token at the front. -/
def ofToken (s : Scanner) : List Task :=
  let c := s.peek 0
  if c = '\n' then [.advance]
  else if isAsciiDigit c then [.numeral false]
  else if c = '\x22' then [.string]
  else if c = '#' then [.color]
  else if startsWord c then [.every isWordChar]
  else if (Kind.ofPair? c (s.peek 1)).isSome then [.advance, .advance]
  else [.advance]

/-- What to do in the place of a task, as the next two characters have it. Past the end they are
    null characters, so only tasks that go on at a null character ask for the end. -/
def plan (task : Task) (s : Scanner) : List Task :=
  match task with
  -- Nothing else is done in its place, so `Does.plan` holds of every task.
  | advance => [.advance]
  | every test => if test (s.peek 0) then [.advance, .every test] else []
  | gap =>
    if isSpace (s.peek 0) then [.advance, .gap]
    else if s.peek 0 = '/' ∧ s.peek 1 = '/' then [.comment, .gap]
    else []
  | comment => if s.atEnd = false ∧ s.peek 0 ≠ '\n' then [.advance, .comment] else []
  | numeral seenDot =>
    if isAsciiDigit (s.peek 0) then [.advance, .numeral seenDot]
    else if s.peek 0 = '.' && !seenDot then [.advance, .numeral true]
    else []
  | string => [.advance, .stringBody, .closingQuote]
  | stringBody =>
    if s.atEnd = false ∧ s.peek 0 ≠ '\x22' then
      if s.peek 0 = '\\' ∧ s.peek 1 = '\x22' then [.advance, .advance, .stringBody]
      else [.advance, .stringBody]
    else []
  | closingQuote => if s.peek 0 = '\x22' then [.advance] else []
  | color => [.advance, .every isHexDigit]
  | token => if s.atEnd then [] else ofToken s ++ [.tokens]
  | tokens => [.gap, .token]

end Task

/-- A call that is under way: what is left to do, and the scanner so far. -/
structure Underway where
  todo : List Task
  scanner : Scanner

namespace Underway

/-- The next point: the scanner has advanced, or it is clear what to do in the place of a task. -/
def next : Underway → Underway
  | ⟨[], s⟩ => ⟨[], s⟩
  | ⟨.advance :: todo, s⟩ => ⟨todo, s.advance.2⟩
  | ⟨task :: todo, s⟩ => ⟨task.plan s ++ todo, s⟩

/-- The point after a number of points. -/
def later : Nat → Underway → Underway
  | 0, point => point
  | n + 1, point => later n point.next

theorem later_add (m n : Nat) (point : Underway) :
    later (m + n) point = later n (later m point) := by
  induction m generalizing point with
  | zero => rw [Nat.zero_add, later]
  | succ m ih => rw [Nat.succ_add, later, later, ih]

theorem later_succ (n : Nat) (point : Underway) : later (n + 1) point = (later n point).next :=
  later_add n 1 point

/-- From one point to the next the scanner advances by one character or stays. -/
theorem next_scanner (point : Underway) :
    point.next.scanner = point.scanner ∨ point.next.scanner = point.scanner.advance.2 := by
  obtain ⟨todo, s⟩ := point
  cases todo with
  | nil => exact .inl rfl
  | cons task todo =>
    cases task with
    | advance => exact .inr rfl
    | _ => exact .inl rfl

end Underway

/-- What a call has to do. -/
def Call.tasks : Call → List Task
  | .peek _ | .atEnd | .location => []
  | .advance => [.advance]
  | .skipGap => [.gap]
  | .scanNumber => [.numeral false]
  | .scanString => [.string]
  | .scanColor => [.color]
  | .scanWord => [.every isWordChar]
  | .tokens => [.tokens]

/-- The points of a call, the first of them its beginning. -/
def during (s : Scanner) (call : Call) (n : Nat) : Underway := .later n ⟨call.tasks, s⟩

theorem during_succ (s : Scanner) (call : Call) (n : Nat) :
    s.during call (n + 1) = (s.during call n).next := Underway.later_succ n _

-- ============================================================================
-- Loops
-- ============================================================================

/-- Tasks that lead from one scanner to another, whatever is to be done after them. -/
def Does (tasks : List Task) (s t : Scanner) : Prop :=
  ∀ todo, ∃ n, Underway.later n ⟨tasks ++ todo, s⟩ = ⟨todo, t⟩

namespace Does

variable {tasks more : List Task} {task : Task}

theorem nil (s : Scanner) : Does [] s s := fun _ => ⟨0, rfl⟩

theorem append (h : Does tasks s u) (h' : Does more u t) : Does (tasks ++ more) s t := by
  intro todo
  obtain ⟨m, hm⟩ := h (more ++ todo)
  obtain ⟨n, hn⟩ := h' todo
  exact ⟨m + n, by rw [List.append_assoc, Underway.later_add, hm, hn]⟩

theorem advance (h : Does more s.advance.2 t) : Does (.advance :: more) s t := by
  intro todo
  obtain ⟨n, hn⟩ := h todo
  exact ⟨n + 1, hn⟩

/-- A task does what it is replaced with. -/
theorem plan (hplan : task.plan s = tasks) (h : Does (tasks ++ more) s t) :
    Does (task :: more) s t := by
  intro todo
  obtain ⟨n, hn⟩ := h todo
  cases task with
  | advance =>
    obtain rfl := hplan
    exact ⟨n, hn⟩
  | _ =>
    rw [← hplan, List.append_assoc] at hn
    exact ⟨n + 1, hn⟩

/-- A loop comes to its end. -/
theorem stop (hplan : task.plan s = []) : Does [task] s s := plan hplan (nil s)

end Does

theorem does_every {test : Char → Bool} (hnull : test '\x00' = false) (p : Position)
    (cs : List Char) :
    Does [.every test] ⟨p, cs⟩ (Scanner.consume ⟨p, cs⟩ (cs.takeWhile test).length) := by
  induction cs generalizing p with
  | nil => exact .stop (if_neg (Bool.eq_false_iff.mp hnull))
  | cons c cs ih =>
    by_cases hc : test c = true
    · rw [List.takeWhile_cons_of_pos hc]
      exact .plan (if_pos hc) (.advance (ih (p.next c)))
    · rw [List.takeWhile_cons_of_neg hc]
      exact .stop (if_neg hc)

theorem does_comment (p : Position) (cs : List Char) :
    Does [.comment] ⟨p, cs⟩ (Scanner.consume ⟨p, cs⟩ (cs.takeWhile (· ≠ '\n')).length) := by
  induction cs generalizing p with
  | nil => exact .stop rfl
  | cons c cs ih =>
    by_cases hc : c = '\n'
    · rw [List.takeWhile_cons_of_neg (by simpa using hc)]
      exact .stop (if_neg (not_and_of_not_right _ (not_not_intro hc)))
    · rw [List.takeWhile_cons_of_pos (by simpa using hc)]
      exact .plan (if_pos ⟨rfl, hc⟩) (.advance (ih (p.next c)))

/-- What is seen behind the next character, if it is no null character, is there. -/
theorem exists_cons_of_peek {p : Position} {c d : Char} {cs : List Char}
    (h : peek ⟨p, c :: cs⟩ 1 = d) (hd : d ≠ '\x00') : ∃ ds, cs = d :: ds := by
  cases cs with
  | nil => exact absurd h.symm hd
  | cons e ds => exact ⟨ds, congrArg (· :: ds) h⟩

/-- Where a line ends no gap goes on. -/
theorem plan_gap_of_endsLine (h : Lexical.EndsLine s.rest) : Task.gap.plan s = [] := by
  obtain ⟨p, cs⟩ := s
  obtain rfl | ⟨more, rfl⟩ := h
  · rfl
  · rfl

theorem does_gap (s : Scanner) : Does [.gap] s s.skipGap := by
  obtain ⟨p, cs⟩ := s
  rw [skipGap]
  induction cs generalizing p with
  | nil => exact .stop rfl
  | cons c cs ih =>
    obtain ⟨rfl, ds, rfl⟩ | hspace | ⟨hspace, hstop⟩ := Lexical.gap_cases c cs
    · -- The loop looks for more behind the comment, where the line ends.
      have hcomment := does_comment p ('/' :: '/' :: ds)
      have htaken : ('/' :: '/' :: ds).takeWhile (· ≠ '\n') = gap ('/' :: '/' :: ds) := by
        rw [Lexical.gap_comment]
        rfl
      rw [htaken] at hcomment
      have heq : '/' :: '/' :: ds = gap ('/' :: '/' :: ds) ++ ds.dropWhile (· ≠ '\n') := by
        rw [Lexical.gap_comment, List.cons_append, List.cons_append,
          List.takeWhile_append_dropWhile]
      have hends : Lexical.EndsLine (skipGap ⟨p, '/' :: '/' :: ds⟩).rest := by
        rw [Lexical.skipGap_eq heq]
        exact Lexical.endsLine_dropWhile ds
      exact .plan rfl (hcomment.append (.stop (plan_gap_of_endsLine hends)))
    · rw [Lexical.gap_space hspace]
      exact .plan (if_pos hspace) (.advance (ih (p.next c)))
    · rw [hstop]
      refine .stop ((if_neg (Bool.eq_false_iff.mp hspace)).trans (if_neg ?_))
      -- Two slashes would be a comment, and then the gap would not be empty.
      rintro ⟨hfirst, hsecond⟩
      obtain rfl : c = '/' := hfirst
      obtain ⟨ds, rfl⟩ := exists_cons_of_peek hsecond (by decide)
      rw [Lexical.gap_comment] at hstop
      cases hstop

theorem does_numeral (seenDot : Bool) (p : Position) (cs : List Char) :
    Does [.numeral seenDot] ⟨p, cs⟩
      (Scanner.consume ⟨p, cs⟩ (numeralFrom seenDot cs).length) := by
  fun_induction numeralFrom seenDot cs generalizing p with
  | case1 seenDot => exact .stop rfl
  | case2 seenDot c cs hdigit ih => exact .plan (if_pos hdigit) (.advance (ih (p.next c)))
  | case3 seenDot c cs hdigit hdot ih =>
    exact .plan ((if_neg hdigit).trans (if_pos hdot)) (.advance (ih (p.next c)))
  | case4 seenDot c cs hdigit hdot => exact .stop ((if_neg hdigit).trans (if_neg hdot))

/-- The closing quote belongs to the body that is taken at once, but is passed behind the loop. -/
theorem does_stringBody (p : Position) (cs : List Char) :
    Does [.stringBody, .closingQuote] ⟨p, cs⟩
      (Scanner.consume ⟨p, cs⟩ (stringBody cs).length) := by
  fun_induction stringBody cs generalizing p with
  | case1 => exact .plan rfl (.stop rfl)
  | case2 cs ih => exact .plan rfl (.advance (.advance (ih _)))
  | case3 cs hpair => exact .plan rfl (.plan rfl (.advance (.nil _)))
  | case4 c cs hpair hc ih =>
    have hplain : ¬ (c = '\\' ∧ peek ⟨p, c :: cs⟩ 1 = '\x22') := by
      rintro ⟨hescape, hquote⟩
      obtain ⟨ds, rfl⟩ := exists_cons_of_peek hquote (by decide)
      exact hpair ds hescape rfl
    exact .plan ((if_pos ⟨rfl, hc⟩).trans (if_neg hplain)) (.advance (ih (p.next c)))

theorem does_string (s : Scanner) : Does [.string] s s.scanString.2 := by
  obtain ⟨p, _ | ⟨c, cs⟩⟩ := s
  · exact .plan rfl (.advance (does_stringBody p []))
  · exact .plan rfl (.advance (does_stringBody (p.next c) cs))

theorem does_color (s : Scanner) : Does [.color] s s.scanColor.2 := by
  obtain ⟨p, _ | ⟨c, cs⟩⟩ := s
  · exact .plan rfl (.advance (does_every rfl p []))
  · exact .plan rfl (.advance (does_every rfl (p.next c) cs))

theorem does_ofToken (h : s.rest ≠ []) : Does (Task.ofToken s) s s.scanToken.2 := by
  obtain ⟨p, cs⟩ := s
  obtain ⟨c, cs, rfl⟩ := List.exists_cons_of_ne_nil h
  have hpeek : peek ⟨p, c :: cs⟩ 0 = c := rfl
  simp only [Task.ofToken, scanToken, hpeek]
  by_cases hnewline : c = '\n'
  · rw [if_pos hnewline, if_pos hnewline]
    exact .advance (.nil _)
  rw [if_neg hnewline, if_neg hnewline]
  by_cases hdigit : isAsciiDigit c = true
  · rw [if_pos hdigit, if_pos hdigit]
    exact does_numeral false p (c :: cs)
  rw [if_neg hdigit, if_neg hdigit]
  by_cases hquote : c = '\x22'
  · rw [if_pos hquote, if_pos hquote]
    exact does_string _
  rw [if_neg hquote, if_neg hquote]
  by_cases hhash : c = '#'
  · rw [if_pos hhash, if_pos hhash]
    exact does_color _
  rw [if_neg hhash, if_neg hhash]
  by_cases hword : startsWord c = true
  · rw [if_pos hword, if_pos hword]
    exact does_every rfl p (c :: cs)
  rw [if_neg hword, if_neg hword]
  cases hpair : Kind.ofPair? c (peek ⟨p, c :: cs⟩ 1) with
  | none =>
    rw [Lexical.scanMark_of_none (s := ⟨p, c :: cs⟩) hpair]
    exact .advance (.nil _)
  | some kind =>
    rw [Lexical.scanMark_of_some (s := ⟨p, c :: cs⟩) hpair]
    refine .advance (.advance ?_)
    -- Both sides stop at the end, so it does not matter here that there are two characters.
    cases cs with
    | nil => exact .nil _
    | cons d cs => exact .nil _

theorem does_tokens (s : Scanner) : Does [.tokens] s s.tokens.2 := by
  fun_induction tokens s with
  | case1 s here hend =>
    have hplan : Task.token.plan here = [] := if_pos (List.isEmpty_iff.mpr hend)
    exact .plan rfl ((does_gap s).append (.stop hplan))
  | case2 s here hmore hless others ih =>
    have hplan : Task.token.plan here = Task.ofToken here ++ [.tokens] :=
      if_neg fun hend => hmore (List.isEmpty_iff.mp hend)
    have htoken : Does (Task.ofToken here ++ [.tokens] ++ []) here here.scanToken.2.tokens.2 := by
      rw [List.append_nil]
      exact (does_ofToken hmore).append ih
    exact .plan rfl ((does_gap s).append (.plan hplan htoken))

/-- The tasks of a call come to an end, with the scanner that the call gives. -/
theorem does_call (s : Scanner) (call : Call) : Does call.tasks s (s.step call).2 := by
  cases call with
  | peek | atEnd | location => exact .nil s
  | advance => exact .advance (.nil _)
  | skipGap => exact does_gap s
  | scanNumber => exact does_numeral false s.position s.rest
  | scanString => exact does_string s
  | scanColor => exact does_color s
  | scanWord => exact does_every rfl s.position s.rest
  | tokens => exact does_tokens s

theorem exists_during_eq_step (s : Scanner) (call : Call) :
    ∃ n, s.during call n = ⟨[], (s.step call).2⟩ := by
  obtain ⟨n, hn⟩ := does_call s call []
  rw [List.append_nil] at hn
  exact ⟨n, hn⟩

-- ============================================================================
-- Positions
-- ============================================================================

/-- A scanner on a text whose position is true: it is not past the end, its line and column are
    counted by the newlines before it and the characters since the last of them, and what is left
    is the text from there on. -/
structure TrueTo (content : List Char) (s : Scanner) : Prop where
  offset_le : s.position.offset ≤ content.length
  line_eq : s.position.line = 1 + (content.take s.position.offset).count '\n'
  column_eq : s.position.column =
    1 + (Lexical.lastLine (content.take s.position.offset)).length
  rest_eq : s.rest = content.drop s.position.offset

section TrueTo

variable {content : List Char}

theorem trueTo_ofText (text : String) : (ofText text).TrueTo text.toList :=
  ⟨Nat.zero_le _, rfl, rfl, rfl⟩

/-- The position is true if it is that behind the text which is not left. -/
theorem trueTo_iff : s.TrueTo content ↔ ∃ before, content = before ++ s.rest ∧
    s.position.offset = before.length ∧ s.location = Lexical.placeAfter before := by
  constructor
  · intro h
    refine ⟨content.take s.position.offset, ?_, ?_, ?_⟩
    · rw [h.rest_eq, List.take_append_drop]
    · rw [List.length_take, Nat.min_eq_left h.offset_le]
    · have hcolumn := h.column_eq
      rw [Lexical.lastLine, List.length_reverse] at hcolumn
      simp only [location, Position.location, Lexical.placeAfter, h.line_eq, hcolumn,
        Int.natCast_add, Int.natCast_one]
  · rintro ⟨before, rfl, hoffset, hplace⟩
    -- What was passed is told by its length, since it stands in front of the rest.
    have htake : (before ++ s.rest).take s.position.offset = before := by
      rw [hoffset, List.take_left]
    have hline : (s.position.line : Int) = 1 + before.count '\n' :=
      congrArg Location.line hplace
    have hcolumn : (s.position.column : Int) =
        1 + (before.reverse.takeWhile (· ≠ '\n')).length := congrArg Location.column hplace
    refine ⟨?_, ?_, ?_, ?_⟩
    · rw [hoffset, List.length_append]
      exact Nat.le_add_right _ _
    · rw [htake]
      omega
    · rw [htake, Lexical.lastLine, List.length_reverse]
      omega
    · rw [hoffset, List.drop_left]

/-- One character further the position is true again. -/
theorem TrueTo.advance (h : s.TrueTo content) : s.advance.2.TrueTo content := by
  obtain ⟨p, _ | ⟨c, cs⟩⟩ := s
  · exact h
  · obtain ⟨before, rfl, hoffset, hplace⟩ := trueTo_iff.mp h
    refine trueTo_iff.mpr ⟨before ++ [c], ?_, ?_, Lexical.location_next hplace c⟩
    · rw [List.append_assoc]
      rfl
    · rw [List.length_append, ← hoffset]
      exact p.offset_next c

/-- From one point of a call to the next a true position stays true. -/
theorem TrueTo.next {point : Underway} (h : point.scanner.TrueTo content) :
    point.next.scanner.TrueTo content := by
  obtain hstays | hadvances := point.next_scanner
  · rwa [hstays]
  · rw [hadvances]
    exact h.advance

/-- A call that begins at a true position has true positions at all its points. -/
theorem TrueTo.during (h : s.TrueTo content) (call : Call) (n : Nat) :
    (s.during call n).scanner.TrueTo content := by
  induction n with
  | zero => exact h
  | succ n ih =>
    rw [during_succ]
    exact TrueTo.next ih

/-- Any calls lead from a true position to a true one, since each ends at one of its points. -/
theorem TrueTo.run (h : s.TrueTo content) (calls : List Call) : (s.run calls).TrueTo content := by
  induction calls generalizing s with
  | nil => exact h
  | cons call calls ih =>
    obtain ⟨n, hn⟩ := exists_during_eq_step s call
    have hstep := h.during call n
    rw [hn] at hstep
    exact ih hstep

end TrueTo

/-- Advancing passes one character at most. -/
theorem offset_advance (s : Scanner) :
    s.position.offset ≤ s.advance.2.position.offset ∧
      s.advance.2.position.offset ≤ s.position.offset + 1 := by
  obtain ⟨p, _ | ⟨c, cs⟩⟩ := s
  · exact ⟨Nat.le_refl _, Nat.le_succ _⟩
  · have hnext : (Scanner.mk p (c :: cs)).advance.2.position.offset = p.offset + 1 :=
      p.offset_next c
    rw [hnext]
    exact ⟨Nat.le_succ _, Nat.le_refl _⟩

/-- A call passes one character at most from one of its points to the next. -/
theorem offset_during_succ (s : Scanner) (call : Call) (n : Nat) :
    (s.during call n).scanner.position.offset ≤
        (s.during call (n + 1)).scanner.position.offset ∧
      (s.during call (n + 1)).scanner.position.offset ≤
        (s.during call n).scanner.position.offset + 1 := by
  rw [during_succ]
  obtain hstays | hadvances := (s.during call n).next_scanner
  · rw [hstays]
    exact ⟨Nat.le_refl _, Nat.le_succ _⟩
  · rw [hadvances]
    exact offset_advance _

theorem offset_le_during (s : Scanner) (call : Call) (n : Nat) :
    s.position.offset ≤ (s.during call n).scanner.position.offset := by
  induction n with
  | zero => exact Nat.le_refl _
  | succ n ih => exact Nat.le_trans ih (offset_during_succ s call n).1

/-- A call does not take the scanner back. -/
theorem offset_le_step (s : Scanner) (call : Call) :
    s.position.offset ≤ (s.step call).2.position.offset := by
  obtain ⟨n, hn⟩ := exists_during_eq_step s call
  have hle := offset_le_during s call n
  rwa [hn] at hle

/-- The position of a scanner is always true. After any calls in any order on any text it is not
    past the end, its line is one more than the newlines before it, its column one more than the
    characters since the last of them, and one more call does not take it back. The same holds
    at every point of that call, which passes the text a character at a time and comes to its
    end. -/
theorem position_true (text : String) (calls : List Call) (call : Call) :
    let s := (ofText text).run calls
    (s.TrueTo text.toList ∧ s.position.offset ≤ (s.step call).2.position.offset) ∧
    (∃ n, s.during call n = ⟨[], (s.step call).2⟩) ∧
    ∀ n, (s.during call n).scanner.TrueTo text.toList ∧
      (s.during call n).scanner.position.offset ≤
        (s.during call (n + 1)).scanner.position.offset ∧
      (s.during call (n + 1)).scanner.position.offset ≤
        (s.during call n).scanner.position.offset + 1 := by
  intro s
  have hs : s.TrueTo text.toList := (trueTo_ofText text).run calls
  exact ⟨⟨hs, offset_le_step s call⟩, exists_during_eq_step s call,
    fun n => ⟨hs.during call n, offset_during_succ s call n⟩⟩

/-- Calls in the middle of a word, at a dot and at the end: the scan of a string takes the `b` for
    its opening quote and ends on the next line. -/
example : ([[], [.advance], [.advance, .scanString], [.advance, .scanString, .scanNumber],
      [.advance, .scanString, .scanNumber, .scanColor],
      [.advance, .scanString, .scanNumber, .scanColor, .tokens, .scanWord]].map
    fun calls => ((ofText "ab\n\".5.\n//").run calls).position) =
      [⟨0, 1, 1⟩, ⟨1, 1, 2⟩, ⟨4, 2, 2⟩, ⟨6, 2, 4⟩, ⟨7, 2, 5⟩, ⟨10, 3, 3⟩] := by decide +kernel

end Scanner

end Storyboard
