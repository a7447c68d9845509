/-
  Storyboard.Proofs.Parse.Entries

  What every entry of a session leaves behind. A session may stand anywhere on its list of
  tokens, at any depth, and begin with any of its entries. The comparison with parsers that
  are given their room says where the depth, the cursor and the errors are at the end; what is
  left to see is that an entry gives something only after it has passed a token, statements
  apart, and that it fails only with a syntax error if all number tokens hold numbers.

  A whole program is read from the first token at depth zero. There no error is left over,
  and the cursor comes to a stop at the first end of input (`parse_ends`).
-/
import Storyboard.Proofs.Parse.Counting

namespace Storyboard.Parse

open Grammar

-- ============================================================================
-- Progress and failures
-- ============================================================================

/-- A parser that passes a token whenever it gives something, unless it may stay, and that fails
    with a syntax error, unless a number token that is left holds no number. -/
structure Orderly {α : Type} (mayStay : Bool) (p : Parser α) : Prop where
  forward : ∀ s t a, s.cursor.Closed → p s = .ok a t → mayStay = false →
    s.cursor.index < t.cursor.index
  rejected : ∀ s t failure, s.cursor.Closed → p s = .error failure t →
    (∃ error, failure = .rejected error) ∨
      ∃ item ∈ s.cursor.items, item.token.kind = .number ∧ Numeral.read? item.token.text = none

/-- What is left behind the current token is among what is left. -/
theorem Cursor.mem_items_of_advance (c : Cursor) {item : Item} (h : item ∈ c.advance.items) :
    item ∈ c.items := by
  obtain ⟨current, upcoming, index⟩ := c
  cases upcoming with
  | nil => exact h
  | cons next upcoming => exact List.mem_cons_of_mem current h

section Rules

variable {α : Type} {mayStay : Bool} {p : Parser α}

/-- Parsers are orderly that read as the grammar has it. -/
theorem Reads.orderly {R : Post α} (h : Reads p R)
    (hne : ∀ {w next new a}, R w next new a → mayStay = false → w ≠ []) : Orderly mayStay p := by
  constructor
  · intro s t a hc hrun hmoves
    obtain ⟨w, new, hpass, -, hR⟩ := (h _).ok hc rfl hrun
    rw [hpass.index_eq]
    exact Nat.lt_add_of_pos_right (List.length_pos_iff.mpr (hne hR hmoves))
  · intro s t failure hc hrun
    obtain ⟨w, new, hpass, -, hwhy⟩ := (h _).error hc rfl hrun
    cases hwhy with
    | rejected problem => exact .inl ⟨_, rfl⟩
    | @notNumber item hmem hkind hread =>
      refine .inr ⟨item, ?_, hkind, hread⟩
      rw [hpass.items_eq]
      exact List.mem_append_left _ hmem

/-- So is one behind a token of any kind, be it an end of input. -/
theorem Orderly.expect_bind (h : Orderly mayStay p) (kind : Kind) (text : String)
    (hint : Option String) : Orderly mayStay (expect kind text hint >>= fun _ => p) := by
  -- At the end of input the cursor stays, so it can only be said that it does not go back.
  have hstep : ∀ (s : State) (token : Token) (u : State), expect kind text hint s = .ok token u →
      u = { s with cursor := s.cursor.advance } := by
    intro s token u hexpect
    rw [expect_apply] at hexpect
    split at hexpect
    · cases hexpect
      rfl
    · cases hexpect
  constructor
  · intro s t a hc hrun hmoves
    obtain ⟨token, u, hexpect, hrun'⟩ := bind_eq_ok hrun
    obtain rfl := hstep s token u hexpect
    have hreaches := Cursor.Reaches.advance s.cursor
    exact Nat.lt_of_le_of_lt hreaches.index_le (h.forward _ t a (hreaches.closed hc) hrun' hmoves)
  · intro s t failure hc hrun
    rcases bind_eq_error hrun with hexpect | ⟨token, u, hexpect, hrun'⟩
    · rw [expect_apply] at hexpect
      split at hexpect
      · cases hexpect
      · cases hexpect
        exact .inl ⟨_, rfl⟩
    · obtain rfl := hstep s token u hexpect
      have hclosed := (Cursor.Reaches.advance s.cursor).closed hc
      rcases h.rejected _ t failure hclosed hrun' with herror | ⟨item, hmem, hbad⟩
      · exact .inl herror
      · exact .inr ⟨item, s.cursor.mem_items_of_advance hmem, hbad⟩

end Rules

namespace Entry

/-- Whether an entry may give something without passing a token: those that read any number of
    statements may. -/
def mayStay : Entry → Bool
  | .program | .statements _ => true
  | _ => false

/-- Every entry is orderly. -/
theorem withRoom_orderly (entry : Entry) (room : Nat) :
    Orderly entry.mayStay (entry.withRoom room) := by
  have hexpression := expression_reads room
  have hexpressions : ∀ levels hlevels,
      Reads (expressions room levels hlevels) (quietly (Makes ExpressionForm)) :=
    fun levels _ => expression_reads levels
  have hnested := nested_sound room
  -- What a parser reads is not empty by its grammar; only lists of statements may be.
  cases entry with
  | program =>
    exact ((statements_reads room true).bind fun _ => Reads.pure _).orderly fun _ hmoves => by
      cases hmoves
  | statements topLevel =>
    exact (statements_reads room topLevel).orderly fun _ hmoves => by cases hmoves
  | statement => exact (statementWith_reads hnested).orderly fun hstmt _ => hstmt.1
  | block opening closing =>
    have hblock : Reads (blockWith (nested room).body opening closing) fun w _ _ _ => w ≠ [] := by
      refine (Reads.expect_bind (by decide) fun _ => hnested.body.bind fun _ =>
        Reads.expect_bind (by decide) fun _ => Reads.pure _).weaken ?_
      rintro w next new body ⟨item, w', rfl, -⟩
      exact List.cons_ne_nil item w'
    exact hblock.orderly fun hne _ => hne
  | expression => exact hexpression.orderly fun he _ => he.2.2.ne_nil
  | comparison => exact (comparisonWith_reads hexpressions).orderly fun he _ => he.2.2.ne_nil
  | sum =>
    exact (sumWith_reads hexpressions).orderly fun he _ =>
      he.2.2.ne_nil fun hproduct => hproduct.ne_nil CallForm.ne_nil
  | product =>
    exact (productWith_reads hexpressions).orderly fun he _ => he.2.2.ne_nil CallForm.ne_nil
  | call => exact (callWith_reads hexpression).orderly fun he _ => he.2.2.ne_nil
  | shape => exact (shapeWith_reads hexpression).orderly fun he _ => he.2.2.ne_nil
  | point what hint =>
    refine (pointWith_reads hexpression what hint).orderly ?_
    rintro w next new point ⟨-, -, hform⟩ -
    cases hform
    exact List.cons_ne_nil _ _
  | clause kind keyword hint =>
    exact (hexpression.orderly fun he _ => he.2.2.ne_nil).expect_bind kind _ _
  | primary => exact (primaryWith_reads hexpression).orderly fun he _ => he.2.2.ne_nil

end Entry

-- ============================================================================
-- Sessions anywhere on a list of tokens
-- ============================================================================

/-- A cursor that stands on a list of tokens, at the item of its index. -/
def Cursor.InRange (tokens : List Token) (c : Cursor) : Prop :=
  c.items = (ofTokens tokens).items.drop c.index

instance (tokens : List Token) (c : Cursor) : Decidable (c.InRange tokens) :=
  inferInstanceAs (Decidable (_ = _))

namespace Cursor.InRange

variable {tokens : List Token} {c d : Cursor}

theorem closed (h : c.InRange tokens) : c.Closed := by
  obtain ⟨last, hlast, hend⟩ := closed_ofTokens tokens
  refine ⟨last, ?_, hend⟩
  rw [← List.take_append_drop c.index (ofTokens tokens).items, List.getLast?_append, ← h] at hlast
  simpa [items, List.getLast?_cons] using hlast

theorem ofTokens (tokens : List Token) : (Cursor.ofTokens tokens).InRange tokens := by
  rw [InRange, Cursor.index_ofTokens, List.drop_zero]

/-- A cursor on the list has the item of its index before it. -/
theorem getElem?_items (h : c.InRange tokens) :
    (Cursor.ofTokens tokens).items[c.index]? = some c.current := by
  rw [← List.head?_drop, ← h]
  rfl

/-- A cursor that is moved on stays on the list. -/
theorem of_reaches (h : c.InRange tokens) (hreaches : c.Reaches d) : d.InRange tokens :=
  hreaches.items_eq_drop h

/-- The number tokens that are left are of the list. -/
theorem mem_tokens (h : c.InRange tokens) {item : Item} (hmem : item ∈ c.items)
    (hkind : item.token.kind = .number) : item.token ∈ tokens := by
  rw [h] at hmem
  obtain ⟨tail, hitems, hends⟩ := items_ofTokens tokens
  have hall := List.mem_of_mem_drop hmem
  rw [hitems] at hall
  rcases List.mem_append.mp hall with hmarked | htail
  · have htoken : item.token ∈ (markLines false tokens).map Item.token :=
      List.mem_map_of_mem hmarked
    rw [markLines_map_token] at htoken
    exact (List.mem_filter.mp htoken).1
  · rw [hends item htail] at hkind
    cases hkind

end Cursor.InRange

/-- The entries of a session are balanced and make progress. From anywhere on a list of tokens
    whose number tokens hold numbers, at any depth, every entry gives something or fails with a
    syntax error. Either way the depth is what it was, and the cursor is on the list and not
    before where it was; if something is given it is beyond, but for statements. Errors are only
    added, and only by entries that read statements. -/
theorem entry_balanced {tokens : List Token} (hnumbers : NumbersReadable tokens) (entry : Entry)
    (session : Session) (hrange : session.state.cursor.InRange tokens) :
    ∃ after new,
      ((∃ value, entry.parser session = .ok value after ∧
          (entry.mayStay = false → session.state.cursor.index < after.state.cursor.index)) ∨
        ∃ error, entry.parser session = .error (.rejected error) after) ∧
      after.depth = session.depth ∧
      session.state.cursor.index ≤ after.state.cursor.index ∧ after.state.cursor.InRange tokens ∧
      after.state.errors = session.state.errors ++ new ∧ (entry.survives = false → new = []) := by
  obtain ⟨s, depth⟩ := session
  have hc : s.cursor.Closed := hrange.closed
  obtain ⟨heq, hreaches, new, hnew, hquiet⟩ := entry.tracks depth s hc
  refine ⟨⟨finalState (entry.withRoom (roomAt depth) s), depth⟩, new, ?_, rfl, hreaches.index_le,
    hrange.of_reaches hreaches, hnew, fun hsurvives => hquiet (by rw [hsurvives]; rfl)⟩
  have horderly := entry.withRoom_orderly (roomAt depth)
  rw [heq]
  cases hrun : entry.withRoom (roomAt depth) s with
  | ok value t =>
    exact .inl ⟨value, rfl, horderly.forward s t value hc hrun⟩
  | error failure t =>
    rcases horderly.rejected s t failure hc hrun with ⟨error, rfl⟩ | ⟨item, hmem, hkind, hread⟩
    · exact .inr ⟨error, rfl⟩
    · have hsome := hnumbers _ (hrange.mem_tokens hmem hkind) hkind
      rw [hread] at hsome
      cases hsome

/-- A call with one level left, met in the middle of a list: its argument would be one too deep. -/
theorem entry_balanced_sample :
    let tokens := tokenize "let x = f(1 + 2)"
    let cursor := (Cursor.ofTokens tokens).advance.advance.advance
    let earlier : SyntaxError := ⟨.tooDeep, .start⟩
    NumbersReadable tokens ∧ cursor.InRange tokens ∧ ∃ after,
      ((∃ value, Entry.call.parser ⟨⟨cursor, [earlier]⟩, 63⟩ = .ok value after ∧
          3 < after.state.cursor.index) ∨
        ∃ error, Entry.call.parser ⟨⟨cursor, [earlier]⟩, 63⟩ = .error (.rejected error) after) ∧
      after.depth = 63 ∧ 3 ≤ after.state.cursor.index ∧ after.state.errors = [earlier] := by
  intro tokens cursor earlier
  have hnumbers : NumbersReadable tokens := by decide +kernel
  have hrange : cursor.InRange tokens := by decide +kernel
  have hindex : cursor.index = 3 := by decide +kernel
  obtain ⟨after, new, hends, hdepth, hle, -, herrors, hquiet⟩ :=
    entry_balanced hnumbers .call ⟨⟨cursor, [earlier]⟩, 63⟩ hrange
  obtain rfl := hquiet rfl
  refine ⟨hnumbers, hrange, after, ?_, hdepth, hindex ▸ hle, herrors⟩
  rcases hends with ⟨value, hrun, hlt⟩ | hfails
  · exact .inl ⟨value, hrun, hindex ▸ hlt rfl⟩
  · exact .inr hfails

end Storyboard.Parse

namespace Storyboard

open Parse

-- ============================================================================
-- Whole programs
-- ============================================================================

/-- Parsing comes to an end on every list of tokens whose number tokens hold numbers. The parser of
    programs takes finitely many steps, no failure is left, and a session that counts its levels
    gives the same program and is back at depth zero. The cursor ends at the first end of input,
    and in no step, however the run is cut into steps, is it beyond that or off the list. -/
theorem parse_ends (tokens : List Token) (hnumbers : NumbersReadable tokens) :
    ∃ p t,
      (∃ trace, Steps program (.ofTokens tokens) trace (.ok p t)) ∧
      Counting.program (.ofTokens tokens) = .ok p ⟨t, 0⟩ ∧
      parse tokens = .ok (p, t.errors) ∧
      (Cursor.ofTokens tokens).items.findIdx? (fun item => item.token.kind = .endOfInput) =
        some t.cursor.index ∧
      ∀ trace, Steps program (.ofTokens tokens) trace (.ok p t) → ∀ c ∈ trace,
        c.index ≤ t.cursor.index ∧
          (Cursor.ofTokens tokens).items[c.index]? = some c.current := by
  obtain ⟨p, errors, hparse⟩ := parse_eq_ok fun token hmem =>
    hnumbers token ((List.takeWhile_prefix _).subset hmem)
  unfold parse at hparse
  split at hparse
  · rename_i p' t hrun
    cases hparse
    obtain ⟨trace, hsteps⟩ := program_stepwise (.ofTokens tokens) (Cursor.closed_ofTokens tokens)
    rw [hrun] at hsteps
    have hcounted := program_counted tokens
    rw [hrun] at hcounted
    refine ⟨p, t, ⟨trace, hsteps⟩, hcounted, by rw [parse, hrun], findIdx?_program hrun, ?_⟩
    intro trace' hsteps' c hc
    -- Whatever the steps are, their cursors lie between the first one and the last.
    obtain ⟨hto, hfrom⟩ := hsteps'.along.between c hc
    have hrange : c.InRange tokens := (Cursor.InRange.ofTokens tokens).of_reaches hto
    exact ⟨hfrom.index_le, hrange.getElem?_items⟩
  · cases hparse

/-- A statement that is cut off by the end of its line, a second one that an end of input in the
    middle of the list cuts off, and tokens behind it that nothing reads. -/
theorem parse_ends_sample :
    let tokens : List Token :=
      [⟨.keyword (.statement .letWord), "let", ⟨1, 1⟩⟩, ⟨.newline, "\n", ⟨1, 4⟩⟩,
        ⟨.keyword (.statement .fnWord), "fn", ⟨2, 1⟩⟩, ⟨.identifier, "f", ⟨2, 4⟩⟩,
        ⟨.endOfInput, "", ⟨2, 5⟩⟩, ⟨.number, "1", ⟨2, 6⟩⟩, ⟨.rightBrace, "\x7d", ⟨2, 7⟩⟩]
    NumbersReadable tokens ∧ ∃ p t trace,
      Steps program (.ofTokens tokens) trace (.ok p t) ∧
      Counting.program (.ofTokens tokens) = .ok p ⟨t, 0⟩ ∧ parse tokens = .ok (p, t.errors) ∧
      t.errors.length = 2 ∧ t.cursor.index = 3 ∧ ∀ c ∈ trace, c.index ≤ 3 := by
  intro tokens
  have hnumbers : NumbersReadable tokens := by decide +kernel
  have hcount : (parse tokens).toOption.map (fun r => r.2.length) = some 2 := by decide +kernel
  obtain ⟨p, t, ⟨trace, hsteps⟩, hcounted, hparse, hend, hall⟩ := parse_ends tokens hnumbers
  have hindex : t.cursor.index = 3 := by
    have hfirst : (Cursor.ofTokens tokens).items.findIdx?
        (fun item => item.token.kind = .endOfInput) = some 3 := by decide +kernel
    rw [hfirst] at hend
    exact (Option.some.inj hend).symm
  rw [hparse] at hcount
  refine ⟨hnumbers, p, t, trace, hsteps, hcounted, hparse, by simpa [Except.toOption] using hcount,
    hindex, ?_⟩
  intro c hc
  exact hindex ▸ (hall trace hsteps c hc).1

end Storyboard
