/-
  Storyboard.Proofs.Parse.Resuming

  Reading that begins in the middle of a text. The parser of statements does not know
  how many items it has passed, nor which errors there are already: what it makes of
  the items up to the end of input is the same as if they were a text of their own
  (`outcome_statements_eq`). So if the statements before some place are known, the
  statements of the whole text are those and then the ones of the rest.

  The second half says which items the cursor of a list of tokens has, for lists that
  are put together from parts, and what the statements of such a list tell about runs
  over a part of it.
-/
import Storyboard.Proofs.Parse.Soundness
import Storyboard.Proofs.Parse.StmtLocal

namespace Storyboard

namespace Parse

-- ============================================================================
-- Outcomes
-- ============================================================================

section Outcomes

variable {α β : Type}

/-- The value of a run and the errors, or its failure. -/
def outcome : EStateM.Result Failure State α → Except Failure (α × List SyntaxError)
  | .ok a t => .ok (a, t.errors)
  | .error failure _ => .error failure

theorem outcome_map (f : α → β) (p : Parser α) (s : State) :
    outcome ((f <$> p) s) = (outcome (p s)).map fun r => (f r.1, r.2) := by
  cases hrun : p s with
  | ok a t =>
    rw [map_of_ok hrun f]
    rfl
  | error failure t =>
    rw [map_of_error hrun f]
    rfl

/-- A uniform run in front of the same barrier comes to the same, behind other errors. -/
theorem Uniform.outcome_eq {K : Barrier} {w : List Item} {p : Parser α} (h : Uniform K w p)
    {s s' : State} {e e' : Ending} (hs : s.Before K w e) (hs' : s'.Before K w e')
    (hitem : e.item = e'.item) (hnone : s'.errors = []) :
    outcome (p s) = (outcome (p s')).map fun r => (r.1, s.errors ++ r.2) := by
  cases h with
  | gives h =>
    obtain ⟨t, hrun, -, herrors⟩ := h.run hs
    obtain ⟨t', hrun', -, herrors'⟩ := h.run hs'
    rw [hnone, List.nil_append] at herrors'
    simp only [hrun, hrun', outcome, Except.map, herrors, herrors', hitem]
  | breaks h =>
    obtain ⟨t, hrun, -, -⟩ := h.run hs
    obtain ⟨t', hrun', -, -⟩ := h.run hs'
    simp only [hrun, hrun', outcome, Except.map, hitem]

end Outcomes

/-- Parsing is reading statements from the first token on. -/
theorem parse_eq_outcome (tokens : List Token) :
    parse tokens = (outcome (statements maxDepth true (.ofTokens tokens))).map fun r =>
      (⟨r.1, .start⟩, r.2) := by
  have hprogram : program (.ofTokens tokens) = ((fun body => (⟨body, .start⟩ : Program)) <$>
      statements maxDepth true) (.ofTokens tokens) := rfl
  rw [parse, hprogram]
  cases hrun : statements maxDepth true (.ofTokens tokens) with
  | ok body t =>
    rw [map_of_ok hrun]
    rfl
  | error failure t =>
    rw [map_of_error hrun]
    rfl

-- ============================================================================
-- Statements up to the end of input
-- ============================================================================

/-- The end of input as a barrier. -/
def Barrier.atEnd : Barrier where
  stops item := item.token.kind = .endOfInput
  bars h := by rw [h]; rfl
  endsReturn h := .inr (.inl h)

theorem Barrier.resumes_atEnd (inBlock : Bool) : Barrier.atEnd.Resumes inBlock := by
  intro item hitem
  have hkind : item.token.kind = .endOfInput := hitem
  simp [resumesAt, hkind]

/-- Every closed state is somewhere before an end of input. -/
theorem Cursor.Closed.exists_before {s : State} (h : s.cursor.Closed) :
    ∃ w e, s.Before .atEnd w e := by
  obtain ⟨last, hlast, hend⟩ := h
  have hmem : last ∈ s.cursor.items := List.mem_of_getLast? hlast
  obtain ⟨w, later, hitems⟩ := List.append_of_mem hmem
  exact ⟨w, ⟨last, later, s.cursor.index + w.length⟩, hend, hitems, rfl⟩

section Statements

variable (room : Nat) (topLevel : Bool)

theorem statements_uniform (w : List Item) : Uniform .atEnd w (statements room topLevel) := by
  have hresumes := Barrier.resumes_atEnd (inBlockAt room)
  have hruns : RunsOn .atEnd .opened 0 w (statements room topLevel) :=
    statementsWith_runsOn hresumes (statementWith_local (nested_local room hresumes)) w
  exact hruns.resolve_right fun h => h.1 fun _ hitem => hitem

/-- Statements come to the same wherever their first item stands, behind the errors before it. -/
theorem outcome_statements_eq {s s' : State} (hitems : s.cursor.items = s'.cursor.items)
    (hclosed : s'.cursor.Closed) (hnone : s'.errors = []) :
    outcome (statements room topLevel s) =
      (outcome (statements room topLevel s')).map fun r => (r.1, s.errors ++ r.2) := by
  obtain ⟨w, e, hs'⟩ := hclosed.exists_before
  have hs : s.Before .atEnd w ⟨e.item, e.later, s.cursor.index + w.length⟩ :=
    ⟨hs'.stops, hitems.trans hs'.items_eq, rfl⟩
  exact (statements_uniform room topLevel w).outcome_eq hs hs' rfl hnone

variable {room topLevel}

/-- At the end of input there are no statements. -/
theorem statements_at_end {s : State} (hs : s.cursor.kind = .endOfInput) :
    statements room topLevel s = .ok [] s := by
  have hmany : many (stepAt room topLevel) s = .ok [] s := by
    rw [many_apply, show stepAt room topLevel s = .ok none s from statementStep_at_end hs]
  exact bind_of_ok hmany

/-- The statements of a repetition that goes on elsewhere. -/
theorem statements_of_many {found : List (Option Stmt)} {s t : State}
    (h : many (stepAt room topLevel) s =
      ((found ++ ·) <$> many (stepAt room topLevel)) t) :
    statements room topLevel s = ((found.filterMap id ++ ·) <$> statements room topLevel) t := by
  have hmap := map_of_map h fun found => found.filterMap id
  simp only [List.filterMap_append] at hmap
  rw [statements_eq, hmap, ← comp_map]
  rfl

end Statements

-- ============================================================================
-- Items of tokens
-- ============================================================================

theorem mem_of_mem_markLines {afterNewline : Bool} {tokens : List Token} {item : Item}
    (h : item ∈ markLines afterNewline tokens) : item.token ∈ tokens := by
  have htoken := List.mem_map_of_mem (f := Item.token) h
  rw [markLines_map_token] at htoken
  exact (List.mem_filter.mp htoken).1

/-- Behind a newline stands the first item of a line. -/
theorem markLines_append_newline {newline : Token} (h : newline.kind = .newline)
    (afterNewline : Bool) (before after : List Token) :
    markLines afterNewline (before ++ newline :: after) =
      markLines afterNewline before ++ markLines true after := by
  induction before generalizing afterNewline with
  | nil => simp [markLines, h]
  | cons token before ih =>
    by_cases hnewline : token.kind = .newline
    · simp [markLines, hnewline, ih]
    · simp [markLines, hnewline, ih]

/-- What comes before a token decides whether it is the first of its line; what comes after it does
    not depend on that. -/
theorem markLines_append_cons {token : Token} (h : token.kind ≠ .newline) (afterNewline : Bool)
    (before : List Token) :
    ∃ startsLine, ∀ after, markLines afterNewline (before ++ token :: after) =
      markLines afterNewline before ++ ⟨token, startsLine⟩ :: markLines false after := by
  induction before generalizing afterNewline with
  | nil => exact ⟨afterNewline, fun after => by simp [markLines, h]⟩
  | cons first before ih =>
    by_cases hnewline : first.kind = .newline
    · obtain ⟨startsLine, hafter⟩ := ih true
      exact ⟨startsLine, fun after => by simp [markLines, hnewline, hafter]⟩
    · obtain ⟨startsLine, hafter⟩ := ih false
      exact ⟨startsLine, fun after => by simp [markLines, hnewline, hafter]⟩

/-- Only the last item decides how a list of items is closed. -/
theorem closeAfter_append (last : Item) (before : List Item) (item : Item) (after : List Item) :
    closeAfter last (before ++ item :: after) = before ++ item :: closeAfter item after := by
  induction before generalizing last with
  | nil => rfl
  | cons first before ih => rw [List.cons_append, closeAfter, ih, List.cons_append]

theorem closeAfter_ne_nil {last : Item} (h : last.token.kind ≠ .endOfInput) (items : List Item) :
    closeAfter last items ≠ [] := by
  cases items with
  | nil => simp [closeAfter, h]
  | cons item items => simp [closeAfter]

/-- The state of a list of tokens whose items are known, in front of one of them. -/
theorem State.before_ofTokens {K : Barrier} {tokens : List Token} {w later : List Item}
    {item : Item} (hitems : markLines false tokens = w ++ item :: later) (hstops : K.stops item) :
    (State.ofTokens tokens).Before K w ⟨item, closeAfter item later, w.length⟩ := by
  cases w with
  | nil =>
    have hcursor : Cursor.ofTokens tokens = ⟨item, closeAfter item later, 0⟩ := by
      rw [Cursor.ofTokens, hitems]
      rfl
    exact ⟨hstops, by rw [State.ofTokens, hcursor]; rfl, by rw [State.ofTokens, hcursor]; rfl⟩
  | cons first w =>
    have hcursor : Cursor.ofTokens tokens = ⟨first, w ++ item :: closeAfter item later, 0⟩ := by
      rw [Cursor.ofTokens, hitems, List.cons_append, Cursor.ofItems, closeAfter_append]
    exact ⟨hstops, by rw [State.ofTokens, hcursor]; rfl,
      by rw [State.ofTokens, hcursor]; exact Nat.zero_add _⟩

-- ============================================================================
-- Statements of tokens
-- ============================================================================

/-- Statements behind an item that is no end of input come to the same as from the start. -/
theorem outcome_statements_closeAfter {s : State} {last : Item} {tokens : List Token}
    (hlast : last.token.kind ≠ .endOfInput)
    (hitems : s.cursor.items = closeAfter last (markLines false tokens)) (room : Nat)
    (topLevel : Bool) :
    outcome (statements room topLevel s) =
      (outcome (statements room topLevel (.ofTokens tokens))).map fun r =>
        (r.1, s.errors ++ r.2) := by
  cases hmark : markLines false tokens with
  | nil =>
    have hcurrent : s.cursor.kind = .endOfInput := by
      rw [hmark, closeAfter, if_neg hlast] at hitems
      rw [Cursor.kind, (List.cons.inj hitems).1]
      rfl
    have hstart : (State.ofTokens tokens).cursor.kind = .endOfInput := by
      rw [State.ofTokens, Cursor.ofTokens, hmark]
      rfl
    rw [statements_at_end hcurrent, statements_at_end hstart]
    simp only [outcome, Except.map, State.ofTokens, List.append_nil]
  | cons item items =>
    have hsame : s.cursor.items = (State.ofTokens tokens).cursor.items := by
      rw [hitems, State.ofTokens, Cursor.ofTokens, hmark]
      rfl
    exact outcome_statements_eq room topLevel hsame (Cursor.closed_ofTokens tokens) rfl

/-- A uniform repetition of statements, one run of which is over tokens that are known: it does not
    fail if these hold numbers, and it stops only where a body ends. -/
theorem Uniform.exists_gives {K : Barrier} {w : List Item} {room : Nat} {topLevel : Bool}
    (h : Uniform K w (many (stepAt room topLevel)))
    {tokens : List Token} {e : Ending} (hs : (State.ofTokens tokens).Before K w e)
    (hnumbers : NumbersReadable tokens) :
    ∃ found rest new,
      Gives K w (many (stepAt room topLevel)) found rest new ∧
      endsBody topLevel (rest.headD e.item) = true := by
  cases h with
  | @gives found rest new h =>
    obtain ⟨t, hrun, ht, -⟩ := h.run hs
    have hstatements : statements room topLevel (.ofTokens tokens) =
        .ok (found.filterMap id) t := bind_of_ok hrun
    obtain ⟨_, _, _, _, _, hends⟩ :=
      (statements_reads room topLevel _).ok (Cursor.closed_ofTokens tokens) rfl hstatements
    rw [ht.current_eq] at hends
    exact ⟨found, rest, new, h, hends⟩
  | breaks h =>
    obtain ⟨t, hrun, -, -⟩ := h.run hs
    have hstatements : statements room topLevel (.ofTokens tokens) = .error _ t :=
      bind_of_error hrun
    obtain ⟨token, htoken, hkind, hread⟩ := statements_ofTokens_error hstatements
    have hsome := hnumbers token ((List.takeWhile_prefix _).subset htoken) hkind
    rw [hread] at hsome
    cases hsome

end Parse

end Storyboard
