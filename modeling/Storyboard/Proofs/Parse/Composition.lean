/-
  Storyboard.Proofs.Parse.Composition

  A line that begins with the keyword of a statement begins anew. If a text is put in
  front of such a line, then its statements and errors come first and those of the line
  and all that follows come next, as if the two were parsed alone. Only an error that
  was about the end of the first text is now about the keyword.

  The first text may be as wrong as it likes, but it must not leave a block open: if
  there is an opening brace in it then it has to be free of errors.
-/
import Storyboard.Proofs.Parse.Resuming

namespace Storyboard

namespace Parse

-- ============================================================================
-- Lines as barriers
-- ============================================================================

theorem exists_word_of_opensStatement {kind : Kind} (h : kind.opensStatement = true) :
    ∃ word, kind = .keyword (.statement word) := by
  have hbars : bars kind = true := by simp [bars, h]
  obtain rfl | rfl | hword := eq_of_bars hbars
  · cases h
  · cases h
  · exact hword

theorem ne_endOfInput_of_opensStatement {kind : Kind} (h : kind.opensStatement = true) :
    kind ≠ .endOfInput := by
  rintro rfl
  cases h

/-- The complaint about an unexpected keyword, in words. -/
theorem text_unexpected_of_opensStatement {token : Token}
    (h : token.kind.opensStatement = true) :
    (Complaint.unexpected.about token).problem.text = "Unexpected token: " ++ token.text := by
  obtain ⟨word, hkind⟩ := exists_word_of_opensStatement h
  rw [Complaint.about, SyntaxProblem.ofToken, hkind]
  rfl

/-- The keywords of statements at the start of a line, and the end of input. -/
def Barrier.atLine : Barrier where
  stops item := item.token.kind = .endOfInput ∨
    item.token.kind.opensStatement = true ∧ item.startsLine = true
  bars h := by
    obtain h | h := h
    · rw [h]; rfl
    · simp [Parse.bars, h]
  endsReturn h := by
    obtain h | h := h
    · exact .inr (.inl h)
    · exact .inr (.inr h.2)

theorem Barrier.resumes_atLine (inBlock : Bool) : Barrier.atLine.Resumes inBlock := by
  rintro item (hitem | hitem)
  · simp [resumesAt, hitem]
  · simp [resumesAt, hitem]

/-- What stands at the end of tokens without an end of input: one at the place of the last token
    that is no newline. -/
def endOf (tokens : List Token) : Token :=
  ⟨.endOfInput, "", (((tokens.filter fun token => token.kind ≠ .newline).getLast?).map
    Token.location).getD .start⟩

/-- Items without an end of input are closed by one. -/
theorem closeAfter_eq_concat {last : Item} {items : List Item}
    (h : ∀ item ∈ last :: items, item.token.kind ≠ .endOfInput) :
    closeAfter last items = items ++
      [endItem ((((last :: items).map Item.token).getLast?.map Token.location).getD .start)] := by
  induction items generalizing last with
  | nil => simp [closeAfter, h last]
  | cons item items ih =>
    rw [closeAfter, ih fun other hother => h other (List.mem_cons_of_mem _ hother)]
    simp [List.getLast?_cons_cons]

/-- Tokens without an end of input stand before the one that is added to them. -/
theorem State.before_endOf {tokens : List Token}
    (h : ∀ token ∈ tokens, token.kind ≠ .endOfInput) :
    (State.ofTokens tokens).Before .atLine (markLines false tokens)
      ⟨⟨endOf tokens, false⟩, [], (markLines false tokens).length⟩ := by
  have hends : ∀ item ∈ markLines false tokens, item.token.kind ≠ .endOfInput :=
    fun item hitem => h _ (mem_of_mem_markLines hitem)
  have htokens := markLines_map_token false tokens
  refine ⟨.inl rfl, ?_, ?_⟩
  · rw [State.ofTokens, Cursor.ofTokens, endOf, ← htokens]
    cases hmark : markLines false tokens with
    | nil => rfl
    | cons item items =>
      rw [hmark] at hends
      rw [Cursor.ofItems, Cursor.items, closeAfter_eq_concat hends]
      rfl
  · rw [State.ofTokens, Cursor.index_ofTokens, Nat.zero_add]

/-- The first token other than a newline is the first item, whether or not a line begins before
    it. -/
theorem markLines_of_find {tokens : List Token} {first : Token}
    (h : tokens.find? (fun token => token.kind ≠ .newline) = some first) :
    ∃ flag items, markLines false tokens = ⟨first, flag⟩ :: items ∧
      markLines true tokens = ⟨first, true⟩ :: items := by
  induction tokens with
  | nil => cases h
  | cons token tokens ih =>
    by_cases hnewline : token.kind = .newline
    · obtain ⟨flag, items, -, htrue⟩ := ih (by simpa [hnewline] using h)
      exact ⟨true, items, by simpa [markLines, hnewline] using htrue,
        by simpa [markLines, hnewline] using htrue⟩
    · obtain rfl : token = first := by simpa [hnewline] using h
      exact ⟨false, markLines false tokens, by simp [markLines, hnewline],
        by simp [markLines, hnewline]⟩

-- ============================================================================
-- The first item of a line
-- ============================================================================

/-- The same state, with the mark of its current item set. -/
def State.mark (s : State) (startsLine : Bool) : State :=
  { s with cursor := { s.cursor with current := ⟨s.cursor.current.token, startsLine⟩ } }

section Marks

variable {s : State} (hword : s.cursor.kind.opensStatement = true) (hmore : s.cursor.upcoming ≠ [])
  (room : Nat) (startsLine : Bool)
include hword hmore

/-- A statement that begins with its keyword is the same at the start of a line. -/
theorem statement_mark : statement room (s.mark startsLine) = statement room s := by
  obtain ⟨⟨⟨⟨kind, text, location⟩, flag⟩, upcoming, index⟩, errors⟩ := s
  obtain ⟨next, others, rfl⟩ := List.exists_cons_of_ne_nil hmore
  -- Only the kind of the keyword is looked at before the cursor moves on to the next item.
  obtain ⟨word, rfl⟩ := exists_word_of_opensStatement hword
  rfl

theorem statements_mark : statements room true (s.mark startsLine) = statements room true s := by
  have hkind := ne_endOfInput_of_opensStatement hword
  have hattempt : attempt (inBlockAt room) (statement room) (s.mark startsLine) =
      attempt (inBlockAt room) (statement room) s := by
    rw [attempt, attempt, statement_mark hword hmore]
    rfl
  have hstep : stepAt room true (s.mark startsLine) = stepAt room true s := by
    rw [stepAt, statementStep_eq_attempt hkind,
      statementStep_eq_attempt (s := s.mark startsLine) hkind]
    exact map_congr hattempt some
  have hmany : many (stepAt room true) (s.mark startsLine) = many (stepAt room true) s := by
    rw [many_apply, many_apply, hstep]
    rfl
  exact map_congr hmany fun found => found.filterMap id

end Marks

/-- Statements from the keyword at the start of a line on come to the same as from the start. -/
theorem outcome_statements_line {tokens : List Token} {first : Token} {items : List Item}
    {flag : Bool} (hmark : markLines false tokens = ⟨first, flag⟩ :: items)
    (hword : first.kind.opensStatement = true) {s : State}
    (hitems : s.cursor.items = ⟨first, true⟩ :: closeAfter ⟨first, true⟩ items) (room : Nat) :
    outcome (statements room true s) =
      (outcome (statements room true (.ofTokens tokens))).map fun r => (r.1, s.errors ++ r.2) := by
  have hclose : closeAfter ⟨first, flag⟩ items = closeAfter ⟨first, true⟩ items := by
    cases items <;> rfl
  have hcursor : Cursor.ofTokens tokens = ⟨⟨first, flag⟩, closeAfter ⟨first, true⟩ items, 0⟩ := by
    rw [Cursor.ofTokens, hmark, Cursor.ofItems, hclose]
  have hlast : (Item.mk first true).token.kind ≠ .endOfInput :=
    ne_endOfInput_of_opensStatement hword
  have hmore : (State.ofTokens tokens).cursor.upcoming ≠ [] := by
    rw [State.ofTokens, hcursor]
    exact closeAfter_ne_nil hlast items
  have hkind : (State.ofTokens tokens).cursor.kind.opensStatement = true := by
    rw [State.ofTokens, hcursor]
    exact hword
  have hmarked : ((State.ofTokens tokens).mark true).cursor =
      ⟨⟨first, true⟩, closeAfter ⟨first, true⟩ items, 0⟩ := by
    rw [State.mark, State.ofTokens, hcursor]
  rw [← statements_mark hkind hmore room true]
  refine outcome_statements_eq room true ?_ ?_ rfl
  · rw [hitems, hmarked]
    rfl
  · rw [hmarked]
    exact Cursor.closed_closeAfter _ _ _

-- ============================================================================
-- Statements before the line
-- ============================================================================

section Lines

variable {before after : List Token} {newline first : Token}

/-- The items of tokens that are put in front of a line. -/
theorem State.before_line (hnewline : newline.kind = .newline) {items : List Item}
    (hmark : markLines true after = ⟨first, true⟩ :: items)
    (hword : first.kind.opensStatement = true) :
    (State.ofTokens (before ++ newline :: after)).Before .atLine (markLines false before)
      ⟨⟨first, true⟩, closeAfter ⟨first, true⟩ items, (markLines false before).length⟩ := by
  refine State.before_ofTokens ?_ (.inr ⟨hword, rfl⟩)
  rw [markLines_append_newline hnewline, hmark]

/-- Tokens in front of a line that begins with the keyword of a statement lead to it, unless they
    leave a block open. -/
theorem statements_lead (hinput : ∀ token ∈ before, token.kind ≠ .endOfInput)
    (hbefore : (∀ token ∈ before, token.kind ≠ .leftBrace) ∨ ∃ p, parse before = .ok (p, []))
    (hnewline : newline.kind = .newline) {items : List Item}
    (hmark : markLines true after = ⟨first, true⟩ :: items)
    (hword : first.kind.opensStatement = true)
    (hnumbers : NumbersReadable (before ++ newline :: after)) :
    ∃ found new, Leads .atLine (markLines false before) (many (stepAt maxDepth true))
      ((found ++ ·) <$> many (stepAt maxDepth true)) new := by
  cases loopOn_statements maxDepth (Barrier.resumes_atLine _) true (markLines false before) with
  | leads h => exact ⟨_, _, h⟩
  | uniform h =>
    -- A uniform run would stop at an end of input before the line, or take the keyword for one.
    obtain ⟨found, rest, new, h, hends⟩ :=
      h.exists_gives (State.before_line hnewline hmark hword) hnumbers
    have hend : (rest.headD ⟨first, true⟩).token.kind = .endOfInput := by
      simpa [endsBody] using hends
    cases rest with
    | nil => exact absurd hend (ne_endOfInput_of_opensStatement hword)
    | cons item rest =>
      have hmem := mem_of_mem_markLines (h.suffix.subset List.mem_cons_self)
      exact absurd hend (hinput _ hmem)
  | runsOut hallowed h =>
    obtain ⟨-, item, hitem, hbrace⟩ := hallowed
    obtain hbefore | ⟨p, hparse⟩ := hbefore
    · exact absurd hbrace (hbefore _ (mem_of_mem_markLines hitem))
    · obtain ⟨found, t, hrun, -, hlength⟩ := h (State.before_endOf hinput) rfl
      have hstatements : statements maxDepth true (.ofTokens before) =
          .ok (found.filterMap id) t := bind_of_ok hrun
      rw [parse_eq_outcome, hstatements] at hparse
      have hnone : t.errors = [] := by
        simp only [outcome, Except.map, Except.ok.injEq, Prod.mk.injEq] at hparse
        exact hparse.2
      rw [hnone] at hlength
      cases hlength

end Lines

/-- In front of an end of input, statements that lead there are all there are. -/
theorem Leads.parse_eq {K : Barrier} {w : List Item} {found : List (Option Stmt)}
    {new : List OpenError} (h : Leads K w (many (stepAt maxDepth true))
      ((found ++ ·) <$> many (stepAt maxDepth true)) new)
    {tokens : List Token} {e : Ending} (hs : (State.ofTokens tokens).Before K w e)
    (hend : e.item.token.kind = .endOfInput) :
    parse tokens = .ok (⟨found.filterMap id, .start⟩, new.map (OpenError.close e.item.token)) := by
  obtain ⟨t, hmany, ht, herrors⟩ := h.run hs
  have hnone : statements maxDepth true t = .ok [] t :=
    statements_at_end (by rw [Cursor.kind, ht.current_eq]; exact hend)
  rw [parse_eq_outcome, statements_of_many hmany, map_of_ok hnone, List.append_nil]
  simp only [outcome, Except.map, herrors, State.ofTokens, List.nil_append]

end Parse

open Parse

/-- A line that begins with the keyword of a statement begins anew. If a text without an end of
    input, which has no opening brace or no errors, is put in front of such a line, there are first
    its statements and then those of the line and what follows. The errors are first those of the
    text, where the ones about its end are about the keyword instead, and then those of the rest.
    The errors about the end of the text are the ones that go with whatever end of input is put
    behind it. -/
theorem parse_append_line {before after : List Token} {newline first : Token}
    (hinput : ∀ token ∈ before, token.kind ≠ .endOfInput)
    (hbefore : (∀ token ∈ before, token.kind ≠ .leftBrace) ∨ ∃ p, parse before = .ok (p, []))
    (hnewline : newline.kind = .newline)
    (hfirst : after.find? (fun token => token.kind ≠ .newline) = some first)
    (hword : first.kind.opensStatement = true)
    (hnumbers : NumbersReadable (before ++ newline :: after)) :
    ∃ (p q : Program) (pending : List OpenError) (errors : List SyntaxError),
      (∀ stop : Token, stop.kind = .endOfInput →
        parse (before ++ [stop]) = .ok (p, pending.map (OpenError.close stop))) ∧
      parse before = .ok (p, pending.map (OpenError.close (endOf before))) ∧
      parse after = .ok (q, errors) ∧
      parse (before ++ newline :: after) =
        .ok (⟨p.body ++ q.body, .start⟩, pending.map (OpenError.close first) ++ errors) ∧
      ((OpenError.pending .unexpected).close (endOf before)).problem.text =
        "Unexpected end of input" ∧
      ((OpenError.pending .unexpected).close first).problem.text =
        "Unexpected token: " ++ first.text := by
  obtain ⟨flag, items, hmark, hmark'⟩ := markLines_of_find hfirst
  obtain ⟨found, new, hleads⟩ := statements_lead hinput hbefore hnewline hmark' hword hnumbers
  obtain ⟨q, errors, hafter⟩ : ∃ q errors, parse after = .ok (q, errors) := by
    refine parse_eq_ok fun token htoken => hnumbers token ?_
    have hmem := (List.takeWhile_prefix _).subset htoken
    exact List.mem_append_right _ (List.mem_cons_of_mem _ hmem)
  refine ⟨⟨found.filterMap id, .start⟩, q, new, errors, fun stop hstop => ?_,
    hleads.parse_eq (State.before_endOf hinput) rfl, hafter, ?_, rfl,
    text_unexpected_of_opensStatement hword⟩
  · -- An end of input behind the text is a barrier just as the new line is.
    obtain ⟨flag', hstopped⟩ := markLines_append_cons (by rw [hstop]; decide) false before
    exact hleads.parse_eq (State.before_ofTokens (hstopped []) (.inl hstop)) hstop
  · -- Before the new line the statements leave off, and the rest is parsed as it is alone.
    obtain ⟨t, hmany, ht, herrors⟩ := hleads.run (State.before_line hnewline hmark' hword)
    rw [parse_eq_outcome, statements_of_many hmany, outcome_map,
      outcome_statements_line hmark hword ht.items_eq, herrors]
    rw [parse_eq_outcome] at hafter
    cases hrest : outcome (statements maxDepth true (.ofTokens after)) with
    | ok r =>
      rw [hrest] at hafter
      cases hafter
      rfl
    | error failure =>
      rw [hrest] at hafter
      cases hafter

/-- Two sums without their last operand, the second at the end of the text, in front of a `let`:
    the error about the end is then one about the `let`. -/
theorem parse_append_line_sample :
    let before := (tokenize "let a = 1 + )\nlet b = 2 *").dropLast
    let newline : Token := ⟨.newline, "\n", ⟨2, 12⟩⟩
    let after := tokenize "\nlet c = 3"
    let first : Token := ⟨.keyword (.statement .letWord), "let", ⟨2, 1⟩⟩
    NumbersReadable (before ++ newline :: after) ∧
      after.find? (fun token => token.kind ≠ .newline) = some first ∧
      ∃ (p q : Program) (pending : List OpenError),
        parse before = .ok (p, pending.map (OpenError.close (endOf before))) ∧
        pending.map (OpenError.close (endOf before)) =
          [⟨.strayToken ")", ⟨1, 13⟩⟩, ⟨.endOfInput, ⟨2, 11⟩⟩] ∧
        parse after = .ok (q, []) ∧
        parse (before ++ newline :: after) =
          .ok (⟨p.body ++ q.body, .start⟩, pending.map (OpenError.close first)) ∧
        pending.map (OpenError.close first) =
          [⟨.strayToken ")", ⟨1, 13⟩⟩, ⟨.strayToken "let", ⟨2, 1⟩⟩] := by
  intro before newline after first
  have hnumbers : NumbersReadable (before ++ newline :: after) := by decide +kernel
  have hinput : ∀ token ∈ before, token.kind ≠ .endOfInput := by decide +kernel
  have hbrace : ∀ token ∈ before, token.kind ≠ .leftBrace := by decide +kernel
  have hfirst : after.find? (fun token => token.kind ≠ .newline) = some first := by decide +kernel
  obtain ⟨p, q, pending, errors, -, hbefore, hafter, hparse, -⟩ :=
    parse_append_line hinput (.inl hbrace) rfl hfirst rfl hnumbers
  have herrors : (parse before).toOption.map Prod.snd =
      some [⟨.strayToken ")", ⟨1, 13⟩⟩, ⟨.endOfInput, ⟨2, 11⟩⟩] := by decide +kernel
  have hnone : (parse after).toOption.map Prod.snd = some [] := by decide +kernel
  have hall : (parse (before ++ newline :: after)).toOption.map Prod.snd =
      some [⟨.strayToken ")", ⟨1, 13⟩⟩, ⟨.strayToken "let", ⟨2, 1⟩⟩] := by decide +kernel
  rw [hafter] at hnone
  obtain rfl : errors = [] := Option.some.inj hnone
  rw [List.append_nil] at hparse
  rw [hbefore] at herrors
  rw [hparse] at hall
  exact ⟨hnumbers, hfirst, p, q, pending, hbefore, Option.some.inj herrors, hafter, hparse,
    Option.some.inj hall⟩

end Storyboard
