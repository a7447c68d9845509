/-
  Storyboard.Proofs.Parse.Soundness

  The parser as a whole is sound for the grammar. A list of tokens is first
  turned into items: newlines are dropped, and an end of input is added unless
  the list has one. If parsing then finds no error, the items before the first
  end of input, all of them, have the form of a program with the tree that was
  made, places apart.

  Parsing itself fails only at a number token that holds no number, so for lists
  without such a token it always gives a tree and a list of errors.
-/
import Storyboard.Proofs.Parse.StmtSound
import Storyboard.Token.Scanner

namespace Storyboard

open Grammar

-- ============================================================================
-- From tokens to items
-- ============================================================================

namespace Parse

/-- The tokens of the items are all tokens but the newlines. -/
theorem markLines_map_token (afterNewline : Bool) (tokens : List Token) :
    (markLines afterNewline tokens).map Item.token =
      tokens.filter fun token => token.kind ≠ .newline := by
  induction tokens generalizing afterNewline with
  | nil => rfl
  | cons token tokens ih =>
    unfold markLines
    by_cases hnewline : token.kind = .newline
    · simp [hnewline, ih]
    · simp [hnewline, ih]

/-- Cutting a list of tokens at its first end of input cuts the items there too. -/
theorem takeWhile_markLines (afterNewline : Bool) (tokens : List Token) :
    (markLines afterNewline tokens).takeWhile (fun item => item.token.kind ≠ .endOfInput) =
      markLines afterNewline (tokens.takeWhile fun token => token.kind ≠ .endOfInput) := by
  induction tokens generalizing afterNewline with
  | nil => rfl
  | cons token tokens ih =>
    by_cases hnewline : token.kind = .newline
    · have hend : token.kind ≠ .endOfInput := by rw [hnewline]; decide
      rw [markLines, if_pos hnewline, List.takeWhile_cons_of_pos (by simpa using hend), markLines,
        if_pos hnewline, ih]
    · rw [markLines, if_neg hnewline]
      by_cases hend : token.kind = .endOfInput
      · rw [List.takeWhile_cons_of_neg (by simpa using hend),
          List.takeWhile_cons_of_neg (by simpa using hend), markLines]
      · rw [List.takeWhile_cons_of_pos (by simpa using hend),
          List.takeWhile_cons_of_pos (by simpa using hend), markLines, if_neg hnewline, ih]

/-- Closing a list of items adds at most one end of input. -/
theorem closeAfter_eq_append (last : Item) (items : List Item) :
    ∃ tail, closeAfter last items = items ++ tail ∧
      ∀ item ∈ tail, item.token.kind = .endOfInput := by
  induction items generalizing last with
  | nil =>
    unfold closeAfter
    split
    · exact ⟨[], rfl, by simp⟩
    · exact ⟨[endItem last.token.location], rfl, by simp [endItem]⟩
  | cons item items ih =>
    obtain ⟨tail, htail, hends⟩ := ih item
    exact ⟨tail, by rw [closeAfter, htail, List.cons_append], hends⟩

/-- The items of a cursor are those of its tokens, and at most one end of input more. -/
theorem Cursor.items_ofTokens (tokens : List Token) :
    ∃ tail, (ofTokens tokens).items = markLines false tokens ++ tail ∧
      ∀ item ∈ tail, item.token.kind = .endOfInput := by
  unfold ofTokens ofItems
  split
  · rename_i hitems
    exact ⟨[endItem .start], by rw [hitems]; rfl, by simp [endItem]⟩
  · rename_i item items hitems
    obtain ⟨tail, htail, hends⟩ := closeAfter_eq_append item items
    refine ⟨tail, ?_, hends⟩
    rw [hitems, Cursor.items, htail, List.cons_append]

/-- What is passed up to an end of input is all that stands before the first one. -/
theorem Cursor.Passes.eq_takeWhile {c d : Cursor} {w : List Item} (h : c.Passes w d)
    (hd : d.kind = .endOfInput) :
    w = c.items.takeWhile fun item => item.token.kind ≠ .endOfInput := by
  have hstop : d.items.takeWhile (fun item => item.token.kind ≠ .endOfInput) = [] := by
    have hcurrent : d.current.token.kind = .endOfInput := hd
    simp [Cursor.items, hcurrent]
  rw [h.items_eq, List.takeWhile_append_of_pos (by simpa using h.inside), hstop, List.append_nil]

end Parse

/-- The items of a list of tokens before its first end of input. -/
def written (tokens : List Token) : List Parse.Item :=
  Parse.markLines false (tokens.takeWhile fun token => token.kind ≠ .endOfInput)

/-- Every number token holds a number. -/
def NumbersReadable (tokens : List Token) : Prop :=
  ∀ token ∈ tokens, token.kind = .number → (Numeral.read? token.text).isSome = true

instance (tokens : List Token) : Decidable (NumbersReadable tokens) :=
  inferInstanceAs (Decidable (∀ token ∈ tokens, _))

namespace Parse

/-- The items of a cursor before their first end of input are what is written. -/
theorem Cursor.takeWhile_items_ofTokens (tokens : List Token) :
    (Cursor.ofTokens tokens).items.takeWhile (fun item => item.token.kind ≠ .endOfInput) =
      written tokens := by
  obtain ⟨tail, hitems, hends⟩ := Cursor.items_ofTokens tokens
  have htail : tail.takeWhile (fun item => item.token.kind ≠ .endOfInput) = [] := by
    cases tail with
    | nil => rfl
    | cons item tail => simp [hends item List.mem_cons_self]
  rw [hitems, written, ← takeWhile_markLines, List.takeWhile_append, htail, List.append_nil]
  split
  · rename_i hlen
    exact ((List.takeWhile_prefix _).eq_of_length hlen).symm
  · rfl

/-- A cursor passes only what is written. -/
theorem Cursor.Passes.mem_written {tokens : List Token} {d : Cursor} {w : List Item} {item : Item}
    (h : (Cursor.ofTokens tokens).Passes w d) (hmem : item ∈ w) : item ∈ written tokens := by
  rw [← takeWhile_items_ofTokens, h.items_eq,
    List.takeWhile_append_of_pos (by simpa using h.inside)]
  exact List.mem_append_left _ hmem

/-- What a program's parser does with a list of tokens: it gives a native tree, and without
    errors all that is written has the form of a program. -/
theorem program_ofTokens {tokens : List Token} {p : Program} {t : State}
    (h : program (.ofTokens tokens) = .ok p t) :
    Stmt.allNative p.body = true ∧ (t.errors = [] → ProgramForm (written tokens) p.bare) := by
  obtain ⟨body, u, hbody, hpure⟩ := bind_eq_ok h
  cases hpure
  obtain ⟨w, new, hpass, herr, ⟨hnative, hform⟩, hends⟩ :=
    (statements_reads maxDepth true _).ok (Cursor.closed_ofTokens tokens) rfl hbody
  have hend : t.cursor.kind = .endOfInput := by simpa [endsBody, Cursor.kind] using hends
  refine ⟨hnative, fun hnone => ⟨t.cursor.current, hend, ?_⟩⟩
  have hw : w = written tokens :=
    (hpass.eq_takeWhile hend).trans (Cursor.takeWhile_items_ofTokens tokens)
  rw [← hw]
  exact hform (by simpa [State.ofTokens, herr] using hnone)

/-- Statements fail only at a number token before the first end of input that holds no number. -/
theorem statements_ofTokens_error {room : Nat} {topLevel : Bool} {tokens : List Token}
    {failure : Failure} {t : State}
    (h : statements room topLevel (.ofTokens tokens) = .error failure t) :
    ∃ token ∈ tokens.takeWhile (fun token => token.kind ≠ .endOfInput),
      token.kind = .number ∧ Numeral.read? token.text = none := by
  obtain ⟨text, rfl⟩ := statementsWith_eq_error h
  obtain ⟨w, new, hpass, _, hwhy⟩ :=
    (statements_reads room topLevel _).error (Cursor.closed_ofTokens tokens) rfl h
  cases hwhy with
  | @notNumber item hmem hkind hread =>
    have htoken := List.mem_map_of_mem (f := Item.token) (hpass.mem_written hmem)
    rw [written, markLines_map_token] at htoken
    exact ⟨item.token, (List.mem_filter.mp htoken).1, hkind, hread⟩

/-- A program's parser fails only at a number token before the first end of input that holds no
    number. -/
theorem program_ofTokens_error {tokens : List Token} {failure : Failure} {t : State}
    (h : program (.ofTokens tokens) = .error failure t) :
    ∃ token ∈ tokens.takeWhile (fun token => token.kind ≠ .endOfInput),
      token.kind = .number ∧ Numeral.read? token.text = none := by
  obtain hbody | ⟨body, u, _, hpure⟩ := bind_eq_error h
  · exact statements_ofTokens_error hbody
  · cases hpure

end Parse

-- ============================================================================
-- Parsing
-- ============================================================================

/-- A list whose number tokens, up to the first end of input, hold numbers is always parsed. -/
theorem parse_eq_ok {tokens : List Token}
    (hnumbers : NumbersReadable (tokens.takeWhile fun token => token.kind ≠ .endOfInput)) :
    ∃ p errors, parse tokens = .ok (p, errors) := by
  unfold parse
  cases hrun : Parse.program (.ofTokens tokens) with
  | ok p t => exact ⟨p, t.errors, rfl⟩
  | error failure t =>
    obtain ⟨token, hmem, hkind, hread⟩ := Parse.program_ofTokens_error hrun
    have hsome := hnumbers token hmem hkind
    rw [hread] at hsome
    cases hsome

theorem NumbersReadable.exists_parse {tokens : List Token} (h : NumbersReadable tokens) :
    ∃ p errors, parse tokens = .ok (p, errors) :=
  parse_eq_ok fun token hmem => h token ((List.takeWhile_prefix _).subset hmem)

/-- What is parsed is what the parser of programs gives, with the errors that it leaves. -/
theorem program_of_parse {tokens : List Token} {p : Program} {errors : List SyntaxError}
    (h : parse tokens = .ok (p, errors)) :
    ∃ t, Parse.program (.ofTokens tokens) = .ok p t ∧ t.errors = errors := by
  unfold parse at h
  split at h
  · rename_i q t hrun
    obtain ⟨rfl, herrors⟩ := Prod.mk.inj (Except.ok.inj h)
    exact ⟨t, hrun, herrors⟩
  · cases h

/-- The tree of a list of tokens is native, and it is the tree of a program's form if there are no
    errors. -/
theorem parse_ok {tokens : List Token} {p : Program} {errors : List SyntaxError}
    (h : parse tokens = .ok (p, errors)) :
    Stmt.allNative p.body = true ∧ (errors = [] → ProgramForm (written tokens) p.bare) := by
  obtain ⟨t, hrun, rfl⟩ := program_of_parse h
  exact Parse.program_ofTokens hrun

/-- Parsing is sound for the grammar. If the number tokens hold numbers, parsing gives a tree and
    errors; if there are no errors, what is written, which is every token but newlines before the
    first end of input, has the form of a program with that tree, places apart. -/
theorem parse_sound (tokens : List Token) (hnumbers : NumbersReadable tokens) :
    ∃ p errors, parse tokens = .ok (p, errors) ∧
      (errors = [] →
        (written tokens).map Parse.Item.token =
            (tokens.takeWhile fun token => token.kind ≠ .endOfInput).filter
              (fun token => token.kind ≠ .newline) ∧
          ProgramForm (written tokens) p.bare) := by
  obtain ⟨p, errors, hparse⟩ := parse_eq_ok fun token hmem =>
    hnumbers token ((List.takeWhile_prefix _).subset hmem)
  refine ⟨p, errors, hparse, fun hnone => ⟨?_, (parse_ok hparse).2 hnone⟩⟩
  exact Parse.markLines_map_token false _

/-- A program with chained operators, parentheses, a skipped token in an `animate` block, a move
    without a direction, and a `return` that ends with its line. -/
theorem parse_sound_sample :
    let tokens := tokenize
      "let r = 1 - 2 - (3)\nanimate \x7b , move r \x7d\nfn f(a, b) \x7b return\nf(a)(b) \x7d"
    NumbersReadable tokens ∧
      ∃ p, parse tokens = .ok (p, []) ∧ ProgramForm (written tokens) p.bare := by
  intro tokens
  have hnumbers : NumbersReadable tokens := by decide +kernel
  have hclean : ((parse tokens).toOption.map Prod.snd) = some [] := by decide +kernel
  obtain ⟨p, errors, hparse, hform⟩ := parse_sound tokens hnumbers
  obtain rfl : errors = [] := by
    rw [hparse] at hclean
    simpa [Except.toOption] using hclean
  exact ⟨hnumbers, p, hparse, (hform rfl).2⟩

end Storyboard
