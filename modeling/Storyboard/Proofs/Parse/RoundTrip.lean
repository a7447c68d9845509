/-
  Storyboard.Proofs.Parse.RoundTrip

  Printing and parsing: the tokens of a printed program are parsed without errors
  into the same tree, places apart, unless the tree nests so deep that the levels
  of nesting run out, which is then reported. Trees of a height up to 20 never
  nest too deep, however many statements, arguments, parameters and commands they
  have.
-/
import Storyboard.Proofs.Parse.Soundness
import Storyboard.Proofs.Parse.StmtPrinted

namespace Storyboard

namespace Parse

/-- Behind what is written stands an end of input. -/
theorem Cursor.items_eq_written (tokens : List Token) :
    ∃ next later, (Cursor.ofTokens tokens).items = written tokens ++ next :: later ∧
      next.token.kind = .endOfInput := by
  obtain ⟨last, hlast, hend⟩ := Cursor.closed_ofTokens tokens
  have hsplit := List.takeWhile_append_dropWhile
    (p := fun item : Item => item.token.kind ≠ .endOfInput) (l := (Cursor.ofTokens tokens).items)
  rw [takeWhile_items_ofTokens] at hsplit
  cases hrest : (Cursor.ofTokens tokens).items.dropWhile
      (fun item => item.token.kind ≠ .endOfInput) with
  | nil =>
    -- The last item is an end of input, so something is left.
    rw [hrest, List.append_nil, ← takeWhile_items_ofTokens] at hsplit
    have hmem := List.mem_of_getLast? hlast
    rw [← hsplit] at hmem
    exact absurd hend (by simpa using List.all_eq_true.mp List.all_takeWhile last hmem)
  | cons next later =>
    refine ⟨next, later, by rw [← hrest, hsplit], ?_⟩
    have hhead := List.head?_dropWhile_not (fun item : Item => item.token.kind ≠ .endOfInput)
      (Cursor.ofTokens tokens).items
    rw [hrest] at hhead
    simpa using hhead

/-- The statements of a printed program are read back from its items. -/
theorem statements_takes_of_laid {spell : Binary64 → String} {p : Program}
    (hprint : p.printable spell = true) {w : List Item} (hlaid : Laid false (p.words spell) w) :
    Takes true (p.height ≤ 20) w (fun next => endsBody true next = true)
      (statements maxDepth true) fun read => Stmt.bareAll read = Stmt.bareAll p.body := by
  have hprint := Stmt.allPrintable_iff.mp hprint
  refine statementsWith_takes (statementWith_reads (nested_sound maxDepth)) _ true hprint ?_ hlaid
  intro stmt hstmt afterNewline w hw
  refine (statement_takes (hprint stmt hstmt) maxDepth afterNewline w hw).mono (fun hheight => ?_)
    id id
  have hless := Stmt.height_lt_bodyHeight hstmt
  simp only [Program.height] at hheight
  simp only [maxDepth]
  omega

/-- The statements of a printed program are read back from its tokens. -/
theorem statements_takes {spell : Binary64 → String} {p : Program}
    (hprint : p.printable spell = true) {tokens : List Token}
    (hwords : (tokens.takeWhile fun token => token.kind ≠ .endOfInput).map Token.word =
      p.words spell) :
    Takes true (p.height ≤ 20) (written tokens) (fun next => endsBody true next = true)
      (statements maxDepth true) fun read => Stmt.bareAll read = Stmt.bareAll p.body := by
  refine statements_takes_of_laid hprint ?_
  have h := laid_markLines false (tokens.takeWhile fun token => token.kind ≠ .endOfInput)
  rwa [hwords] at h

end Parse

/-- The tokens of a printed program hold readable numbers. -/
theorem numbersReadable_of_words {spell : Binary64 → String} {p : Program}
    (hprint : p.printable spell = true) {tokens : List Token}
    (hwords : tokens.map Token.word = p.words spell) : NumbersReadable tokens := by
  intro token hmem hkind
  have hword := List.mem_map_of_mem (f := Token.word) hmem
  rw [hwords] at hword
  have hreadable := List.all_eq_true.mp (Program.all_readable_words hprint) _ hword
  simpa [Word.readable, hkind] using hreadable

/-- Parsing reads printing back. Take a program that can be printed, with its numbers spelled in
    any way that can be read, and a list of tokens which up to its first end of input are the words
    of the program. Then parsing gives the same tree without errors, or reports that the nesting is
    too deep; for a tree of height at most 20 it gives the same tree. -/
theorem parse_printed (spell : Binary64 → String) (p : Program) (hprint : p.printable spell = true)
    (tokens : List Token)
    (hwords : (tokens.takeWhile fun token => token.kind ≠ .endOfInput).map Token.word =
      p.words spell) :
    ∃ q errors, parse tokens = .ok (q, errors) ∧
      ((errors = [] ∧ q.bare = p.bare) ∨ ∃ error ∈ errors, error.problem = .tooDeep) ∧
      (p.height ≤ 20 → errors = [] ∧ q.bare = p.bare) := by
  obtain ⟨q, errors, hparse⟩ := parse_eq_ok (numbersReadable_of_words hprint hwords)
  refine ⟨q, errors, hparse, ?_⟩
  obtain ⟨next, later, hitems, hend⟩ := Parse.Cursor.items_eq_written tokens
  unfold parse Parse.program Parse.programAt at hparse
  -- Either all the statements are taken, or there are not enough levels and that is reported.
  obtain ⟨body, t, hrun, _, herr, hbody⟩ | ⟨hno, hover⟩ :=
    Parse.statements_takes hprint hwords (.ofTokens tokens) next later
      (Parse.Cursor.closed_ofTokens tokens) hitems (by simp [Parse.endsBody, hend])
  · rw [Parse.bind_of_ok hrun] at hparse
    cases hparse
    have hsame : t.errors = [] ∧ (Program.mk body .start).bare = p.bare :=
      ⟨herr, by simp only [Program.bare, hbody]⟩
    exact ⟨.inl hsame, fun _ => hsame⟩
  · refine ⟨.inr ?_, fun hheight => absurd hheight hno⟩
    cases hrun : Parse.statements maxDepth true (.ofTokens tokens) with
    | ok body t =>
      rw [hrun] at hover
      rw [Parse.bind_of_ok hrun] at hparse
      cases hparse
      exact hover.2
    | error failure t =>
      rw [Parse.bind_of_error hrun] at hparse
      cases hparse

/-- A program with an operator on the right of another, a `return` without a value in front of one
    with a call, an empty `else`, and a move by a sum. -/
theorem parse_printed_sample :
    let two : Expr := .number ((Numeral.read? "2").getD default) .start
    let f : Identifier := ⟨"f", .start⟩
    let p : Program := ⟨[
      .binding ⟨"a", .start⟩ (.binary "-" two (.binary "*" two two .start) .start) .start,
      .function f [⟨"x", .start⟩, ⟨"y", .start⟩] [
        .giveBack none .start,
        .giveBack (some (.call (.identifier f) [two, .color "#ff0000" .start] .start)) .start]
        .start,
      .branch (.binary "<=" two two .start) [] (some []) .start,
      .scene "s" [.animation [.move (.binary "+" two two .start) .up .start] .start] .start],
      .start⟩
    let tokens := (p.words fun _ => "2").map fun word => Token.mk word.kind word.text .start
    p.printable (fun _ => "2") = true ∧ p.height ≤ 20 ∧
      ∃ q, parse tokens = .ok (q, []) ∧ q.bare = p.bare := by
  intro two f p tokens
  have hprint : p.printable (fun _ => "2") = true := by decide +kernel
  have hwords : (tokens.takeWhile fun token => token.kind ≠ .endOfInput).map Token.word =
      p.words fun _ => "2" := by decide +kernel
  have hheight : p.height ≤ 20 := by decide +kernel
  obtain ⟨q, errors, hparse, -, hsame⟩ := parse_printed (fun _ => "2") p hprint tokens hwords
  obtain ⟨rfl, hq⟩ := hsame hheight
  exact ⟨hprint, hheight, q, hparse, hq⟩

end Storyboard
