/-
  Storyboard.Proofs.Parse.Stepwise

  Runs of a parser, step by step. The parser of programs is built from few steps: to
  look at the current token, to move past it, to give up at it, and to move on after
  an error. `Steps p s trace r` says that from `s` the parser `p` takes finitely many
  of them, at the cursors `trace` in turn, and ends with `r`. Its rules know nothing
  of a guard in a loop: a repetition goes on for as long as its parser gives results,
  and a search for as long as it has not found where to stop.

  Whatever steps a run takes, its cursors lie on the way from the first to the last
  (`Steps.along`). That there are such steps at all is what has to be shown for each
  parser (`Stepwise`): every round of every loop has to pass an item, which is what
  `Reads` tells, and every search has to meet an end of input.
-/
import Storyboard.Proofs.Parse.Soundness

namespace Storyboard.Parse

-- ============================================================================
-- Cursors on their way
-- ============================================================================

namespace Cursor

/-- The cursors that come after a cursor when it is moved on, one token at a time. -/
inductive Reaches : Cursor → Cursor → Prop where
  | here (c : Cursor) : Reaches c c
  | on {c d : Cursor} : Reaches c.advance d → Reaches c d

namespace Reaches

variable {c d e : Cursor}

theorem trans (h : c.Reaches d) (h' : d.Reaches e) : c.Reaches e := by
  induction h with
  | here => exact h'
  | on _ ih => exact .on (ih h')

theorem advance (c : Cursor) : c.Reaches c.advance := .on (.here _)

/-- A cursor never moves back. -/
theorem index_le (h : c.Reaches d) : c.index ≤ d.index := by
  induction h with
  | here => exact Nat.le_refl _
  | @on c d _ ih =>
    have hstep : c.index ≤ c.advance.index := by
      unfold Cursor.advance
      split
      · exact Nat.le_refl _
      · exact Nat.le_succ _
    exact Nat.le_trans hstep ih

/-- Moving on leaves no more to read. -/
theorem remaining_le (h : c.Reaches d) : d.remaining ≤ c.remaining := by
  induction h with
  | here => exact Nat.le_refl _
  | @on c d _ ih =>
    refine Nat.le_trans ih ?_
    obtain ⟨current, upcoming, index⟩ := c
    cases upcoming with
    | nil => exact Nat.le_refl _
    | cons item upcoming => exact Nat.le_succ _

/-- A cursor stays on the list it was made for, at the item of its index. -/
theorem items_eq_drop (h : c.Reaches d) {all : List Item} (hc : c.items = all.drop c.index) :
    d.items = all.drop d.index := by
  induction h with
  | here => exact hc
  | @on c d _ ih =>
    refine ih ?_
    obtain ⟨current, upcoming, index⟩ := c
    cases upcoming with
    | nil => exact hc
    | cons item upcoming =>
      have hdrop : all.drop index = current :: item :: upcoming := hc.symm
      change item :: upcoming = all.drop (index + 1)
      rw [← List.drop_drop, hdrop]
      rfl

/-- A cursor that can be reached from a closed one is closed. -/
theorem closed (h : c.Reaches d) (hc : c.Closed) : d.Closed := by
  induction h with
  | here => exact hc
  | @on c d _ ih =>
    refine ih ?_
    obtain ⟨current, upcoming, index⟩ := c
    cases upcoming with
    | nil => exact hc
    | cons item upcoming =>
      obtain ⟨last, hlast, hend⟩ := hc
      refine ⟨last, ?_, hend⟩
      rw [items, List.getLast?_cons_cons] at hlast
      exact hlast

end Reaches

/-- Cursors that lie on the way from one cursor to another. -/
structure Along (c : Cursor) (trace : List Cursor) (d : Cursor) : Prop where
  reaches : c.Reaches d
  between : ∀ e ∈ trace, c.Reaches e ∧ e.Reaches d

namespace Along

variable {c d e : Cursor} {trace trace' : List Cursor}

theorem nil (c : Cursor) : c.Along [] c := ⟨.here c, by simp⟩

/-- The first cursor lies on the way from it. -/
theorem cons (h : c.Along trace d) : c.Along (c :: trace) d :=
  ⟨h.reaches, List.forall_mem_cons.mpr ⟨⟨.here c, h.reaches⟩, h.between⟩⟩

/-- A way that begins further back. -/
theorem of_reaches (h : d.Along trace e) (hcd : c.Reaches d) : c.Along trace e :=
  ⟨hcd.trans h.reaches, fun x hx => ⟨hcd.trans (h.between x hx).1, (h.between x hx).2⟩⟩

/-- Two ways one after the other. -/
theorem append (h : c.Along trace d) (h' : d.Along trace' e) : c.Along (trace ++ trace') e := by
  refine ⟨h.reaches.trans h'.reaches, fun x hx => ?_⟩
  rcases List.mem_append.mp hx with hx | hx
  · exact ⟨(h.between x hx).1, (h.between x hx).2.trans h'.reaches⟩
  · exact (h'.of_reaches h.reaches).between x hx

end Along

/-- A search for an item at which to stop: the cursors at which it looks, and where it ends. -/
inductive Seeks (stops : Item → Bool) : Cursor → List Cursor → Cursor → Prop where
  | here {c : Cursor} : stops c.current = true → Seeks stops c [c] c
  | on {c d : Cursor} {trace : List Cursor} :
      stops c.current = false → Seeks stops c.advance trace d → Seeks stops c (c :: trace) d

/-- A search moves on from where it begins to where it ends. -/
theorem Seeks.along {stops : Item → Bool} {c d : Cursor} {trace : List Cursor}
    (h : Seeks stops c trace d) : c.Along trace d := by
  induction h with
  | @here c _ => exact (Along.nil c).cons
  | @on c d trace _ _ ih => exact (ih.of_reaches (.advance c)).cons

/-- A search that would stop at an end of input ends, since a closed cursor comes to one. -/
theorem Closed.exists_seeks {c : Cursor} (hc : c.Closed) {stops : Item → Bool}
    (hstops : ∀ item, item.token.kind = .endOfInput → stops item = true) :
    ∃ trace, Seeks stops c trace (c.seek stops) := by
  obtain ⟨current, upcoming, index⟩ := c
  rw [seek]
  induction upcoming generalizing current index with
  | nil =>
    obtain ⟨last, hlast, hend⟩ := hc
    have hcurrent : current = last := by simpa [items] using hlast
    exact ⟨_, .here (hstops current (hcurrent ▸ hend))⟩
  | cons item upcoming ih =>
    rw [seekFrom]
    split
    · rename_i hstop
      exact ⟨_, .here hstop⟩
    · rename_i hgo
      obtain ⟨trace, htrace⟩ :=
        ih item (index + 1) ((Reaches.advance ⟨current, item :: upcoming, index⟩).closed hc)
      exact ⟨_, .on (by simpa using hgo) htrace⟩

end Cursor

/-- Recovery only moves on. -/
theorem State.reaches_recover {s : State} (hc : s.cursor.Closed) (inBlock : Bool) (start : Int) :
    s.cursor.Reaches (s.recover inBlock start).cursor := by
  have hstep :
      s.cursor.Reaches (if s.cursor.index = start then s.cursor.advance else s.cursor) := by
    split
    · exact .advance _
    · exact .here _
  obtain ⟨trace, hseeks⟩ := (hstep.closed hc).exists_seeks (resumesAt_of_end inBlock)
  exact hstep.trans hseeks.along.reaches

-- ============================================================================
-- Steps
-- ============================================================================

/-- The state in which a run ends. -/
def finalState {α : Type} : EStateM.Result Failure State α → State
  | .ok _ t => t
  | .error _ t => t

/-- The run of a parser from a state: the cursors at which it takes its steps, and what it comes
    to. -/
inductive Steps : {α : Type} → Parser α → State → List Cursor →
    EStateM.Result Failure State α → Prop where
  | pure {α : Type} {s : State} (a : α) : Steps (Pure.pure a) s [] (.ok a s)
  | throw {α : Type} {s : State} (failure : Failure) :
      Steps (throw failure : Parser α) s [] (.error failure s)
  | reject {α : Type} {s : State} (problem : SyntaxProblem) :
      Steps (reject problem : Parser α) s [s.cursor]
        (.error (.rejected ⟨problem, s.cursor.location⟩) s)
  | peek {s : State} : Steps peek s [s.cursor] (.ok s.cursor.current s)
  | advance {s : State} :
      Steps advance s [s.cursor] (.ok s.cursor.current.token { s with cursor := s.cursor.advance })
  /-- Two parsers one after the other. -/
  | bind {α β : Type} {p : Parser α} {f : α → Parser β} {s t : State} {a : α}
      {trace trace' : List Cursor} {r : EStateM.Result Failure State β} :
      Steps p s trace (.ok a t) → Steps (f a) t trace' r → Steps (p >>= f) s (trace ++ trace') r
  | bindError {α β : Type} {p : Parser α} {f : α → Parser β} {s t : State} {failure : Failure}
      {trace : List Cursor} :
      Steps p s trace (.error failure t) → Steps (p >>= f) s trace (.error failure t)
  /-- A loop ends when its parser gives nothing, -/
  | manyStop {α : Type} {item : Parser (Option α)} {s t : State} {trace : List Cursor} :
      Steps item s trace (.ok none t) → Steps (many item) s trace (.ok [] t)
  /-- and else goes on. -/
  | manyMore {α : Type} {item : Parser (Option α)} {s t u : State} {a : α} {as : List α}
      {trace trace' : List Cursor} :
      Steps item s trace (.ok (some a) t) → Steps (many item) t trace' (.ok as u) →
      Steps (many item) s (trace ++ trace') (.ok (a :: as) u)
  | manyError {α : Type} {item : Parser (Option α)} {s t : State} {failure : Failure}
      {trace : List Cursor} :
      Steps item s trace (.error failure t) → Steps (many item) s trace (.error failure t)
  | manyMoreError {α : Type} {item : Parser (Option α)} {s t u : State} {a : α}
      {failure : Failure} {trace trace' : List Cursor} :
      Steps item s trace (.ok (some a) t) → Steps (many item) t trace' (.error failure u) →
      Steps (many item) s (trace ++ trace') (.error failure u)
  | attempt {inBlock : Bool} {one : Parser Stmt} {s t : State} {stmt : Stmt}
      {trace : List Cursor} :
      Steps one s trace (.ok stmt t) → Steps (attempt inBlock one) s trace (.ok (some stmt) t)
  /-- After an error the cursor moves past one token if none was read, and then on to where
      reading can go on. -/
  | attemptAgain {inBlock : Bool} {one : Parser Stmt} {s t : State} {error : SyntaxError}
      {c : Cursor} {trace trace' : List Cursor} :
      Steps one s trace (.error (.rejected error) t) →
      Cursor.Seeks (resumesAt inBlock)
        (if t.cursor.index = s.cursor.index then t.cursor.advance else t.cursor) trace' c →
      Steps (attempt inBlock one) s (trace ++ t.cursor :: trace')
        (.ok none ⟨c, t.errors ++ [error]⟩)
  | attemptError {inBlock : Bool} {one : Parser Stmt} {s t : State} {text : String}
      {trace : List Cursor} :
      Steps one s trace (.error (.notNumber text) t) →
      Steps (attempt inBlock one) s trace (.error (.notNumber text) t)

/-- The cursors of a run lie on the way from where it begins to where it ends. -/
theorem Steps.along {α : Type} {p : Parser α} {s : State} {trace : List Cursor}
    {r : EStateM.Result Failure State α} (h : Steps p s trace r) :
    s.cursor.Along trace (finalState r).cursor := by
  induction h with
  | pure | throw => exact .nil _
  | reject | peek => exact (Cursor.Along.nil _).cons
  | advance => exact ((Cursor.Along.nil _).of_reaches (.advance _)).cons
  | bind _ _ ih ih' | manyMore _ _ ih ih' | manyMoreError _ _ ih ih' => exact ih.append ih'
  | bindError _ ih | manyStop _ ih | manyError _ ih | attempt _ ih | attemptError _ ih => exact ih
  | @attemptAgain inBlock one s t error c trace trace' _ hseeks ih =>
    have hstart : t.cursor.Reaches
        (if t.cursor.index = s.cursor.index then t.cursor.advance else t.cursor) := by
      split
      · exact .advance _
      · exact .here _
    exact ih.append (hseeks.along.of_reaches hstart).cons

/-- A run from a closed cursor ends at a closed one. -/
theorem Steps.closed {α : Type} {p : Parser α} {s : State} {trace : List Cursor}
    {r : EStateM.Result Failure State α} (h : Steps p s trace r) (hc : s.cursor.Closed) :
    (finalState r).cursor.Closed := h.along.reaches.closed hc

/-- Every run from a closed cursor is made of finitely many steps. -/
def Stepwise {α : Type} (p : Parser α) : Prop :=
  ∀ s : State, s.cursor.Closed → ∃ trace, Steps p s trace (p s)

namespace Stepwise

variable {α β : Type}

theorem pure (a : α) : Stepwise (Pure.pure a : Parser α) := fun _ _ => ⟨[], .pure a⟩

theorem reject (problem : SyntaxProblem) : Stepwise (reject problem : Parser α) :=
  fun s _ => ⟨[s.cursor], .reject problem⟩

theorem peek : Stepwise peek := fun s _ => ⟨[s.cursor], .peek⟩

theorem advance : Stepwise advance := fun s _ => ⟨[s.cursor], .advance⟩

theorem bind {p : Parser α} {f : α → Parser β} (hp : Stepwise p) (hf : ∀ a, Stepwise (f a)) :
    Stepwise (p >>= f) := by
  intro s hc
  obtain ⟨trace, hsteps⟩ := hp s hc
  cases hrun : p s with
  | ok a t =>
    rw [hrun] at hsteps
    obtain ⟨trace', hsteps'⟩ := hf a t (hsteps.closed hc)
    rw [bind_of_ok hrun]
    exact ⟨trace ++ trace', .bind hsteps hsteps'⟩
  | error failure t =>
    rw [hrun] at hsteps
    rw [bind_of_error hrun]
    exact ⟨trace, .bindError hsteps⟩

/-- A token that cannot begin anything. -/
theorem unexpected : Stepwise (unexpected : Parser α) :=
  bind peek fun item => reject (.ofToken item.token)

/-- A token that has to come next. -/
theorem expect (kind : Kind) (text : String) (hint : Option String) :
    Stepwise (expect kind text hint) := by
  have heq : (Parse.expect kind text hint : Parser Token) = Parse.peek >>= fun item =>
      if item.token.kind = kind then Parse.advance else Parse.reject (.missing text hint) := by
    funext s
    change _ = (if s.cursor.current.token.kind = kind then Parse.advance
      else Parse.reject (.missing text hint)) s
    rw [expect_apply, Cursor.kind]
    split <;> rfl
  rw [heq]
  refine bind peek fun item => ?_
  split
  · exact advance
  · exact reject _

/-- A token that may come next. -/
theorem accept (wanted : Kind → Bool) : Stepwise (accept wanted) := by
  have heq : (Parse.accept wanted : Parser (Option Token)) = Parse.peek >>= fun item =>
      if wanted item.token.kind then Parse.advance >>= fun token => Pure.pure (some token)
      else Pure.pure none := by
    funext s
    change _ = (if wanted s.cursor.current.token.kind then
      Parse.advance >>= fun token => Pure.pure (some token) else Pure.pure none) s
    rw [accept_apply, Cursor.kind]
    split <;> rfl
  rw [heq]
  refine bind peek fun item => ?_
  split
  · exact bind advance fun token => pure (some token)
  · exact pure none

/-- A token that may come next, and then one parser or another. -/
theorem accept_bind {wanted : Kind → Bool} {f : Option Token → Parser β}
    (hsome : ∀ token, Stepwise (f (some token))) (hnone : Stepwise (f none)) :
    Stepwise (Parse.accept wanted >>= f) := by
  refine bind (accept wanted) fun found => ?_
  cases found with
  | none => exact hnone
  | some token => exact hsome token

/-- A loop whose rounds all pass something comes to its end without a guard. -/
theorem many {item : Parser (Option α)} {R : Post (Option α)} (h : Stepwise item)
    (hreads : Reads item R) (hprogress : ∀ {w next new a}, R w next new (some a) → w ≠ []) :
    Stepwise (many item) := by
  intro s hc
  fun_induction Parse.many item s with
  | case1 s failure t hitem =>
    obtain ⟨trace, hsteps⟩ := h s hc
    rw [hitem] at hsteps
    exact ⟨trace, .manyError hsteps⟩
  | case2 s t hitem =>
    obtain ⟨trace, hsteps⟩ := h s hc
    rw [hitem] at hsteps
    exact ⟨trace, .manyStop hsteps⟩
  | case3 s a t hitem hlt as u hmany ih =>
    obtain ⟨trace, hsteps⟩ := h s hc
    rw [hitem] at hsteps
    obtain ⟨trace', hsteps'⟩ := ih (hsteps.closed hc)
    rw [hmany] at hsteps'
    exact ⟨trace ++ trace', .manyMore hsteps hsteps'⟩
  | case4 s a t hitem hlt failure u hmany ih =>
    obtain ⟨trace, hsteps⟩ := h s hc
    rw [hitem] at hsteps
    obtain ⟨trace', hsteps'⟩ := ih (hsteps.closed hc)
    rw [hmany] at hsteps'
    exact ⟨trace ++ trace', .manyMoreError hsteps hsteps'⟩
  | case5 s a t hitem hge =>
    -- The guard would end the loop here, but a round that gives something passes something.
    obtain ⟨w, new, hpass, -, hR⟩ := (hreads _).ok hc rfl hitem
    exact absurd (hpass.remaining_lt (hprogress hR)) hge

/-- Recovery after an error comes to where reading can go on. -/
theorem attempt {one : Parser Stmt} (h : Stepwise one) (inBlock : Bool) :
    Stepwise (attempt inBlock one) := by
  intro s hc
  obtain ⟨trace, hsteps⟩ := h s hc
  rw [Parse.attempt]
  split
  · rename_i stmt t hone
    rw [hone] at hsteps
    exact ⟨trace, .attempt hsteps⟩
  · rename_i error t hone
    rw [hone] at hsteps
    have hclosed : t.cursor.Closed := hsteps.closed hc
    -- If nothing was passed before the error, recovery first moves past one item.
    have hstart :
        (if t.cursor.index = s.cursor.index then t.cursor.advance else t.cursor).Closed := by
      split
      · exact (Cursor.Reaches.advance t.cursor).closed hclosed
      · exact hclosed
    obtain ⟨trace', hseeks⟩ := hstart.exists_seeks (resumesAt_of_end inBlock)
    refine ⟨trace ++ t.cursor :: trace', ?_⟩
    have hrecover : (t.record error).recover inBlock s.cursor.index =
        ⟨(if t.cursor.index = s.cursor.index then t.cursor.advance else t.cursor).seek
          (resumesAt inBlock), t.errors ++ [error]⟩ := by
      simp only [State.recover, State.record, Int.natCast_inj]
    rw [hrecover]
    exact .attemptAgain hsteps hseeks
  · rename_i failure t hnot hone
    rw [hone] at hsteps
    cases failure with
    | rejected error => exact (hnot error rfl).elim
    | notNumber text => exact ⟨trace, .attemptError hsteps⟩

end Stepwise

-- ============================================================================
-- Expressions
-- ============================================================================

open Grammar

/-- Lists between commas. -/
theorem separated_stepwise {α : Type} {item : Parser α} {G : List Item → α → Prop}
    (h : Stepwise item) (hreads : Reads item (quietly G)) : Stepwise (separated item) := by
  have hstep : Stepwise (commaStep item) :=
    .accept_bind (fun _ => h.bind fun a => .pure (some a)) (.pure none)
  have hmany : Stepwise (many (commaStep item)) := by
    refine hstep.many (commaStep_reads hreads) ?_
    rintro w next new a ⟨-, comma, w', rfl, -⟩
    exact List.cons_ne_nil comma w'
  rw [separated_eq]
  refine .bind .peek fun start => ?_
  split
  · exact .pure []
  · exact h.bind fun first => hmany.bind fun others => .pure (first :: others)

theorem numberOf_stepwise (token : Token) : Stepwise (numberOf token) := by
  unfold numberOf
  split
  · exact .pure _
  · exact fun s _ => ⟨[], .throw _⟩

section WithNested

variable {nested : Parser Expr} (h : Stepwise nested)
include h

theorem primaryWith_stepwise : Stepwise (primaryWith nested) := by
  unfold primaryWith
  refine .bind .peek fun start => ?_
  dsimp only
  split
  · exact .bind .advance fun _ => numberOf_stepwise _
  · exact .bind .advance fun _ => .pure _
  · exact .bind .advance fun _ => .pure _
  · exact .bind .advance fun _ => .pure _
  · exact .bind .advance fun _ => h.bind fun inner => .bind (.expect _ _ _) fun _ => .pure inner
  · exact .unexpected

theorem pointWith_stepwise (what hint : String) : Stepwise (pointWith nested what hint) :=
  .bind (.expect _ _ _) fun _ => h.bind fun x => .bind (.expect _ _ _) fun _ =>
    h.bind fun y => .bind (.expect _ _ _) fun _ => .pure (Point.mk x y)

theorem clauseWith_stepwise (kind : Kind) (keyword hint : String) :
    Stepwise (clauseWith nested kind keyword hint) :=
  .bind (.expect _ _ _) fun _ => h

theorem shapeWith_stepwise : Stepwise (shapeWith nested) := by
  have hpoint := pointWith_stepwise h
  have hclause := clauseWith_stepwise h
  unfold shapeWith
  refine .bind .peek fun start => ?_
  dsimp only
  split
  · rename_i word hword
    refine .bind .advance fun _ => ?_
    cases word with
    | circle =>
      exact .bind (.expect _ _ _) fun _ => .bind (hpoint _ _) fun _ =>
        .bind (hclause _ _ _) fun _ => .bind (hclause _ _ _) fun _ => .pure _
    | rect =>
      exact .bind (.expect _ _ _) fun _ => .bind (hpoint _ _) fun _ =>
        .bind (hclause _ _ _) fun _ => .bind (hclause _ _ _) fun _ =>
          .bind (hclause _ _ _) fun _ => .pure _
    | line =>
      exact .bind (hpoint _ _) fun _ => .bind (hpoint _ _) fun _ =>
        .bind (hclause _ _ _) fun _ => .pure _
    | triangle =>
      exact .bind (hpoint _ _) fun _ => .bind (hpoint _ _) fun _ => .bind (hpoint _ _) fun _ =>
        .bind (hclause _ _ _) fun _ => .pure _
  · exact primaryWith_stepwise h

theorem callWith_stepwise {G : List Item → Expr → Prop} (hreads : Reads nested (quietly G)) :
    Stepwise (callWith nested) :=
  .bind (shapeWith_stepwise h) fun callee => .accept_bind
    (fun _ => .bind (separated_stepwise h hreads) fun _ => .bind (.expect _ _ _) fun _ => .pure _)
    (.pure callee)

end WithNested

/-- Operators and operands. Each operator takes a level, so the induction is on the room. -/
theorem chainFrom_stepwise (joins : Kind → Bool) (room : Nat) (operand : UpTo room)
    (h : ∀ levels hlevels, Stepwise (operand levels hlevels)) (left : Expr) :
    Stepwise (chainFrom joins room operand left) := by
  induction room generalizing left with
  | zero =>
    unfold chainFrom
    exact .accept_bind (fun _ => .reject _) (.pure left)
  | succ room ih =>
    unfold chainFrom
    exact .accept_bind
      (fun _ => (h room (Nat.le_succ room)).bind fun _ => ih _ (fun _ _ => h _ _) _) (.pure left)

theorem chain_stepwise (joins : Kind → Bool) (room : Nat) (operand : UpTo room)
    (h : ∀ levels hlevels, Stepwise (operand levels hlevels)) :
    Stepwise (chain joins room operand) :=
  (h room (Nat.le_refl room)).bind fun first => chainFrom_stepwise joins room operand h first

/-- Expressions take finitely many steps at every room. -/
theorem expression_stepwise (room : Nat) : Stepwise (expression room) := by
  induction room using Nat.strongRecOn with
  | ind room ih =>
    unfold expression
    cases room with
    | zero => exact .reject _
    | succ below =>
      have hsum : ∀ levels, levels ≤ below →
          Stepwise (sumWith levels fun room _ => expression room) := by
        intro levels hlevels
        refine chain_stepwise _ _ _ fun levels' hlevels' =>
          chain_stepwise _ _ _ fun room hroom => ?_
        exact callWith_stepwise (ih room (by omega)) (expression_reads room)
      unfold comparisonWith
      refine .bind (hsum below (Nat.le_refl below)) fun left => .accept_bind (fun _ => ?_) (.pure left)
      cases below with
      | zero => exact .reject _
      | succ lower => exact .bind (hsum lower (Nat.le_succ lower)) fun _ => .pure _

-- ============================================================================
-- Statements
-- ============================================================================

/-- The commands of an `animate` block. -/
theorem commandsWith_stepwise {nested : Parser Expr} (h : Stepwise nested)
    (hreads : Reads nested (quietly (Makes ExpressionForm))) : Stepwise (commandsWith nested) := by
  have hamount : Stepwise (amountWith nested) := primaryWith_stepwise h
  have hdirection : Stepwise direction := by
    unfold direction
    refine .bind .peek fun start => ?_
    split
    · exact .bind .advance fun _ => .pure _
    · exact .pure _
  have hcommand : Stepwise (commandWith nested) := by
    unfold commandWith
    refine .bind .advance fun token => ?_
    split
    · exact .bind hamount fun _ => .bind hdirection fun _ => .pure _
    · exact .bind hamount fun _ => .pure _
    · exact .bind hamount fun _ => .pure _
    · exact .bind hamount fun _ => .pure _
    · exact .pure _
  have hstep : Stepwise (commandStep nested) := by
    refine .bind .peek fun start => ?_
    dsimp only
    split
    · exact .pure _
    · exact .bind hcommand fun _ => .pure _
  exact (hstep.many (commandStep_reads hreads) fun hfound => hfound.ne_nil).bind fun found =>
    .pure _

/-- Statements, if each of them takes finitely many steps. -/
theorem statementsWith_stepwise {one : Parser Stmt} (h : Stepwise one)
    (hreads : Reads one MakesStmt) (inBlock topLevel : Bool) :
    Stepwise (statementsWith inBlock topLevel one) := by
  have hstep : Stepwise (statementStep inBlock topLevel one) := by
    refine .bind .peek fun start => ?_
    dsimp only
    split
    · exact .pure _
    · exact .bind (h.attempt inBlock) fun _ => .pure _
  rw [statementsWith_eq]
  exact (hstep.many (statementStep_reads hreads inBlock topLevel) fun hfound =>
    hfound.ne_nil).bind fun found => .pure _

/-- Statements in braces. -/
theorem blockWith_stepwise {body : Parser (List Stmt)} (h : Stepwise body)
    (opening closing : String) : Stepwise (blockWith body opening closing) :=
  .bind (.expect _ _ _) fun _ => h.bind fun statements => .bind (.expect _ _ _) fun _ =>
    .pure statements

theorem newName_stepwise (text : String) (hint : Option String) :
    Stepwise (newName text hint) := .bind (.expect _ _ _) fun _ => .pure _

/-- What a statement may nest takes finitely many steps. -/
structure Nested.Stepwise (nested : Nested) : Prop where
  expression : Parse.Stepwise nested.expression
  body : Parse.Stepwise nested.body
  chained : ∀ location, Parse.Stepwise (nested.chained location)

section WithNested

variable {nested : Nested} (h : nested.Stepwise) (location : Location)
include h

omit location in
theorem elseWith_stepwise : Stepwise (elseWith nested) :=
  .accept_bind (fun token => (h.chained token.location).bind fun stmt => .pure [stmt])
    (blockWith_stepwise h.body _ _)

theorem branchWith_stepwise : Stepwise (branchWith nested location) :=
  h.expression.bind fun _ => .bind (blockWith_stepwise h.body _ _) fun _ =>
    .accept_bind (fun _ => .bind (elseWith_stepwise h) fun _ => .pure _) (.pure _)

theorem functionWith_stepwise : Stepwise (functionWith nested location) :=
  .bind (newName_stepwise _ _) fun _ => .bind (.expect _ _ _) fun _ =>
    .bind (separated_stepwise (newName_stepwise _ _) (newName_reads _ _)) fun _ =>
      .bind (.expect _ _ _) fun _ => .bind (blockWith_stepwise h.body _ _) fun _ => .pure _

theorem giveBackWith_stepwise : Stepwise (giveBackWith nested location) := by
  unfold giveBackWith
  refine .bind .peek fun item => ?_
  split
  · exact .pure _
  · exact h.expression.bind fun _ => .pure _

omit location in
/-- Statements, by their keywords. -/
theorem statementWith_stepwise (hsound : nested.Sound) : Stepwise (statementWith nested) := by
  unfold statementWith
  refine .bind .peek fun start => ?_
  dsimp only
  split
  · rename_i word hword
    refine .bind .advance fun _ => ?_
    cases word with
    | letWord =>
      exact .bind (newName_stepwise _ _) fun _ => .bind (.expect _ _ _) fun _ =>
        h.expression.bind fun _ => .pure _
    | fnWord => exact functionWith_stepwise h _
    | returnWord => exact giveBackWith_stepwise h _
    | ifWord => exact branchWith_stepwise h _
    | repeatWord =>
      exact h.expression.bind fun _ => .bind (blockWith_stepwise h.body _ _) fun _ => .pure _
    | animateWord =>
      exact .bind (.expect _ _ _) fun _ =>
        .bind (commandsWith_stepwise h.expression hsound.expression) fun _ =>
          .bind (.expect _ _ _) fun _ => .pure _
    | sceneWord =>
      exact .bind (newName_stepwise _ _) fun _ =>
        .bind (blockWith_stepwise h.body _ _) fun _ => .pure _
  · exact h.expression.bind fun _ => .pure _

end WithNested

/-- What a statement may nest takes finitely many steps at every room. -/
theorem nested_stepwise (room : Nat) : (nested room).Stepwise := by
  induction room with
  | zero => exact ⟨expression_stepwise 0, .reject _, fun _ => .reject _⟩
  | succ below ih =>
    have hsound := nested_sound below
    refine ⟨expression_stepwise (below + 1), ?_, fun location => branchWith_stepwise ih location⟩
    exact statementsWith_stepwise (statementWith_stepwise ih hsound)
      (statementWith_reads hsound) (inBlockAt below) false

/-- The parser of programs takes finitely many steps. -/
theorem program_stepwise : Stepwise program := by
  have hstatements : Stepwise (statements maxDepth true) :=
    statementsWith_stepwise (statementWith_stepwise (nested_stepwise _) (nested_sound _))
      (statementWith_reads (nested_sound _)) (inBlockAt maxDepth) true
  exact hstatements.bind fun _ => .pure _

/-- A run of the parser of programs ends at the first end of input. -/
theorem findIdx?_program {tokens : List Token} {p : Program} {t : State}
    (h : program (.ofTokens tokens) = .ok p t) :
    (Cursor.ofTokens tokens).items.findIdx? (fun item => item.token.kind = .endOfInput) =
      some t.cursor.index := by
  obtain ⟨body, u, hbody, hpure⟩ := bind_eq_ok h
  cases hpure
  obtain ⟨w, new, hpass, -, -, hends⟩ :=
    (statements_reads maxDepth true _).ok (Cursor.closed_ofTokens tokens) rfl hbody
  have hend : t.cursor.current.token.kind = .endOfInput := by simpa [endsBody] using hends
  have hitems : (Cursor.ofTokens tokens).items = w ++ t.cursor.items := hpass.items_eq
  have hindex : t.cursor.index = w.length := by
    have hmoved : t.cursor.index = (Cursor.ofTokens tokens).index + w.length := hpass.index_eq
    rw [hmoved, Cursor.index_ofTokens, Nat.zero_add]
  have hbefore : w.findIdx? (fun item => item.token.kind = .endOfInput) = none := by
    rw [List.findIdx?_eq_none_iff]
    intro item hitem
    simpa using hpass.inside item hitem
  rw [hitems, List.findIdx?_append, hbefore, hindex, Cursor.items, List.findIdx?_cons]
  simp [hend]

end Storyboard.Parse
