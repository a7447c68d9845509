/-
  Storyboard.Proofs.Parse.StmtLocal

  Statements in front of barriers. A statement that is not finished when a barrier
  comes is given up there, and recovery does not go past the barrier; so what is made
  of the items before a barrier does not depend on it, with the exception of open
  blocks: in front of an end of input these fail, and leave an error.

  The main result is `loopOn_statements`, on the repetition of statements: over any
  items it stops in the same way everywhere, or it gets to the barrier with the same
  statements and errors everywhere, or there is an opening brace among the items and
  in front of the end of input there is an error.
-/
import Storyboard.Proofs.Parse.ExprLocal
import Storyboard.Proofs.Parse.StmtSound

namespace Storyboard.Parse

variable {K : Barrier}

-- ============================================================================
-- Blocks
-- ============================================================================

/-- At the end of input, a token that has to come next is missing. -/
theorem State.Before.expect_at_end {s : State} {e : Ending} (hs : s.Before K [] e)
    (hend : e.item.token.kind = .endOfInput) (kind : Kind) (hkind : kind ≠ .endOfInput)
    (text : String) (hint : Option String) :
    expect kind text hint s = .error (.rejected ⟨.missing text hint, s.cursor.location⟩) s := by
  rw [expect_apply, if_neg]
  · rfl
  · rw [Cursor.kind, hs.current_eq, List.headD_nil, hend]
    exact hkind.symm

/-- An open block may get stuck: if one was opened before the items, or among them. -/
theorem LocalOn.braced {α : Type} {w : List Item} {p : Parser α} (h : LocalOn K .opened w p)
    (hbrace : ∃ item ∈ w, item.token.kind = .leftBrace) : LocalOn K .braced w p :=
  h.imp id fun ⟨hends, hstuck⟩ => ⟨⟨hends, hbrace⟩, hstuck⟩

theorem Local.opened {α : Type} {p : Parser α} (h : Local K .braced p) : Local K .opened p :=
  fun w => (h w).imp id fun ⟨⟨hends, _⟩, hstuck⟩ => ⟨hends, hstuck⟩

section Braces

variable {α β : Type} {body : Parser α} {f : α → Parser β} {closing : String}
  {hint : Option String}

/-- The brace that closes a block, and then more. -/
theorem closing_bind_local {p : Parser β} (hp : Local K .opened p) :
    Local K .opened (expect .rightBrace closing hint >>= fun _ => p) := by
  intro w
  cases w with
  | nil =>
    by_cases hends : K.Ends
    · refine .inl (.breaks (Breaks.bind (Breaks.expect (fun e he => ?_) closing hint) _))
      rw [List.headD_nil, hends _ he]
      decide
    · refine .inr ⟨hends, fun {s e} hs hend => ?_⟩
      have hmissing := hs.expect_at_end hend .rightBrace (by decide) closing hint
      exact ⟨_, s, bind_of_error hmissing, hs, Nat.le_refl _⟩
  | cons x w =>
    by_cases hx : x.token.kind = .rightBrace
    · exact (Gives.expect hx closing hint K w).bind_local (hp w)
    · exact .inl (.breaks ((Breaks.expect_cons hx closing hint K w).bind _))

/-- What is in braces and the brace that closes it, and then more. -/
theorem body_bind_local (hbody : ∀ w, RunsOn K .opened 0 w body)
    (hf : ∀ a, Local K .opened (f a)) :
    Local K .opened (body >>= fun a => expect .rightBrace closing hint >>= fun _ => f a) := by
  intro w
  obtain hbody | ⟨hends, hbody⟩ := hbody w
  · cases hbody with
    | gives hbody => exact hbody.bind_local (closing_bind_local (hf _) _)
    | breaks hbody => exact .inl (.breaks (hbody.bind _))
  · refine .inr ⟨hends, fun {s e} hs hend => ?_⟩
    obtain ⟨a, t, hrun, ht, hlength⟩ := hbody hs hend
    have hmissing := ht.expect_at_end hend .rightBrace (by decide) closing hint
    exact ⟨_, t, (bind_of_ok hrun).trans (bind_of_error hmissing), ht, by omega⟩

/-- Something in braces, and then more. -/
theorem braces_bind_local {opening : String} {hint' : Option String}
    (hbody : ∀ w, RunsOn K .opened 0 w body) (hf : ∀ a, Local K .opened (f a)) :
    Local K .braced (expect .leftBrace opening hint' >>= fun _ => body >>= fun a =>
      expect .rightBrace closing hint >>= fun _ => f a) := by
  intro w
  cases w with
  | nil => exact .inl (.breaks ((Breaks.expect_nil (by decide) opening hint' K).bind _))
  | cons x w =>
    by_cases hx : x.token.kind = .leftBrace
    · refine LocalOn.braced ?_ ⟨x, List.mem_cons_self, hx⟩
      exact (Gives.expect hx opening hint' K w).bind_local (body_bind_local hbody hf w)
    · exact .inl (.breaks ((Breaks.expect_cons hx opening hint' K w).bind _))

/-- A block, and then more. -/
theorem block_bind_local {body : Parser (List Stmt)} {f : List Stmt → Parser β}
    (hbody : ∀ w, RunsOn K .opened 0 w body) (opening closing : String)
    (hf : ∀ statements, Local K .opened (f statements)) :
    Local K .braced (blockWith body opening closing >>= f) := by
  unfold blockWith
  simp only [bind_assoc, pure_bind]
  exact braces_bind_local hbody hf

end Braces

-- ============================================================================
-- Animation commands
-- ============================================================================

theorem direction_local : Local K .never direction := by
  refine Local.peek_bind (g := pure .right) (fun x w => ?_) (fun item hitem => ?_)
    (.gives (.pure K [] _))
  · split
    · exact .advance_bind (.inl (.gives (.pure K w _)))
    · exact .inl (.gives (.pure K _ _))
  · obtain hkind | hkind | ⟨word, hkind⟩ := eq_of_bars (K.bars hitem)
    all_goals simp only [hkind]

/-- A command, or one skipped item. -/
theorem commandWith_local {nested : Parser Expr} (h : Local K .never nested) (x : Item)
    (w : List Item) : LocalOn K .never (x :: w) (commandWith nested) := by
  have hamount : Local K .never (amountWith nested) := primaryWith_local h
  refine .advance_bind ?_
  split
  · exact hamount.bind (fun _ => direction_local.bind fun _ => .pure _) w
  · exact hamount.bind (fun _ => .pure _) w
  · exact hamount.bind (fun _ => .pure _) w
  · exact hamount.bind (fun _ => .pure _) w
  · exact .inl (.gives (.pure K w _))

/-- The commands of an `animate` block, which go on past the keyword of a statement. -/
theorem commandsWith_runsOn {nested : Parser Expr} (h : Local K .never nested) (w : List Item) :
    RunsOn K .opened 0 w (commandsWith nested) := by
  have hend : ∀ {s : State}, s.cursor.kind = .endOfInput → commandStep nested s = .ok none s := by
    intro s hs
    have hkind : s.cursor.current.token.kind = .endOfInput := hs
    rw [commandStep, bind_of_ok (peek_eq s)]
    simp [hkind, pure, EStateM.pure]
  have hstep : ∀ x w, RunsOn K .never 1 (x :: w) (commandStep nested) := by
    intro x w
    refine RunsOn.peek_bind ?_
    dsimp only
    split
    · exact .inl (.gives (.pure K _ _))
    · have hone := (commandWith_local h x w).resolve_right And.left
      exact RunsOn.map (.inl hone) some
  rw [commandsWith_eq]
  exact ((loopOn_many hstep hend w).runsOn hend).map fun found => found.filterMap id

-- ============================================================================
-- Statements
-- ============================================================================

/-- What a statement may nest is local. -/
structure Nested.Local (K : Barrier) (nested : Nested) : Prop where
  expression : Parse.Local K .never nested.expression
  body : ∀ w, RunsOn K .opened 0 w nested.body
  chained : ∀ location, Parse.Local K .braced (nested.chained location)

theorem newName_local {m : Escape} (text : String) (hint : Option String) :
    Local K m (newName text hint) := .expect_bind (by decide) fun _ => .pure _

section WithNested

variable {nested : Nested} (h : nested.Local K) (location : Location)
include h

theorem bindingWith_local : Local K .braced (bindingWith nested location) :=
  (newName_local _ _).bind fun _ => .expect_bind (by decide) fun _ =>
    h.expression.of_never.bind fun _ => .pure _

theorem functionWith_local : Local K .braced (functionWith nested location) :=
  (newName_local _ _).bind fun _ => .expect_bind (by decide) fun _ =>
    (separated_local (newName_local _ _)).of_never.bind fun _ => .expect_bind (by decide) fun _ =>
      block_bind_local h.body _ _ fun _ => .pure _

/-- A `return` in front of any barrier has no value. -/
theorem giveBackWith_local : Local K .braced (giveBackWith nested location) := by
  refine Local.peek_bind (g := pure (.giveBack none location)) (fun x w => ?_)
    (fun item hitem => ?_) (.gives (.pure K [] _))
  · split
    · exact .inl (.gives (.pure K _ _))
    · exact h.expression.of_never.bind (fun _ => .pure _) _
  · rw [if_pos]
    simpa [or_assoc] using K.endsReturn hitem

omit location in
/-- What follows `else`. An `if` that opens a new line is read as a part of it, so it may only
    come after a block. -/
theorem elseWith_local : Local K .opened (elseWith nested) := by
  have hblock : Local K .opened
      (blockWith nested.body "Expected \x7b after else" "Expected \x7d after else body") := by
    rw [← bind_pure (blockWith _ _ _)]
    exact (block_bind_local h.body _ _ fun _ => .pure _).opened
  intro w
  cases w with
  | nil =>
    by_cases hends : K.Ends
    · -- At an end of input there is no `if`, so it is a block that is missing.
      refine (Gives.accept_none fun e he => ?_).bind_local (hblock [])
      rw [List.headD_nil, hends _ he]
      rfl
    · -- The barrier may be an `if` itself, which the parser would take; then nothing can be said
      -- but for the end of input.
      refine .inr ⟨hends, fun {s e} hs hend => ?_⟩
      have hnone : accept (· = .keyword (.statement .ifWord)) s = .ok none s := by
        rw [accept_apply, Cursor.kind, hs.current_eq, List.headD_nil, hend]
        rfl
      have hmissing := hs.expect_at_end hend .leftBrace (by decide) "Expected \x7b after else" none
      exact ⟨_, s, (bind_of_ok hnone).trans (bind_of_error hmissing), hs, Nat.le_refl _⟩
  | cons x w =>
    by_cases hx : x.token.kind = .keyword (.statement .ifWord)
    · refine (Gives.accept_some (by rw [hx]; rfl) K w).bind_local ?_
      exact (h.chained _).opened.bind (fun _ => .pure _) w
    · refine (Gives.accept_none (w := x :: w) fun e he => ?_).bind_local (hblock _)
      simpa using hx

theorem branchWith_local : Local K .braced (branchWith nested location) :=
  h.expression.of_never.bind fun _ => block_bind_local h.body _ _ fun _ =>
    .accept_bind (eq_false_of_bars rfl rfl fun _ => rfl)
      (fun _ => (elseWith_local h).bind fun _ => .pure _) (.pure _)

theorem loopWith_local : Local K .braced (loopWith nested location) :=
  h.expression.of_never.bind fun _ => block_bind_local h.body _ _ fun _ => .pure _

theorem animationWith_local : Local K .braced (animationWith nested location) :=
  braces_bind_local (commandsWith_runsOn h.expression) fun _ => .pure _

theorem sceneWith_local : Local K .braced (sceneWith nested location) :=
  (newName_local _ _).bind fun _ => block_bind_local h.body _ _ fun _ => .pure _

omit location in
/-- Statements, from their first item on. -/
theorem statementWith_local (x : Item) (w : List Item) :
    LocalOn K .braced (x :: w) (statementWith nested) := by
  refine (Gives.peek K x w).bind_local ?_
  dsimp only
  split
  · rename_i word _
    refine .advance_bind ?_
    cases word with
    | letWord => exact bindingWith_local h _ w
    | fnWord => exact functionWith_local h _ w
    | returnWord => exact giveBackWith_local h _ w
    | ifWord => exact branchWith_local h _ w
    | repeatWord => exact loopWith_local h _ w
    | animateWord => exact animationWith_local h _ w
    | sceneWord => exact sceneWith_local h _ w
  · exact h.expression.of_never.bind (fun _ => .pure _) _

end WithNested

-- ============================================================================
-- Recovery
-- ============================================================================

/-- Reading can go on at every barrier. -/
def Barrier.Resumes (K : Barrier) (inBlock : Bool) : Prop :=
  ∀ item, K.stops item → resumesAt inBlock item = true

/-- The items left by recovery from a failure in front of the rest of some items. -/
def recovered (inBlock : Bool) (w rest : List Item) : List Item :=
  (if rest.length = w.length then rest.tail else rest).dropWhile fun x => !resumesAt inBlock x

theorem recovered_suffix (inBlock : Bool) (w rest : List Item) :
    recovered inBlock w rest <:+ rest := by
  refine (List.dropWhile_suffix _).trans ?_
  split
  · exact List.tail_suffix rest
  · exact List.suffix_refl rest

/-- Recovery stops in the same place in front of every barrier: at an item or at the barrier. -/
theorem State.Before.recover {inBlock : Bool} (hresumes : K.Resumes inBlock) {s t : State}
    {x : Item} {w rest : List Item} {e : Ending} (hs : s.Before K (x :: w) e)
    (ht : t.Before K rest e) :
    (t.recover inBlock s.cursor.index).Before K (recovered inBlock (x :: w) rest) e := by
  unfold State.recover recovered
  by_cases hsame : rest.length = (x :: w).length
  · have hindex := (hs.index_eq_iff ht).mpr hsame
    rw [if_pos hsame, if_pos (by rw [hindex])]
    cases rest with
    | nil => cases hsame
    | cons y rest => exact ht.advance.seek (hresumes _ ht.stops)
  · have hindex : ¬ t.cursor.index = s.cursor.index := fun h => hsame ((hs.index_eq_iff ht).mp h)
    rw [if_neg hsame, if_neg (by omega)]
    exact ht.seek (hresumes _ ht.stops)

/-- An attempt at a statement: what is given up is so in the same way in front of every barrier,
    and a block that is open at the end of input leaves an error. -/
theorem attempt_runsOn {one : Parser Stmt} {inBlock : Bool} (hresumes : K.Resumes inBlock)
    {x : Item} {w : List Item} (h : LocalOn K .braced (x :: w) one) :
    RunsOn K .braced 1 (x :: w) (attempt inBlock one) := by
  obtain h | ⟨hallowed, hstuck⟩ := h
  · cases h with
    | @gives stmt rest new h =>
      have hgives : Gives K (x :: w) (attempt inBlock one) (some stmt) rest new := by
        refine ⟨h.suffix, fun {s e} hs => ?_⟩
        obtain ⟨t, hrun, ht, herrors⟩ := h.run hs
        exact ⟨t, by rw [attempt, hrun], ht, herrors⟩
      exact .inl (.gives hgives)
    | @breaks trouble rest new h =>
      cases trouble with
      | notNumber text =>
        -- A number that cannot be read ends the parsing, so nothing is recovered from it.
        have hbreaks : Breaks K (x :: w) (attempt inBlock one) (.notNumber text) rest new := by
          refine ⟨h.suffix, fun {s e} hs => ?_⟩
          obtain ⟨t, hrun, ht, herrors⟩ := h.run hs
          exact ⟨t, by rw [attempt, hrun]; rfl, ht, herrors⟩
        exact .inl (.breaks hbreaks)
      | blames complaint =>
        -- The error may be about the barrier itself; it stays open until that is known.
        have hgives : Gives K (x :: w) (attempt inBlock one) none
            (recovered inBlock (x :: w) rest) (new ++ [complaint.within rest]) := by
          refine ⟨(recovered_suffix _ _ _).trans h.suffix, fun {s e} hs => ?_⟩
          obtain ⟨t, hrun, ht, herrors⟩ := h.run hs
          have hrecord := ht.record (complaint.about (rest.headD e.item).token)
          refine ⟨_, by rw [attempt, hrun]; rfl, hs.recover hresumes hrecord, ?_⟩
          simp only [State.recover, State.record, herrors, List.map_append, List.map_cons,
            List.map_nil, complaint.close_within, List.append_assoc]
        exact .inl (.gives hgives)
  · refine .inr ⟨hallowed, fun {s e} hs hend => ?_⟩
    obtain ⟨error, t, hrun, ht, hlength⟩ := hstuck hs hend
    refine ⟨none, _, by rw [attempt, hrun], hs.recover hresumes (ht.record error), ?_⟩
    simp only [State.recover, State.record, List.length_append, List.length_singleton]
    omega

-- ============================================================================
-- Repetition of statements
-- ============================================================================

section Statements

variable {one : Parser Stmt} {inBlock topLevel : Bool}

/-- At the end of input there are no more statements. -/
theorem statementStep_at_end {s : State} (hs : s.cursor.kind = .endOfInput) :
    statementStep inBlock topLevel one s = .ok none s := by
  have hkind : s.cursor.current.token.kind = .endOfInput := hs
  rw [statementStep, bind_of_ok (peek_eq s)]
  simp [hkind, pure, EStateM.pure]

/-- At top level there is an attempt at a statement everywhere else. -/
theorem statementStep_eq_attempt {s : State} (hs : s.cursor.kind ≠ .endOfInput) :
    statementStep inBlock true one s = (some <$> attempt inBlock one) s := by
  have hkind : s.cursor.current.token.kind ≠ .endOfInput := hs
  rw [statementStep, bind_of_ok (peek_eq s)]
  simp [hkind]

/-- Statements over any items. -/
theorem loopOn_statementStep (hresumes : K.Resumes inBlock)
    (h : ∀ x w, LocalOn K .braced (x :: w) one) (w : List Item) :
    LoopOn K .braced w (statementStep inBlock topLevel one) := by
  refine loopOn_many (fun x w => RunsOn.peek_bind ?_) statementStep_at_end w
  dsimp only
  split
  · exact .inl (.gives (.pure K _ _))
  · exact (attempt_runsOn hresumes (h x w)).map some

/-- Statements up to the end of input or a closing brace. -/
theorem statementsWith_runsOn (hresumes : K.Resumes inBlock)
    (h : ∀ x w, LocalOn K .braced (x :: w) one) (w : List Item) :
    RunsOn K .opened 0 w (statementsWith inBlock topLevel one) := by
  rw [statementsWith_eq]
  exact ((loopOn_statementStep hresumes h w).runsOn statementStep_at_end).map fun found =>
    found.filterMap id

end Statements

/-- If reading can go on at every barrier then also with less room. -/
theorem Barrier.Resumes.of_le {room below : Nat} (h : K.Resumes (inBlockAt room))
    (hle : below ≤ room) : K.Resumes (inBlockAt below) := by
  intro item hitem
  have hresumes := h item hitem
  have hblock : inBlockAt room = true → inBlockAt below = true := by
    simp only [inBlockAt, decide_eq_true_eq]
    omega
  simp only [resumesAt, Bool.or_eq_true, Bool.and_eq_true] at hresumes ⊢
  obtain hresumes | ⟨hroom, hbrace⟩ := hresumes
  · exact .inl hresumes
  · exact .inr ⟨hblock hroom, hbrace⟩

/-- What a statement may nest is local, at every room. -/
theorem nested_local (room : Nat) (h : K.Resumes (inBlockAt room)) : (nested room).Local K := by
  induction room with
  | zero =>
    exact ⟨expression_local 0, fun w => .inl (Uniform.tooDeep K w), fun _ => .tooDeep⟩
  | succ below ih =>
    have hbelow := h.of_le (Nat.le_succ below)
    have hnested := ih hbelow
    exact ⟨expression_local (below + 1),
      statementsWith_runsOn hbelow (statementWith_local hnested),
      fun location => branchWith_local hnested location⟩

/-- One run of the repetition of statements with some room. -/
def stepAt (room : Nat) (topLevel : Bool) : Parser (Option (Option Stmt)) :=
  statementStep (inBlockAt room) topLevel (statement room)

/-- Statements are runs of the repetition, without those that were given up. -/
theorem statements_eq (room : Nat) (topLevel : Bool) :
    statements room topLevel = (List.filterMap id) <$> many (stepAt room topLevel) := rfl

/-- The repetition of statements over any items, at every room. -/
theorem loopOn_statements (room : Nat) (h : K.Resumes (inBlockAt room)) (topLevel : Bool)
    (w : List Item) : LoopOn K .braced w (stepAt room topLevel) :=
  loopOn_statementStep h (statementWith_local (nested_local room h)) w

end Storyboard.Parse
