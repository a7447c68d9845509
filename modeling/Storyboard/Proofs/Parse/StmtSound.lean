/-
  Storyboard.Proofs.Parse.StmtSound

  The parser of programs is sound for the grammar: whenever it finds no error,
  all items up to the end of input have the form of a program, and the tree of
  that form is the one the parser makes, places apart.

  Statements are read with recovery, so a run may succeed and still have added
  errors. The relations of this module therefore promise a form only if no error
  was added; that something is passed and that the tree is native they promise
  in any case, which is what makes the repetition of statements end and what the
  later stages rely on.
-/
import Storyboard.Proofs.Parse.ExprSound

namespace Storyboard.Parse

open Grammar

-- ============================================================================
-- Recovery
-- ============================================================================

/-- Reading can always go on at the end of input. -/
theorem resumesAt_of_end (inBlock : Bool) (item : Item) (h : item.token.kind = .endOfInput) :
    resumesAt inBlock item = true := by
  simp [resumesAt, h]

/-- Recovery from a failure of what began at an item that is not the end of input passes
    something, and no end of input. -/
theorem State.passes_recover {s t : State} {w : List Item} (hc : s.cursor.Closed)
    (hs : s.cursor.kind ≠ .endOfInput) (hpass : s.cursor.Passes w t.cursor) (inBlock : Bool) :
    ∃ w', w' ≠ [] ∧ s.cursor.Passes w' (t.recover inBlock s.cursor.index).cursor := by
  unfold State.recover
  split
  · -- Nothing was read, so the cursor is still at the item that is not the end of input.
    rename_i hindex
    obtain rfl := hpass.eq_nil (by omega)
    have hkind : t.cursor.kind ≠ .endOfInput := by
      rw [Cursor.kind, show t.cursor.current = s.cursor.current from hpass.headD_eq]
      exact hs
    have hstep := hpass.trans ((hpass.closed hc).passes_advance hkind)
    obtain ⟨w', hseek⟩ := Cursor.Closed.passes_seek (c := t.cursor.advance) (resumesAt_of_end inBlock)
    exact ⟨_, by simp, hstep.trans hseek⟩
  · rename_i hindex
    obtain ⟨w', hseek⟩ := Cursor.Closed.passes_seek (c := t.cursor) (resumesAt_of_end inBlock)
    refine ⟨w ++ w', ?_, hpass.trans hseek⟩
    intro hnil
    have hlen := hpass.index_eq
    rw [(List.append_eq_nil_iff.mp hnil).1] at hlen
    exact hindex (by simp only [hlen, List.length_nil]; rfl)

/-- An attempt either does what its parser does, or passes something and adds an error. -/
theorem attempt_readsAt {start : Item} {one : Parser Stmt} {R : Post Stmt}
    (hstart : start.token.kind ≠ .endOfInput) (h : Reads one R) (inBlock : Bool) :
    ReadsAt start (attempt inBlock one) fun w next new found =>
      match found with
      | some stmt => R w next new stmt
      | none => w ≠ [] ∧ new ≠ [] := by
  constructor
  · intro s u found hc hs hrun
    unfold attempt at hrun
    split at hrun
    · rename_i stmt t hone
      cases hrun
      exact (h start).ok hc hs hone
    · rename_i error t hone
      cases hrun
      obtain ⟨w, new, hpass, herr, _⟩ := (h start).error hc hs hone
      obtain ⟨w', hw', hrecover⟩ :=
        State.passes_recover (t := t.record error) hc (by rw [Cursor.kind, hs]; exact hstart)
          hpass inBlock
      -- Recovery passes at least the first item, also if the parser passed none.
      refine ⟨w', new ++ [error], hrecover, ?_, hw', by simp⟩
      simp only [State.recover, State.record, herr, List.append_assoc]
    · cases hrun
  · intro s u failure hc hs hrun
    unfold attempt at hrun
    split at hrun
    · cases hrun
    · cases hrun
    · rename_i failure' t hone
      cases hrun
      exact (h start).error hc hs hone

/-- A failure of an attempt is never a rejection: those are survived. -/
theorem attempt_eq_error {one : Parser Stmt} {inBlock : Bool} {s t : State} {failure : Failure}
    (h : attempt inBlock one s = .error failure t) : ∃ text, failure = .notNumber text := by
  unfold attempt at h
  split at h
  · cases h
  · cases h
  · rename_i failure' t' hnot hone
    cases h
    cases failure with
    | rejected error => exact (hnot error rfl).elim
    | notNumber text => exact ⟨text, rfl⟩

-- ============================================================================
-- Repetition of statements
-- ============================================================================

/-- A statement that was read: something was passed, the tree is native, and without errors the
    items have the form of a statement. -/
def MakesStmt : Post Stmt := fun w next new stmt =>
  w ≠ [] ∧ stmt.native = true ∧ (new = [] → StatementForm w next stmt.bare)

/-- Statements that were read. -/
def MakesBody : Post (List Stmt) := fun w next new body =>
  Stmt.allNative body = true ∧ (new = [] → StatementsForm w next (Stmt.bareAll body))

/-- Where a repetition of statements ends. -/
def endsBody (topLevel : Bool) (item : Item) : Bool :=
  item.token.kind = .endOfInput || (!topLevel && item.token.kind = .rightBrace)

/-- One run of the repetition of statements. -/
def AttemptsStmt (topLevel : Bool) : Post (Option (Option Stmt)) := fun w next new found =>
  match found with
  | none => w = [] ∧ new = [] ∧ endsBody topLevel next = true
  | some none => w ≠ [] ∧ new ≠ []
  | some (some stmt) => MakesStmt w next new stmt

/-- A run of the repetition that gives something passes something. -/
theorem AttemptsStmt.ne_nil {topLevel : Bool} {w : List Item} {next : Item}
    {new : List SyntaxError} {found : Option Stmt}
    (h : AttemptsStmt topLevel w next new (some found)) : w ≠ [] := by
  cases found with
  | none => exact h.1
  | some stmt => exact h.1

/-- The runs of the repetition put together. -/
theorem makesBody_of_repeats {topLevel : Bool} {w : List Item} {next : Item}
    {new : List SyntaxError} {found : List (Option Stmt)}
    (h : Repeats (AttemptsStmt topLevel) w next new found) :
    MakesBody w next new (found.filterMap id) ∧ endsBody topLevel next = true := by
  induction h with
  | stop hstop =>
    obtain ⟨rfl, rfl, hends⟩ := hstop
    exact ⟨⟨rfl, fun _ => .done⟩, hends⟩
  | @step w₁ w₂ next new₁ new₂ one found hone _ ih =>
    obtain ⟨⟨hnative, hform⟩, hends⟩ := ih
    cases one with
    | none =>
      refine ⟨⟨hnative, fun hnew => ?_⟩, hends⟩
      exact absurd (List.append_eq_nil_iff.mp hnew).1 hone.2
    | some stmt =>
      obtain ⟨_, hnative₁, hform₁⟩ := hone
      refine ⟨⟨?_, fun hnew => ?_⟩, hends⟩
      · rw [List.filterMap_cons_some (by rfl), Stmt.allNative_cons, hnative₁, hnative]
        rfl
      · obtain ⟨hnew₁, hnew₂⟩ := List.append_eq_nil_iff.mp hnew
        exact .more (hform₁ hnew₁) (hform hnew₂)

/-- One run of the repetition of statements. -/
def statementStep (inBlock topLevel : Bool) (one : Parser Stmt) :
    Parser (Option (Option Stmt)) := do
  let kind := (← peek).token.kind
  if kind = .endOfInput || (!topLevel && kind = .rightBrace) then return none
  else some <$> attempt inBlock one

/-- Statements are such runs, without those that were given up. -/
theorem statementsWith_eq (inBlock topLevel : Bool) (one : Parser Stmt) :
    statementsWith inBlock topLevel one =
      many (statementStep inBlock topLevel one) >>= fun found => pure (found.filterMap id) := rfl

/-- One run of the repetition reads a statement, or gives one up, or stands at the end. -/
theorem statementStep_reads {one : Parser Stmt} (h : Reads one MakesStmt)
    (inBlock topLevel : Bool) :
    Reads (statementStep inBlock topLevel one) (AttemptsStmt topLevel) := by
  refine Reads.peek_bind fun start => ?_
  dsimp only
  split
  · rename_i hstop
    refine ReadsAt.weaken (ReadsAt.pure none) ?_
    rintro w next new found - ⟨rfl, rfl, rfl, rfl⟩
    exact ⟨rfl, rfl, hstop⟩
  · rename_i hgo
    have hstart : start.token.kind ≠ .endOfInput := by
      intro hend
      simp [hend] at hgo
    refine ReadsAt.weaken ((attempt_readsAt hstart h inBlock).bind fun found =>
      Reads.pure (some found)) ?_
    rintro w next new found - ⟨w₁, _, new₁, _, found, rfl, rfl, hfound, rfl, rfl, rfl⟩
    rw [List.append_nil, List.append_nil]
    cases found with
    | none => exact hfound
    | some stmt => exact hfound

/-- The repetition of statements. -/
theorem many_statementStep_reads {one : Parser Stmt} (h : Reads one MakesStmt)
    (inBlock topLevel : Bool) :
    Reads (many (statementStep inBlock topLevel one)) (Repeats (AttemptsStmt topLevel)) :=
  Reads.many (statementStep_reads h inBlock topLevel) fun hfound => hfound.ne_nil

/-- Statements are read as the grammar has them if each of them is. -/
theorem statementsWith_reads {one : Parser Stmt} (h : Reads one MakesStmt)
    (inBlock topLevel : Bool) :
    Reads (statementsWith inBlock topLevel one) fun w next new body =>
      MakesBody w next new body ∧ endsBody topLevel next = true := by
  rw [statementsWith_eq]
  refine Reads.weaken ((many_statementStep_reads h inBlock topLevel).bind fun found =>
    Reads.pure _) ?_
  rintro w next new body ⟨w₁, _, new₁, _, found, rfl, rfl, hfound, rfl, rfl, rfl⟩
  rw [List.append_nil, List.append_nil]
  exact makesBody_of_repeats hfound

-- ============================================================================
-- Animation commands
-- ============================================================================

/-- A command that was read, or an item that was skipped. -/
def MakesCommand : Post (Option Command) := fun w next new found =>
  new = [] ∧ match found with
    | some command => command.native = true ∧ CommandForm w next command.bare
    | none => ∃ item : Item, w = [item] ∧ item.token.kind ≠ .rightBrace ∧
        item.token.kind ≠ .endOfInput ∧ ∀ word, item.token.kind ≠ .keyword (.command word)

/-- The direction of a move, and `right` in front of an item that is none. -/
theorem direction_reads :
    Reads direction fun w next new goal => new = [] ∧
      ((w = [] ∧ goal = .right ∧ ∀ d, next.token.kind ≠ .keyword (.direction d)) ∨
        ∃ item : Item, w = [item] ∧ item.token.kind = .keyword (.direction goal)) := by
  unfold direction
  refine Reads.peek_bind fun start => ?_
  split
  · rename_i d hd
    refine ReadsAt.weaken (ReadsAt.advance_bind (by rw [hd]; simp) (Reads.pure d)) ?_
    rintro w next new goal - ⟨_, rfl, rfl, rfl, rfl⟩
    exact ⟨rfl, .inr ⟨start, rfl, hd⟩⟩
  · rename_i hno
    refine ReadsAt.weaken (ReadsAt.pure Direction.right) ?_
    rintro w next new goal - ⟨rfl, rfl, rfl, rfl⟩
    exact ⟨rfl, .inl ⟨rfl, rfl, hno⟩⟩

/-- The commands that are a word and an amount. -/
theorem wordAndAmount_reads {nested : Parser Expr}
    (h : Reads nested (quietly (Makes ExpressionForm))) {start : Item} {make : Expr → Command}
    (hform : ∀ w next amount, PrimaryForm w amount.bare →
      CommandForm (start :: w) next (make amount).bare)
    (hnative : ∀ amount, (make amount).native = amount.native) :
    Reads (do return some (make (← amountWith nested))) fun w next new found =>
      MakesCommand (start :: w) next new found := by
  refine Reads.weaken ((primaryWith_reads h).bind_quiet fun amount => Reads.pure _) ?_
  rintro w next new found ⟨w₁, _, amount, rfl, hmakes, rfl, rfl, rfl⟩
  refine ⟨rfl, ?_, ?_⟩
  · rw [hnative, hmakes.1]
  · rw [List.append_nil]
    exact hform _ _ _ hmakes.2

/-- A command, or one skipped item. -/
theorem commandWith_readsAt {nested : Parser Expr}
    (h : Reads nested (quietly (Makes ExpressionForm))) {start : Item}
    (hbrace : start.token.kind ≠ .rightBrace) (hend : start.token.kind ≠ .endOfInput) :
    ReadsAt start (commandWith nested) MakesCommand := by
  unfold commandWith
  refine ReadsAt.weaken (ReadsAt.advance_bind (Q := fun w next new found =>
    MakesCommand (start :: w) next new found) hend ?_) ?_
  · split
    · rename_i hword
      refine Reads.weaken ((primaryWith_reads h).bind_quiet fun amount =>
        direction_reads.bind fun goal => Reads.pure _) ?_
      rintro w next new found ⟨w₁, _, amount, rfl, hmakes, w₂, _, new₂, _, goal, rfl, rfl,
        ⟨rfl, hgoal⟩, rfl, rfl, rfl⟩
      refine ⟨rfl, hmakes.1, ?_⟩
      -- Without a direction the move is to the right.
      obtain ⟨rfl, rfl, hno⟩ | ⟨item, rfl, hitem⟩ := hgoal
      · simpa [Command.bare] using CommandForm.moveRight hword hmakes.2 hno
      · simpa [Command.bare] using CommandForm.move hword hmakes.2 hitem
    · rename_i hword
      exact wordAndAmount_reads h (fun _ _ _ hform => .rotate hword hform) fun _ => rfl
    · rename_i hword
      exact wordAndAmount_reads h (fun _ _ _ hform => .scale hword hform) fun _ => rfl
    · rename_i hword
      exact wordAndAmount_reads h (fun _ _ _ hform => .fade hword hform) fun _ => rfl
    · -- Any other item is skipped, and the four words are those it is not.
      rename_i hmove hrotate hscale hfade
      refine Reads.weaken (Reads.pure none) ?_
      rintro w next new found ⟨rfl, rfl, rfl⟩
      refine ⟨rfl, start, rfl, hbrace, hend, fun word hword => ?_⟩
      cases word with
      | move => exact hmove hword
      | rotate => exact hrotate hword
      | scale => exact hscale hword
      | fade => exact hfade hword
  · rintro w next new found - ⟨w', rfl, hmakes⟩
    exact hmakes

/-- One run of the repetition of commands. -/
def AttemptsCommand : Post (Option (Option Command)) := fun w next new found =>
  match found with
  | none => w = [] ∧ new = []
  | some one => MakesCommand w next new one

/-- A run of the repetition that gives something passes something. -/
theorem AttemptsCommand.ne_nil {w : List Item} {next : Item} {new : List SyntaxError}
    {one : Option Command} (h : AttemptsCommand w next new (some one)) : w ≠ [] := by
  obtain ⟨rfl, hmakes⟩ := h
  cases one with
  | none =>
    obtain ⟨item, rfl, _⟩ := hmakes
    exact List.cons_ne_nil item []
  | some command => exact hmakes.2.ne_nil

/-- The runs of the repetition of commands put together. -/
theorem commandsForm_of_repeats {w : List Item} {next : Item} {new : List SyntaxError}
    {found : List (Option Command)} (h : Repeats AttemptsCommand w next new found) :
    new = [] ∧ (found.filterMap id).all Command.native = true ∧
      CommandsForm w next ((found.filterMap id).map Command.bare) := by
  induction h with
  | stop hstop =>
    obtain ⟨rfl, rfl⟩ := hstop
    exact ⟨rfl, rfl, .done⟩
  | @step w₁ w₂ next new₁ new₂ one found hone _ ih =>
    obtain ⟨rfl, hone⟩ := hone
    obtain ⟨rfl, hnative, hform⟩ := ih
    cases one with
    | none =>
      obtain ⟨item, rfl, hbrace, hend, hword⟩ := hone
      exact ⟨rfl, hnative, .skipped hbrace hend hword hform⟩
    | some command =>
      refine ⟨rfl, ?_, .more hone.2 hform⟩
      rw [List.filterMap_cons_some (by rfl), List.all_cons, hone.1, hnative]
      rfl

/-- One run of the repetition of commands. -/
def commandStep (nested : Parser Expr) : Parser (Option (Option Command)) := do
  let kind := (← peek).token.kind
  if kind = .rightBrace || kind = .endOfInput then return none
  else some <$> commandWith nested

/-- Commands are such runs, without those that skipped an item. -/
theorem commandsWith_eq (nested : Parser Expr) :
    commandsWith nested =
      many (commandStep nested) >>= fun found => pure (found.filterMap id) := rfl

/-- One run of the repetition reads a command, or skips an item, or stands at the end. -/
theorem commandStep_reads {nested : Parser Expr}
    (h : Reads nested (quietly (Makes ExpressionForm))) :
    Reads (commandStep nested) AttemptsCommand := by
  refine Reads.peek_bind fun start => ?_
  dsimp only
  split
  · refine ReadsAt.weaken (ReadsAt.pure none) ?_
    rintro w next new found - ⟨rfl, rfl, rfl, rfl⟩
    exact ⟨rfl, rfl⟩
  · rename_i hgo
    simp only [Bool.or_eq_true, decide_eq_true_eq, not_or] at hgo
    refine ReadsAt.weaken ((commandWith_readsAt h hgo.1 hgo.2).bind fun one =>
      Reads.pure (some one)) ?_
    rintro w next new found - ⟨w₁, _, new₁, _, one, rfl, rfl, hmakes, rfl, rfl, rfl⟩
    rw [List.append_nil, List.append_nil]
    exact hmakes

/-- The commands of an `animate` block. -/
theorem commandsWith_reads {nested : Parser Expr}
    (h : Reads nested (quietly (Makes ExpressionForm))) :
    Reads (commandsWith nested) fun w next new commands => new = [] ∧
      commands.all Command.native = true ∧ CommandsForm w next (commands.map Command.bare) := by
  have hmany := Reads.many (commandStep_reads h) fun hfound => hfound.ne_nil
  rw [commandsWith_eq]
  refine Reads.weaken (hmany.bind fun found => Reads.pure _) ?_
  rintro w next new commands ⟨w₁, _, new₁, _, found, rfl, rfl, hfound, rfl, rfl, rfl⟩
  rw [List.append_nil, List.append_nil]
  exact commandsForm_of_repeats hfound

-- ============================================================================
-- Statements
-- ============================================================================

/-- What stands behind the word that opens a statement. -/
def MakesRest (word : StatementWord) : Post Stmt := fun w next new stmt =>
  stmt.native = true ∧ (new = [] → ∀ first : Item,
    first.token.kind = .keyword (.statement word) → StatementForm (first :: w) next stmt.bare)

/-- What stands behind the word `if`. -/
def MakesBranch : Post Stmt := fun w _ new stmt =>
  stmt.native = true ∧ (new = [] → ∀ first : Item,
    first.token.kind = .keyword (.statement .ifWord) → BranchForm (first :: w) stmt.bare)

/-- Statements in braces that were read. -/
def MakesBlock : Post (List Stmt) := fun w _ new body =>
  Stmt.allNative body = true ∧ (new = [] → BlockForm w (Stmt.bareAll body))

/-- What stands behind the word `else`: a block, or one more branch. -/
def MakesElse : Post (List Stmt) := fun w _ new body =>
  Stmt.allNative body = true ∧ (new = [] → BlockForm w (Stmt.bareAll body) ∨
    ∃ stmt, body = [stmt] ∧ BranchForm w stmt.bare)

/-- What a statement may nest is read as the grammar has it. -/
structure Nested.Sound (nested : Nested) : Prop where
  expression : Reads nested.expression (quietly (Makes ExpressionForm))
  body : Reads nested.body MakesBody
  chained : ∀ location, Reads (nested.chained location) MakesBranch

/-- Names that are introduced. -/
theorem newName_reads (text : String) (hint : Option String) :
    Reads (newName text hint) (quietly fun w id =>
      ∃ item : Item, w = [item] ∧ item.token.kind = .identifier ∧
        id.bare = ⟨item.token.text, .start⟩) := by
  unfold newName
  refine Reads.weaken (Reads.expect_bind (by decide) fun _ => Reads.pure _) ?_
  rintro w next new id ⟨item, _, rfl, hitem, rfl, rfl, rfl⟩
  exact ⟨rfl, item, rfl, hitem, rfl⟩

/-- Blocks. -/
theorem blockWith_reads {body : Parser (List Stmt)} (h : Reads body MakesBody)
    (opening closing : String) : Reads (blockWith body opening closing) MakesBlock := by
  unfold blockWith
  refine Reads.weaken (Reads.expect_bind (by decide) fun _ => h.bind fun statements =>
    Reads.expect_bind (by decide) fun _ => Reads.pure statements) ?_
  rintro w next new body ⟨first, _, rfl, hfirst, w₁, _, new₁, _, statements, rfl, rfl,
    ⟨hnative, hform⟩, last, _, rfl, hlast, rfl, rfl, rfl⟩
  refine ⟨hnative, fun hnew => .mk hfirst (hform ?_) hlast⟩
  simpa using hnew

section WithNested

variable {nested : Nested} (h : nested.Sound) (location : Location)
include h

/-- What follows `let`. -/
theorem bindingWith_reads : Reads (bindingWith nested location) (MakesRest .letWord) := by
  unfold bindingWith
  refine Reads.weaken ((newName_reads _ _).bind_quiet fun name =>
    Reads.expect_bind (by decide) fun _ => h.expression.bind_quiet fun value => Reads.pure _) ?_
  rintro w next new stmt ⟨_, _, name, rfl, ⟨item, rfl, hitem, hname⟩, equals, _, rfl, hequals,
    wv, _, value, rfl, hvalue, rfl, rfl, rfl⟩
  refine ⟨hvalue.1, fun _ first hfirst => ?_⟩
  simpa [Stmt.bare, hname] using StatementForm.binding hfirst hitem hequals hvalue.2

/-- What follows `fn`. -/
theorem functionWith_reads : Reads (functionWith nested location) (MakesRest .fnWord) := by
  unfold functionWith
  refine Reads.weaken ((newName_reads _ _).bind_quiet fun name =>
    Reads.expect_bind (by decide) fun _ =>
    (separated_reads (newName_reads _ _)).bind_quiet fun parameters =>
    Reads.expect_bind (by decide) fun _ => (blockWith_reads h.body _ _).bind fun body =>
    Reads.pure _) ?_
  rintro w next new stmt ⟨_, _, name, rfl, ⟨item, rfl, hitem, hname⟩, opening, _, rfl, hopening,
    wp, _, parameters, rfl, hparameters, closing, _, rfl, hclosing, wb, _, new₁, _, body, rfl, rfl,
    ⟨hnative, hblock⟩, rfl, rfl, rfl⟩
  have hnames : Separated NameForm wp (parameters.map Identifier.bare) := by
    refine hparameters.map ?_
    rintro w id ⟨item, rfl, hitem, hid⟩
    exact hid ▸ .mk hitem
  refine ⟨hnative, fun hnew first hfirst => ?_⟩
  simpa [Stmt.bare, hname] using StatementForm.function hfirst hitem hopening hnames hclosing
    (hblock (by simpa using hnew))

/-- What follows `return`. -/
theorem giveBackWith_reads : Reads (giveBackWith nested location) (MakesRest .returnWord) := by
  unfold giveBackWith
  refine Reads.peek_bind fun start => ?_
  split
  · rename_i hends
    refine ReadsAt.weaken (ReadsAt.pure _) ?_
    rintro w next new stmt - ⟨rfl, rfl, rfl, rfl⟩
    refine ⟨rfl, fun _ first hfirst => .giveBackNothing hfirst ?_⟩
    simpa [EndsReturn, or_assoc] using hends
  · rename_i hgo
    refine ReadsAt.weaken ((h.expression start).bind_quiet fun value => Reads.pure _) ?_
    rintro w next new stmt hstart ⟨w₁, _, value, rfl, hvalue, rfl, rfl, rfl⟩
    rw [List.append_nil] at hstart ⊢
    refine ⟨hvalue.1, fun _ first hfirst => .giveBack hfirst ?_ hvalue.2⟩
    rw [hstart]
    simpa [EndsReturn, or_assoc] using hgo

omit location in
/-- What follows `else`. -/
theorem elseWith_reads : Reads (elseWith nested) MakesElse := by
  unfold elseWith
  refine Reads.weaken (Reads.accept_bind (by decide)
    (fun token => (h.chained token.location).bind fun stmt => Reads.pure [stmt])
    (blockWith_reads h.body _ _)) ?_
  rintro w next new body (⟨word, _, rfl, hword, w₁, _, new₁, _, stmt, rfl, rfl, ⟨hnative, hform⟩,
    rfl, rfl, rfl⟩ | ⟨_, hnative, hform⟩)
  · refine ⟨by simp [hnative], fun hnew => .inr ⟨stmt, rfl, ?_⟩⟩
    simpa using hform (by simpa using hnew) word (by simpa using hword)
  · exact ⟨hnative, fun hnew => .inl (hform hnew)⟩

/-- What follows `if`. -/
theorem branchWith_reads : Reads (branchWith nested location) MakesBranch := by
  unfold branchWith
  refine Reads.weaken (h.expression.bind_quiet fun condition =>
    (blockWith_reads h.body _ _).bind fun thenBody => Reads.accept_bind (by decide)
      (fun _ => (elseWith_reads h).bind fun elseBody => Reads.pure _) (Reads.pure _)) ?_
  rintro w next new stmt ⟨wc, _, condition, rfl, hcondition, wt, _, new₁, _, thenBody, rfl, rfl,
    ⟨hthen, hblock⟩, ⟨other, _, rfl, hother, we, _, new₂, _, elseBody, rfl, rfl, ⟨helseNative,
    helseForm⟩, rfl, rfl, rfl⟩ | ⟨_, rfl, rfl, rfl⟩⟩
  · refine ⟨by simp [Stmt.native, hcondition.1, hthen, helseNative], fun hnew first hfirst => ?_⟩
    simp only [List.append_eq_nil_iff, and_true] at hnew
    have hother' : other.token.kind = .keyword .otherwise := by simpa using hother
    obtain hform | ⟨chained, rfl, hform⟩ := helseForm hnew.2
    · simpa [Stmt.bare] using
        BranchForm.otherwise hfirst hcondition.2 (hblock hnew.1) hother' hform
    · simpa [Stmt.bare] using
        BranchForm.chained hfirst hcondition.2 (hblock hnew.1) hother' hform
  · refine ⟨by simp [Stmt.native, hcondition.1, hthen], fun hnew first hfirst => ?_⟩
    simpa [Stmt.bare] using
      BranchForm.plain hfirst hcondition.2 (hblock (by simpa using hnew))

/-- What follows `repeat`. -/
theorem loopWith_reads : Reads (loopWith nested location) (MakesRest .repeatWord) := by
  unfold loopWith
  refine Reads.weaken (h.expression.bind_quiet fun times =>
    (blockWith_reads h.body _ _).bind fun body => Reads.pure _) ?_
  rintro w next new stmt ⟨wt, _, times, rfl, htimes, wb, _, new₁, _, body, rfl, rfl,
    ⟨hnative, hblock⟩, rfl, rfl, rfl⟩
  refine ⟨by simp [Stmt.native, htimes.1, hnative], fun hnew first hfirst => ?_⟩
  simpa [Stmt.bare] using StatementForm.loop hfirst htimes.2 (hblock (by simpa using hnew))

/-- What follows `animate`. -/
theorem animationWith_reads : Reads (animationWith nested location) (MakesRest .animateWord) := by
  unfold animationWith
  refine Reads.weaken (Reads.expect_bind (by decide) fun _ =>
    (commandsWith_reads h.expression).bind fun commands =>
    Reads.expect_bind (by decide) fun _ => Reads.pure _) ?_
  rintro w next new stmt ⟨opening, _, rfl, hopening, wc, _, new₁, _, commands, rfl, rfl,
    ⟨rfl, hnative, hform⟩, closing, _, rfl, hclosing, rfl, rfl, rfl⟩
  refine ⟨hnative, fun _ first hfirst => ?_⟩
  exact .animation hfirst hopening hform hclosing

/-- What follows `scene`. -/
theorem sceneWith_reads : Reads (sceneWith nested location) (MakesRest .sceneWord) := by
  unfold sceneWith
  refine Reads.weaken ((newName_reads _ _).bind_quiet fun name =>
    (blockWith_reads h.body _ _).bind fun body => Reads.pure _) ?_
  rintro w next new stmt ⟨_, _, name, rfl, ⟨item, rfl, hitem, hname⟩, wb, _, new₁, _, body, rfl,
    rfl, ⟨hnative, hblock⟩, rfl, rfl, rfl⟩
  have htext : name.name = item.token.text := congrArg Identifier.name hname
  refine ⟨hnative, fun hnew first hfirst => ?_⟩
  simpa [Stmt.bare, htext] using
    StatementForm.scene hfirst hitem (hblock (by simpa using hnew))

omit location in
/-- Statements. -/
theorem statementWith_reads : Reads (statementWith nested) MakesStmt := by
  -- The word of a statement and what follows it are the statement.
  have hword : ∀ {start : Item} {word : StatementWord} {p : Parser Stmt},
      start.token.kind = .keyword (.statement word) → Reads p (MakesRest word) →
      ReadsAt start (advance >>= fun _ => p) MakesStmt := by
    intro start word p hstart hp
    refine ReadsAt.weaken (ReadsAt.advance_bind (by rw [hstart]; simp) hp) ?_
    rintro w next new stmt - ⟨w', rfl, hnative, hform⟩
    exact ⟨List.cons_ne_nil start w', hnative, fun hnew => hform hnew start hstart⟩
  have hbranch : ∀ location, Reads (branchWith nested location) (MakesRest .ifWord) :=
    fun location => (branchWith_reads h location).weaken fun ⟨hnative, hform⟩ =>
      ⟨hnative, fun hnew first hfirst => .branch (hform hnew first hfirst)⟩
  unfold statementWith
  refine Reads.peek_bind fun start => ?_
  dsimp only
  split
  · rename_i word hstart
    cases word with
    | letWord => exact hword hstart (bindingWith_reads h _)
    | fnWord => exact hword hstart (functionWith_reads h _)
    | returnWord => exact hword hstart (giveBackWith_reads h _)
    | ifWord => exact hword hstart (hbranch _)
    | repeatWord => exact hword hstart (loopWith_reads h _)
    | animateWord => exact hword hstart (animationWith_reads h _)
    | sceneWord => exact hword hstart (sceneWith_reads h _)
  · refine ReadsAt.weaken ((h.expression start).bind_quiet fun value => Reads.pure _) ?_
    rintro w next new stmt - ⟨w₁, _, value, rfl, hvalue, rfl, rfl, rfl⟩
    rw [List.append_nil]
    exact ⟨hvalue.2.ne_nil, hvalue.1, fun _ => .expression hvalue.2⟩

end WithNested

/-- What a statement may nest is read as the grammar has it, at every room. -/
theorem nested_sound (room : Nat) : (nested room).Sound := by
  induction room with
  | zero =>
    exact ⟨expression_reads 0, Reads.reject _ _, fun _ => Reads.reject _ _⟩
  | succ below ih =>
    refine ⟨expression_reads (below + 1), ?_, fun location => branchWith_reads ih location⟩
    exact (statementsWith_reads (statementWith_reads ih) (inBlockAt below) false).weaken And.left

/-- Statements are read as the grammar has them, at every room. -/
theorem statements_reads (room : Nat) (topLevel : Bool) :
    Reads (statements room topLevel) fun w next new body =>
      MakesBody w next new body ∧ endsBody topLevel next = true :=
  statementsWith_reads (statementWith_reads (nested_sound room)) (inBlockAt room) topLevel

-- ============================================================================
-- Programs
-- ============================================================================

/-- A failure of a repetition is one of its parser. -/
theorem many_eq_error {α : Type} {item : Parser (Option α)} {s u : State} {failure : Failure}
    (h : many item s = .error failure u) : ∃ t, item t = .error failure u := by
  fun_induction many item s generalizing u with
  | case1 s failure' t hitem =>
    cases h
    exact ⟨s, hitem⟩
  | case2 s t hitem => cases h
  | case3 s a t hitem hlt as u' hmany ih => cases h
  | case4 s a t hitem hlt failure' u' hmany ih =>
    cases h
    exact ih hmany
  | case5 s a t hitem hge => cases h

/-- Statements fail only at a number token that holds no number. -/
theorem statementsWith_eq_error {one : Parser Stmt} {inBlock topLevel : Bool} {s u : State}
    {failure : Failure} (h : statementsWith inBlock topLevel one s = .error failure u) :
    ∃ text, failure = .notNumber text := by
  unfold statementsWith at h
  obtain hmany | ⟨found, t, _, hpure⟩ := bind_eq_error h
  · obtain ⟨t, hitem⟩ := many_eq_error hmany
    obtain hpeek | ⟨item, t', _, hrest⟩ := bind_eq_error hitem
    · cases hpeek
    · dsimp only at hrest
      split at hrest
      · cases hrest
      · obtain hattempt | ⟨found, t'', _, hpure⟩ := bind_eq_error hrest
        · exact attempt_eq_error hattempt
        · cases hpure
  · cases hpure

end Storyboard.Parse
