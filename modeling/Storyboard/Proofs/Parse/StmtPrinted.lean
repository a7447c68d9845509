/-
  Storyboard.Proofs.Parse.StmtPrinted

  Printed statements are read back. `statement_takes` says: given the items of a
  printed statement, and behind them an item that can follow a statement, the
  parser takes exactly these items and makes the same tree, places apart, unless
  the levels of nesting run out.

  Newlines are no items, but they leave a mark on the item behind them, and a
  `return` looks at that mark. `Laid` relates words to items and keeps track of
  it. Inside a block a statement for which the levels run out is given up and the
  block goes on, so all of this is about runs that may keep that error.
-/
import Storyboard.Proofs.Parse.ExprPrinted
import Storyboard.Proofs.Parse.StmtSound

namespace Storyboard.Parse

open Grammar

-- ============================================================================
-- Words laid out as items
-- ============================================================================

/-- Words as items: a newline marks the item behind it, and every other word is an item. The first
    item is marked if `afterNewline`. -/
inductive Laid : Bool → List Word → List Item → Prop where
  | nil {afterNewline : Bool} : Laid afterNewline [] []
  | newline {afterNewline : Bool} {word : Word} {words : List Word} {w : List Item} :
      word.kind = .newline → Laid true words w → Laid afterNewline (word :: words) w
  | item {afterNewline : Bool} {word : Word} {words : List Word} {item : Item} {w : List Item} :
      word.kind ≠ .newline → item.word = word → item.startsLine = afterNewline →
      Laid false words w → Laid afterNewline (word :: words) (item :: w)

/-- Tokens are laid out by marking their lines. -/
theorem laid_markLines (afterNewline : Bool) (tokens : List Token) :
    Laid afterNewline (tokens.map Token.word) (markLines afterNewline tokens) := by
  induction tokens generalizing afterNewline with
  | nil => exact .nil
  | cons token tokens ih =>
    rw [List.map_cons, markLines]
    split
    · rename_i hnewline
      exact .newline hnewline (ih true)
    · rename_i hitem
      exact .item hitem rfl rfl (ih false)

namespace Laid

variable {afterNewline : Bool} {word : Word} {words words₁ words₂ : List Word} {w : List Item}

theorem eq_nil (h : Laid afterNewline [] w) : w = [] := by
  cases h
  rfl

/-- A word inside a line is an item. -/
theorem inline_cons (h : Laid afterNewline (word :: words) w) (hword : word.inline = true) :
    ∃ item w', w = item :: w' ∧ item.word = word ∧ item.startsLine = afterNewline ∧
      Laid false words w' := by
  cases h with
  | newline hnewline _ => simp [Word.inline, hnewline] at hword
  | item _ hitem hmark hrest => exact ⟨_, _, rfl, hitem, hmark, hrest⟩

/-- A newline marks what comes next. -/
theorem newline_cons (h : Laid afterNewline (.newline :: words) w) : Laid true words w := by
  cases h with
  | newline _ hrest => exact hrest
  | item hword _ _ _ => exact absurd rfl hword

/-- Two groups of words are laid out one behind the other. -/
theorem append (h : Laid afterNewline (words₁ ++ words₂) w) :
    ∃ w₁ w₂ mark, w = w₁ ++ w₂ ∧ Laid afterNewline words₁ w₁ ∧ Laid mark words₂ w₂ := by
  induction words₁ generalizing afterNewline w with
  | nil => exact ⟨[], w, afterNewline, rfl, .nil, h⟩
  | cons word words₁ ih =>
    cases h with
    | newline hnewline hrest =>
      obtain ⟨w₁, w₂, mark, rfl, h₁, h₂⟩ := ih hrest
      exact ⟨w₁, w₂, mark, rfl, .newline hnewline h₁, h₂⟩
    | @item _ _ _ item w hword hitem hmark hrest =>
      obtain ⟨w₁, w₂, mark, rfl, h₁, h₂⟩ := ih hrest
      exact ⟨item :: w₁, w₂, mark, rfl, .item hword hitem hmark h₁, h₂⟩

/-- Inside a line the items are the words. -/
theorem map_word (h : Laid afterNewline words w) (hwords : words.all Word.inline = true) :
    w.map Item.word = words := by
  induction words generalizing afterNewline w with
  | nil =>
    obtain rfl := h.eq_nil
    rfl
  | cons word words ih =>
    rw [List.all_cons, Bool.and_eq_true] at hwords
    obtain ⟨item, w', rfl, hitem, _, hrest⟩ := h.inline_cons hwords.1
    rw [List.map_cons, hitem, ih hrest hwords.2]

/-- Words inside a line, and more words behind them. -/
theorem inline_append (h : Laid afterNewline (words₁ ++ words₂) w)
    (hwords : words₁.all Word.inline = true) :
    ∃ w₁ w₂ mark, w = w₁ ++ w₂ ∧ w₁.map Item.word = words₁ ∧ Laid mark words₂ w₂ := by
  obtain ⟨w₁, w₂, mark, rfl, h₁, h₂⟩ := h.append
  exact ⟨w₁, w₂, mark, rfl, h₁.map_word hwords, h₂⟩

end Laid

-- ============================================================================
-- What may stand behind a statement
-- ============================================================================

/-- An item that continues no statement. -/
structure EndsStmt (item : Item) : Prop where
  ends : Of endsExpression item
  other : item.token.kind ≠ .keyword .otherwise
  line : EndsReturn item

/-- The end of a body ends a statement. -/
theorem endsStmt_of_endsBody {topLevel : Bool} {item : Item} (h : endsBody topLevel item = true) :
    EndsStmt item := by
  simp only [endsBody, Bool.or_eq_true, Bool.and_eq_true, decide_eq_true_eq] at h
  obtain hkind | ⟨-, hkind⟩ := h
  · exact ⟨Of.intro hkind rfl, by rw [hkind]; decide, .inr (.inl hkind)⟩
  · exact ⟨Of.intro hkind rfl, by rw [hkind]; decide, .inl hkind⟩

/-- The kinds of tokens with which a printed statement starts. -/
def startsStatement (kind : Kind) : Bool :=
  kind.opensStatement || (kind.startsExpression && kind ≠ .leftParen)

/-- The first item of a statement on a new line ends the statement before it. -/
theorem endsStmt_of_startsStatement {item : Item} (h : Of startsStatement item)
    (hline : item.startsLine = true) : EndsStmt item := by
  refine ⟨?_, ?_, .inr (.inr hline)⟩
  · unfold Of at h ⊢
    cases hkind : item.token.kind <;> rw [hkind] at h <;> first | rfl | cases h
  · intro hkind
    rw [Of, hkind] at h
    cases h

/-- No body ends where a statement starts. -/
theorem not_endsBody_of_startsStatement {item : Item} (h : Of startsStatement item)
    (topLevel : Bool) : endsBody topLevel item = false := by
  refine Bool.eq_false_iff.mpr fun hends => ?_
  simp only [endsBody, Bool.or_eq_true, Bool.and_eq_true, decide_eq_true_eq] at hends
  obtain hkind | ⟨-, hkind⟩ := hends
  · rw [Of, hkind] at h
    cases h
  · rw [Of, hkind] at h
    cases h

/-- What can be printed has a first word, which can start a statement. -/
theorem stmt_words_eq_cons {spell : Binary64 → String} {stmt : Stmt}
    (h : stmt.printable spell = true) :
    ∃ first others, stmt.words spell = first :: others ∧ first.inline = true ∧
      startsStatement first.kind = true := by
  cases stmt with
  | binding | function | loop | animation | scene => exact ⟨_, _, rfl, by simp, rfl⟩
  | giveBack value place =>
    cases value <;> exact ⟨_, _, rfl, by simp, rfl⟩
  | branch condition thenBody elseBody place =>
    cases elseBody <;> exact ⟨_, _, rfl, by simp, rfl⟩
  | expression value place =>
    simp only [Stmt.printable, Bool.and_eq_true, decide_eq_true_eq] at h
    obtain ⟨first, others, hwords, hfirst⟩ := Expr.words_eq_cons h.1
    have hall := Expr.all_inline_words h.1
    rw [hwords, List.all_cons, Bool.and_eq_true] at hall
    refine ⟨first, others, hwords, hall.1, ?_⟩
    have hparen : first.kind ≠ .leftParen := by
      intro hkind
      exact h.2 (by rw [hwords, List.head?_cons, Option.map_some, hkind])
    simp [startsStatement, hfirst, hparen]
  | foreign => simp [Stmt.printable] at h

-- ============================================================================
-- Bodies and blocks
-- ============================================================================

section Bodies

variable {spell : Binary64 → String} {roomy : Prop} {w : List Item} {stop : Item → Prop}

/-- An attempt at what can be taken takes it. -/
theorem attempt_takes {one : Parser Stmt} {good : Stmt → Prop} (h : Takes true roomy w stop one good)
    (inBlock : Bool) : Takes true roomy w stop (attempt inBlock one) fun found =>
      ∃ stmt, found = some stmt ∧ good stmt := by
  intro s next later hc hitems hnext
  obtain ⟨stmt, t, hrun, ht, herr, hgood⟩ | ⟨hno, hover⟩ := h s next later hc hitems hnext
  · exact .inl ⟨some stmt, t, by rw [attempt, hrun], ht, herr, stmt, rfl, hgood⟩
  · refine .inr ⟨hno, ?_⟩
    cases hrun : one s with
    | ok stmt t =>
      rw [hrun] at hover
      rw [attempt, hrun]
      exact hover
    | error failure t =>
      rw [hrun] at hover
      rw [attempt, hrun]
      cases failure with
      | notNumber text => exact hover
      | rejected error =>
        -- The failure itself becomes an error of the state.
        refine ⟨rfl, ?_⟩
        obtain ⟨place, hdeep⟩ | ⟨-, hdeep⟩ := hover
        · cases hdeep
          exact ⟨_, List.mem_append_right _ (List.mem_singleton_self _), rfl⟩
        · exact hdeep.append (show _ = t.errors ++ [error] from rfl)

/-- What follows a statement is the first item of the next one, on a new line, or the end. -/
theorem endsStmt_headD {topLevel : Bool} {body : List Stmt}
    (hprint : ∀ stmt ∈ body, stmt.printable spell = true)
    (hw : Laid true (Stmt.bodyWords spell body) w) (next : Item)
    (hnext : endsBody topLevel next = true) : EndsStmt (w.headD next) := by
  cases body with
  | nil =>
    obtain rfl := hw.eq_nil
    exact endsStmt_of_endsBody hnext
  | cons stmt body =>
    obtain ⟨first, others, hwords, hinline, hstarts⟩ :=
      stmt_words_eq_cons (hprint stmt List.mem_cons_self)
    rw [Stmt.bodyWords, hwords] at hw
    obtain ⟨item, w', rfl, hitem, hline, -⟩ := hw.inline_cons hinline
    exact endsStmt_of_startsStatement (Of.intro (Item.kind_of_word hitem) hstarts) hline

/-- The repetition of statements reads them back, up to the end of their body, if each of them is
    read back. -/
theorem many_statementStep_takes {one : Parser Stmt} (hreads : Reads one MakesStmt)
    (inBlock topLevel : Bool) {body : List Stmt}
    (hprint : ∀ stmt ∈ body, stmt.printable spell = true)
    (hone : ∀ stmt ∈ body, ∀ afterNewline w, Laid afterNewline (stmt.words spell) w →
      Takes true roomy w EndsStmt one fun read => read.bare = stmt.bare)
    {afterNewline : Bool} (hw : Laid afterNewline (Stmt.bodyWords spell body) w) :
    Takes true roomy w (fun next => endsBody topLevel next = true)
      (many (statementStep inBlock topLevel one)) fun found =>
        Stmt.bareAll (found.filterMap id) = Stmt.bareAll body := by
  induction body generalizing w afterNewline with
  | nil =>
    obtain rfl := hw.eq_nil
    refine Takes.mono (Takes.many_nil (Takes.peek_bind_next fun next hnext => ?_)) id id ?_
    · dsimp only
      rw [if_pos (by simpa [endsBody] using hnext)]
      exact Takes.pure rfl
    · rintro _ rfl
      rfl
  | cons stmt body ih =>
    obtain ⟨hprintStmt, hprintBody⟩ := List.forall_mem_cons.mp hprint
    obtain ⟨honeStmt, honeBody⟩ := List.forall_mem_cons.mp hone
    obtain ⟨w₁, w₂, mark, rfl, hw₁, hw₂⟩ := Laid.append hw
    have hw₂ := hw₂.newline_cons
    -- The statement has a first item, so the repetition does not stop in front of it.
    obtain ⟨first, others, hwords, hinline, hstarts⟩ := stmt_words_eq_cons hprintStmt
    obtain ⟨item, w₁', rfl, hitem, -, -⟩ := (hwords ▸ hw₁).inline_cons hinline
    have hgo := not_endsBody_of_startsStatement (Of.intro (Item.kind_of_word hitem) hstarts) topLevel
    have hstep : Takes true roomy (item :: w₁') EndsStmt (statementStep inBlock topLevel one)
        fun found => ∃ read, found = some read ∧ ∃ stmt', read = some stmt' ∧
          stmt'.bare = stmt.bare := by
      refine Takes.peek_bind ?_
      dsimp only
      rw [if_neg (by simpa [endsBody] using hgo)]
      exact (attempt_takes (honeStmt _ _ hw₁) inBlock).map fun found hfound => ⟨found, rfl, hfound⟩
    refine Takes.mono (Takes.many_cons hstep (List.cons_ne_nil item w₁')
      (ih hprintBody honeBody hw₂) (endsStmt_headD hprintBody hw₂) fun _ =>
        ⟨_, statementStep_reads hreads inBlock topLevel, _,
          many_statementStep_reads hreads inBlock topLevel⟩) id id ?_
    rintro _ ⟨_, found, rfl, ⟨read, rfl, hread⟩, hfound⟩
    rw [List.filterMap_cons_some (by rfl), Stmt.bareAll_cons, Stmt.bareAll_cons, hread, hfound]

/-- Statements are read back, up to the end of their body, if each of them is. -/
theorem statementsWith_takes {one : Parser Stmt} (hreads : Reads one MakesStmt)
    (inBlock topLevel : Bool) {body : List Stmt}
    (hprint : ∀ stmt ∈ body, stmt.printable spell = true)
    (hone : ∀ stmt ∈ body, ∀ afterNewline w, Laid afterNewline (stmt.words spell) w →
      Takes true roomy w EndsStmt one fun read => read.bare = stmt.bare)
    {afterNewline : Bool} (hw : Laid afterNewline (Stmt.bodyWords spell body) w) :
    Takes true roomy w (fun next => endsBody topLevel next = true)
      (statementsWith inBlock topLevel one) fun read =>
        Stmt.bareAll read = Stmt.bareAll body := by
  rw [statementsWith_eq]
  exact (many_statementStep_takes hreads inBlock topLevel hprint hone hw).map fun _ hfound => hfound

/-- A block is read back if its body is. -/
theorem blockWith_takes {body : Parser (List Stmt)} (hreads : Reads body MakesBody)
    {stmts : List Stmt} {opening closing : String}
    (hbody : ∀ afterNewline w, Laid afterNewline (Stmt.bodyWords spell stmts) w →
      Takes true roomy w (fun next => endsBody false next = true) body fun read =>
        Stmt.bareAll read = Stmt.bareAll stmts)
    {afterNewline : Bool}
    (hw : Laid afterNewline (.openBrace :: (Stmt.bodyWords spell stmts ++ [.closeBrace])) w) :
    Takes true roomy w anywhere (blockWith body opening closing) fun read =>
      Stmt.bareAll read = Stmt.bareAll stmts := by
  obtain ⟨first, _, rfl, hfirst, -, hrest⟩ := hw.inline_cons rfl
  obtain ⟨wb, _, mark, rfl, hwb, hclose⟩ := hrest.append
  obtain ⟨last, _, rfl, hlast, -, hnil⟩ := hclose.inline_cons rfl
  obtain rfl := hnil.eq_nil
  refine Takes.expect_bind (Item.kind_of_word hfirst) ?_
  refine (hbody _ wb hwb).bind_kept (fun read hread => ?_) (fun _ _ => ?_) hreads
    fun statements => Reads.expect_bind (by decide) fun _ => Reads.pure statements
  · exact Takes.expect_bind (Item.kind_of_word hlast) (Takes.pure hread)
  · have hkind : last.token.kind = .rightBrace := Item.kind_of_word hlast
    simp [endsBody, hkind]

end Bodies

-- ============================================================================
-- Animation commands
-- ============================================================================

section Commands

variable {spell : Binary64 → String} {roomy : Prop} {nested : Parser Expr} {w : List Item}

/-- A command is read back if its amount is. -/
theorem commandWith_takes {command : Command} (hprint : command.printable spell = true)
    (hamount : ∀ e : Expr, e.printable spell = true → e.height < command.height →
      ReadsBack spell roomy nested e)
    (hw : w.map Item.word = command.words spell) :
    Takes false roomy w anywhere (commandWith nested) fun found =>
      ∃ read, found = some read ∧ read.bare = command.bare := by
  cases command with
  | move amount direction place =>
    simp only [Command.words, List.map_eq_cons_iff, List.map_eq_append_iff,
      List.map_eq_nil_iff] at hw
    obtain ⟨word, _, rfl, hword, wa, _, rfl, hwa, goal, _, rfl, hgoal, rfl⟩ := hw
    refine Takes.advance_bind ?_
    simp only [Item.kind_of_word hword, Word.keyword]
    refine (primaryWith_takes_operand (hamount amount hprint (by simp [Command.height])) hprint
      hwa).bind (fun read hread => ?_) fun _ _ => trivial
    have hdirection : Takes false roomy [goal] anywhere Parse.direction (· = direction) := by
      refine Takes.peek_bind ?_
      simp only [Item.kind_of_word hgoal, Word.keyword]
      exact Takes.advance_bind (Takes.pure rfl)
    refine hdirection.bind_nil fun read' hread' => Takes.pure ⟨_, rfl, ?_⟩
    simp only [Command.bare, hread, hread']
  | rotate amount place | scale amount place | fade amount place =>
    simp only [Command.words, List.map_eq_cons_iff] at hw
    obtain ⟨word, wa, rfl, hword, hwa⟩ := hw
    refine Takes.advance_bind ?_
    simp only [Item.kind_of_word hword, Word.keyword]
    refine (primaryWith_takes_operand (hamount amount hprint (by simp [Command.height])) hprint
      hwa).bind_nil fun read hread => Takes.pure ⟨_, rfl, ?_⟩
    simp only [Command.bare, hread]
  | foreign => simp [Command.printable] at hprint

/-- The first word of a command is no brace and no end of input. -/
theorem command_words_eq_cons {command : Command} (hprint : command.printable spell = true) :
    ∃ word others, command.words spell = .keyword (.command word) :: others := by
  cases command with
  | move | rotate | scale | fade => exact ⟨_, _, rfl⟩
  | foreign => simp [Command.printable] at hprint

/-- The repetition of commands reads them back, up to the closing brace. -/
theorem many_commandStep_takes {commands : List Command}
    (hprint : ∀ command ∈ commands, command.printable spell = true)
    (hamount : ∀ e : Expr, e.printable spell = true → e.height + 1 < Command.allHeight commands →
      ReadsBack spell roomy nested e)
    (hw : w.map Item.word = commands.flatMap (Command.words spell)) :
    Takes false roomy w (fun next => next.token.kind = .rightBrace) (many (commandStep nested))
      fun found => (found.filterMap id).map Command.bare = commands.map Command.bare := by
  induction commands generalizing w with
  | nil =>
    obtain rfl := List.map_eq_nil_iff.mp hw
    refine Takes.mono (Takes.many_nil (Takes.peek_bind_next fun next hnext => ?_)) id id ?_
    · dsimp only
      rw [if_pos (by simp [hnext])]
      exact Takes.pure rfl
    · rintro _ rfl
      rfl
  | cons command commands ih =>
    obtain ⟨hprintCommand, hprintOthers⟩ := List.forall_mem_cons.mp hprint
    simp only [Command.allHeight] at hamount
    rw [List.flatMap_cons, List.map_eq_append_iff] at hw
    obtain ⟨w₁, w₂, rfl, hw₁, hw₂⟩ := hw
    -- A command begins with its word, so the loop does not take it for the closing brace.
    obtain ⟨word, others, hwords⟩ := command_words_eq_cons hprintCommand
    obtain ⟨item, w₁', rfl, hitem, -⟩ := List.map_eq_cons_iff.mp (hw₁.trans hwords)
    have hstep : Takes false roomy (item :: w₁') anywhere (commandStep nested) fun found =>
        ∃ one, found = some one ∧ ∃ read, one = some read ∧ read.bare = command.bare := by
      apply Takes.peek_bind
      dsimp only
      rw [if_neg (by simp [Item.kind_of_word hitem, Word.keyword])]
      refine (commandWith_takes hprintCommand (fun e he hless => hamount e he ?_) hw₁).map
        fun found hfound => ⟨found, rfl, hfound⟩
      omega
    refine Takes.mono (Takes.many_cons hstep (List.cons_ne_nil item w₁')
      (ih hprintOthers (fun e he hless => hamount e he (by omega)) hw₂) (fun _ _ => trivial)
      fun hkept => absurd hkept Bool.false_ne_true) id id ?_
    rintro _ ⟨_, found, rfl, ⟨read, rfl, hread⟩, hfound⟩
    rw [List.filterMap_cons_some (by rfl), List.map_cons, List.map_cons, hread, hfound]

/-- Commands are read back, up to a closing brace, if each of them is. -/
theorem commandsWith_takes {commands : List Command}
    (hprint : ∀ command ∈ commands, command.printable spell = true)
    (hamount : ∀ e : Expr, e.printable spell = true → e.height + 1 < Command.allHeight commands →
      ReadsBack spell roomy nested e)
    (hw : w.map Item.word = commands.flatMap (Command.words spell)) :
    Takes false roomy w (fun next => next.token.kind = .rightBrace) (commandsWith nested)
      fun read => read.map Command.bare = commands.map Command.bare := by
  rw [commandsWith_eq]
  exact (many_commandStep_takes hprint hamount hw).map fun _ hfound => hfound

end Commands

-- ============================================================================
-- Statements
-- ============================================================================

section Statements

variable {spell : Binary64 → String} {roomy : Prop} {room : Nat} {w : List Item}

/-- A statement is read back with the given room, unless the levels of nesting run out. -/
def StmtReadsBack (spell : Binary64 → String) (roomy : Prop) (room : Nat) (stmt : Stmt) : Prop :=
  ∀ afterNewline w, Laid afterNewline (stmt.words spell) w →
    Takes true roomy w EndsStmt (statementWith (nested room)) fun read => read.bare = stmt.bare

theorem nested_expression (room : Nat) : (nested room).expression = expression room := by
  cases room <;> rfl

/-- What a statement nests as an expression is read back. -/
theorem nested_expression_takes {e : Expr} (hprint : e.printable spell = true)
    (hroomy : roomy → 2 * e.height + 1 ≤ room) :
    ReadsBack spell roomy (nested room).expression e := by
  rw [nested_expression]
  exact (expression_takes hprint room).mono hroomy

/-- What a statement nests as a block is read back if its statements are, with one level less. -/
theorem nested_block_takes {body : List Stmt} {opening closing : String}
    (hprint : Stmt.allPrintable spell body = true) (hroomy : roomy → room ≠ 0)
    (hbody : ∀ stmt ∈ body, ∀ below, room = below + 1 → StmtReadsBack spell roomy below stmt)
    {afterNewline : Bool}
    (hw : Laid afterNewline (.openBrace :: (Stmt.bodyWords spell body ++ [.closeBrace])) w) :
    Takes true roomy w anywhere (blockWith (nested room).body opening closing) fun read =>
      Stmt.bareAll read = Stmt.bareAll body := by
  refine blockWith_takes (nested_sound room).body (fun _ wb hwb => ?_) hw
  cases room with
  | zero => exact Takes.tooDeep fun h => hroomy h rfl
  | succ below =>
    exact statementsWith_takes (statementWith_reads (nested_sound below)) _ _
      (Stmt.allPrintable_iff.mp hprint) (fun stmt hstmt => hbody stmt hstmt below rfl) hwb

/-- A name that is introduced is read back. -/
theorem newName_takes {item : Item} {id : Identifier} (h : item.word = .name id.name)
    {text : String} {hint : Option String} :
    Takes false roomy [item] anywhere (newName text hint) fun read => read.bare = id.bare := by
  refine Takes.expect_bind (Item.kind_of_word h) (Takes.pure ?_)
  rw [Item.text_of_word h]
  rfl

/-- The word of a statement decides what follows it. -/
theorem statementWith_takes_word {word : StatementWord} {first : Item} {stop : Item → Prop}
    {good : Stmt → Prop} (hfirst : first.word = .keyword (.statement word))
    (h : Takes true roomy w stop (match word with
      | .letWord => bindingWith (nested room) first.token.location
      | .fnWord => functionWith (nested room) first.token.location
      | .returnWord => giveBackWith (nested room) first.token.location
      | .ifWord => branchWith (nested room) first.token.location
      | .repeatWord => loopWith (nested room) first.token.location
      | .animateWord => animationWith (nested room) first.token.location
      | .sceneWord => sceneWith (nested room) first.token.location) good) :
    Takes true roomy (first :: w) stop (statementWith (nested room)) good := by
  refine Takes.peek_bind ?_
  simp only [Item.kind_of_word hfirst, Word.keyword]
  exact Takes.advance_bind h

/-- Bindings are read back. -/
theorem binding_takes {name : Identifier} {value : Expr} {place : Location}
    (hprint : value.printable spell = true) (hroomy : roomy → 2 * value.height + 1 ≤ room) :
    StmtReadsBack spell roomy room (.binding name value place) := by
  intro afterNewline w hw
  obtain ⟨first, _, rfl, hfirst, -, hrest⟩ := hw.inline_cons (by simp)
  obtain ⟨item, _, rfl, hitem, -, hrest⟩ := hrest.inline_cons rfl
  obtain ⟨equals, wv, rfl, hequals, -, hrest⟩ := hrest.inline_cons rfl
  have hwv := hrest.map_word (Expr.all_inline_words hprint)
  refine statementWith_takes_word hfirst ?_
  refine (newName_takes hitem).bind (fun read hread => ?_) fun _ _ => trivial
  refine Takes.expect_bind (Item.kind_of_word hequals) ?_
  refine ((nested_expression_takes hprint hroomy wv hwv).mono id EndsStmt.ends id).bind_nil
    fun read' hread' => Takes.pure ?_
  simp only [Stmt.bare, hread, hread']

/-- Functions are read back if their bodies are. -/
theorem function_takes {name : Identifier} {parameters : List Identifier} {body : List Stmt}
    {place : Location} (hprint : Stmt.allPrintable spell body = true) (hroomy : roomy → room ≠ 0)
    (hbody : ∀ stmt ∈ body, ∀ below, room = below + 1 → StmtReadsBack spell roomy below stmt) :
    StmtReadsBack spell roomy room (.function name parameters body place) := by
  intro afterNewline w hw
  -- First the items are told apart by the words that they were printed as; then the parser is led
  -- along them.
  obtain ⟨first, _, rfl, hfirst, -, hrest⟩ := hw.inline_cons (by simp)
  obtain ⟨item, _, rfl, hitem, -, hrest⟩ := hrest.inline_cons rfl
  obtain ⟨opening, _, rfl, hopening, -, hrest⟩ := hrest.inline_cons rfl
  obtain ⟨wp, _, mark, rfl, hwp, hrest⟩ := hrest.inline_append
    (Word.all_inline_separated (by simp [Word.inline, Word.readable, Word.name]))
  obtain ⟨closing, wb, rfl, hclosing, -, hwb⟩ := hrest.inline_cons rfl
  refine statementWith_takes_word hfirst ?_
  refine (newName_takes hitem).bind (fun read hread => ?_) fun _ _ => trivial
  refine Takes.expect_bind (Item.kind_of_word hopening) ?_
  have hparameters : Takes false roomy wp (fun next => next.token.kind = .rightParen)
      (separated (newName "Expected parameter name" none)) fun reads =>
        reads.map Identifier.bare = parameters.map Identifier.bare := by
    have hname : ∀ id ∈ parameters, ∀ w : List Item, w.map Item.word = [.name id.name] →
        Takes false roomy w anywhere (newName "Expected parameter name" none) fun read =>
          read.bare = id.bare := by
      intro id _ w hw
      obtain ⟨item, rfl, hitem⟩ := List.map_eq_singleton_iff.mp hw
      exact newName_takes hitem
    exact separated_takes hname (fun id _ => ⟨_, _, rfl, Kind.noConfusion⟩)
      (fun _ _ => trivial) (fun _ _ => trivial) hwp
  refine hparameters.bind (fun reads hreads => ?_) fun _ _ => Item.kind_of_word hclosing
  refine Takes.expect_bind (Item.kind_of_word hclosing) ?_
  refine ((nested_block_takes hprint hroomy hbody hwb).mono id (fun _ => trivial) id).map
    fun read' hread' => ?_
  simp only [Stmt.bare, hread, hreads, hread']

/-- Loops are read back if their bodies are. -/
theorem loop_takes {times : Expr} {body : List Stmt} {place : Location}
    (hprint : times.printable spell = true ∧ Stmt.allPrintable spell body = true)
    (hroomy : roomy → 2 * times.height + 1 ≤ room)
    (hbody : ∀ stmt ∈ body, ∀ below, room = below + 1 → StmtReadsBack spell roomy below stmt) :
    StmtReadsBack spell roomy room (.loop times body place) := by
  intro afterNewline w hw
  obtain ⟨first, _, rfl, hfirst, -, hrest⟩ := hw.inline_cons (by simp)
  obtain ⟨wt, wb, mark, rfl, hwt, hwb⟩ := hrest.inline_append (Expr.all_inline_words hprint.1)
  obtain ⟨opening, wb', rfl, hopening, -⟩ := hwb.inline_cons rfl
  refine statementWith_takes_word hfirst ?_
  refine (nested_expression_takes hprint.1 hroomy wt hwt).bind (fun read hread => ?_)
    fun _ _ => Of.intro (Item.kind_of_word hopening) rfl
  refine ((nested_block_takes hprint.2 (fun h => by have := hroomy h; omega) hbody hwb).mono id
    (fun _ => trivial) id).map fun read' hread' => ?_
  simp only [Stmt.bare, hread, hread']

/-- Scenes are read back if their bodies are. -/
theorem scene_takes {name : String} {body : List Stmt} {place : Location}
    (hprint : Stmt.allPrintable spell body = true) (hroomy : roomy → room ≠ 0)
    (hbody : ∀ stmt ∈ body, ∀ below, room = below + 1 → StmtReadsBack spell roomy below stmt) :
    StmtReadsBack spell roomy room (.scene name body place) := by
  intro afterNewline w hw
  obtain ⟨first, _, rfl, hfirst, -, hrest⟩ := hw.inline_cons (by simp)
  obtain ⟨item, wb, rfl, hitem, -, hwb⟩ := hrest.inline_cons rfl
  refine statementWith_takes_word hfirst ?_
  have hitem : item.word = .name (Identifier.mk name .start).name := hitem
  refine (newName_takes hitem).bind (fun read hread => ?_) fun _ _ => trivial
  refine ((nested_block_takes hprint hroomy hbody hwb).mono id (fun _ => trivial) id).map
    fun read' hread' => ?_
  have hname : read.name = name := congrArg Identifier.name hread
  simp only [Stmt.bare, hname, hread']

/-- A `return` is read back: without a value because what follows ends it, and with one because
    the value stands on the same line. -/
theorem giveBack_takes {value : Option Expr} {place : Location}
    (hprint : (Stmt.giveBack value place).printable spell = true)
    (hroomy : roomy → ∀ e, value = some e → 2 * e.height + 1 ≤ room) :
    StmtReadsBack spell roomy room (.giveBack value place) := by
  intro afterNewline w hw
  cases value with
  | none =>
    obtain ⟨first, _, rfl, hfirst, -, hrest⟩ := hw.inline_cons (by simp)
    obtain rfl := hrest.eq_nil
    refine statementWith_takes_word hfirst (Takes.peek_bind_next fun next hnext => ?_)
    rw [if_pos (by simpa [EndsReturn, or_assoc] using hnext.line)]
    exact Takes.pure rfl
  | some value =>
    obtain ⟨first, wv, rfl, hfirst, -, hrest⟩ := hw.inline_cons (by simp)
    have hwv := hrest.map_word (Expr.all_inline_words hprint)
    obtain ⟨start, others, hwords, hstarts⟩ := Expr.words_eq_cons hprint
    have hinline := Expr.all_inline_words hprint
    rw [hwords, List.all_cons, Bool.and_eq_true] at hinline
    obtain ⟨item, wv', rfl, hitem, hline, -⟩ := (hwords ▸ hrest).inline_cons hinline.1
    refine statementWith_takes_word hfirst (Takes.peek_bind ?_)
    -- The value begins with a word of an expression on the same line, so the `return` does not end
    -- before it.
    have hgo : item.token.kind ≠ .rightBrace ∧ item.token.kind ≠ .endOfInput := by
      rw [Item.kind_of_word hitem]
      constructor <;> intro hkind <;> rw [hkind] at hstarts <;> cases hstarts
    rw [if_neg (by simp [hgo, hline])]
    refine ((nested_expression_takes hprint (fun h => hroomy h value rfl) _ hwv).mono id
      EndsStmt.ends id).bind_nil fun read hread => Takes.pure ?_
    simp only [Stmt.bare, hread]

/-- An expression that stands as a statement is read back: its first word opens no statement. -/
theorem expressionStmt_takes {value : Expr} {place : Location}
    (hprint : value.printable spell = true) (hroomy : roomy → 2 * value.height + 1 ≤ room) :
    StmtReadsBack spell roomy room (.expression value place) := by
  intro afterNewline w hw
  have hw : w.map Item.word = value.words spell := hw.map_word (Expr.all_inline_words hprint)
  obtain ⟨start, others, hwords, hstarts⟩ := Expr.words_eq_cons hprint
  obtain ⟨item, w', rfl, hitem, -⟩ := List.map_eq_cons_iff.mp (hw.trans hwords)
  refine Takes.peek_bind ?_
  dsimp only
  split
  · rename_i word hkind
    rw [← Item.kind_of_word hitem, hkind] at hstarts
    cases hstarts
  · refine ((nested_expression_takes hprint hroomy _ hw).mono id EndsStmt.ends id).bind_nil
      fun read hread => Takes.pure ?_
    simp only [Stmt.bare, hread]

/-- Animations are read back. -/
theorem animation_takes {commands : List Command} {place : Location}
    (hprint : commands.all (Command.printable spell) = true)
    (hroomy : roomy → 2 * Command.allHeight commands + 1 ≤ room) :
    StmtReadsBack spell roomy room (.animation commands place) := by
  intro afterNewline w hw
  have hcommands : (commands.flatMap (Command.words spell)).all Word.inline = true := by
    rw [List.all_flatMap]
    refine List.all_eq_true.mpr fun command hcommand => ?_
    exact Command.all_inline_words (List.all_eq_true.mp hprint command hcommand)
  obtain ⟨first, _, rfl, hfirst, -, hrest⟩ := hw.inline_cons (by simp)
  obtain ⟨opening, _, rfl, hopening, -, hrest⟩ := hrest.inline_cons rfl
  obtain ⟨wc, _, mark, rfl, hwc, hrest⟩ := hrest.inline_append hcommands
  obtain ⟨closing, _, rfl, hclosing, -, hnil⟩ := hrest.inline_cons rfl
  obtain rfl := hnil.eq_nil
  refine statementWith_takes_word hfirst (Takes.expect_bind (Item.kind_of_word hopening) ?_)
  refine (commandsWith_takes (List.all_eq_true.mp hprint) (fun e he hless => ?_) hwc).bind
    (fun read hread => ?_) fun _ _ => Item.kind_of_word hclosing
  · exact nested_expression_takes he fun h => by have := hroomy h; omega
  · refine Takes.expect_bind (Item.kind_of_word hclosing) (Takes.pure ?_)
    simp only [Stmt.bare, hread]

/-- The condition and the first block of a branch are read back; what follows them decides
    whether there is an `else`. -/
theorem branchWith_takes {condition : Expr} {thenBody : List Stmt} {place : Location}
    {wc wb we : List Item} {good : Stmt → Prop} {afterNewline : Bool}
    (hprint : condition.printable spell = true ∧ Stmt.allPrintable spell thenBody = true)
    (hroomy : roomy → 2 * condition.height + 1 ≤ room)
    (hthen : ∀ stmt ∈ thenBody, ∀ below, room = below + 1 → StmtReadsBack spell roomy below stmt)
    (hwc : wc.map Item.word = condition.words spell)
    (hwb : Laid afterNewline
      (.openBrace :: (Stmt.bodyWords spell thenBody ++ [.closeBrace])) wb)
    (helse : ∀ read readBody, read.bare = condition.bare →
      Stmt.bareAll readBody = Stmt.bareAll thenBody →
      Takes true roomy we EndsStmt (do
        match ← accept (· = .keyword .otherwise) with
        | none => return .branch read readBody none place
        | some _ =>
          let elseBody ← elseWith (nested room)
          return .branch read readBody (some elseBody) place) good) :
    Takes true roomy (wc ++ (wb ++ we)) EndsStmt (branchWith (nested room) place) good := by
  obtain ⟨opening, wb', rfl, hopening, -⟩ := hwb.inline_cons rfl
  refine (nested_expression_takes hprint.1 hroomy wc hwc).bind (fun read hread => ?_)
    fun _ _ => Of.intro (Item.kind_of_word hopening) rfl
  have hroom : roomy → room ≠ 0 := fun h => by have := hroomy h; omega
  exact (nested_block_takes hprint.2 hroom hthen hwb).bind_kept
    (fun readBody hbody => helse read readBody hread hbody) (fun _ _ => trivial)
    (blockWith_reads (nested_sound room).body _ _)
    fun readBody => Reads.accept_bind (by decide)
      (fun _ => (elseWith_reads (nested_sound room)).bind fun elseBody => Reads.pure _)
      (Reads.pure _)

/-- A branch without `else` is read back if its body is. -/
theorem plainBranch_takes {condition : Expr} {thenBody : List Stmt} {place : Location}
    (hprint : condition.printable spell = true ∧ Stmt.allPrintable spell thenBody = true)
    (hroomy : roomy → 2 * condition.height + 1 ≤ room)
    (hthen : ∀ stmt ∈ thenBody, ∀ below, room = below + 1 → StmtReadsBack spell roomy below stmt) :
    StmtReadsBack spell roomy room (.branch condition thenBody none place) := by
  intro afterNewline w hw
  obtain ⟨first, _, rfl, hfirst, -, hrest⟩ := hw.inline_cons (by simp)
  obtain ⟨wc, wb, mark, rfl, hwc, hwb⟩ := hrest.inline_append (Expr.all_inline_words hprint.1)
  refine statementWith_takes_word hfirst ?_
  rw [← List.append_nil wb]
  refine branchWith_takes hprint hroomy hthen hwc hwb fun read readBody hread hbody => ?_
  refine Takes.accept_bind_none (fun next hnext => by simpa using hnext.other) (Takes.pure ?_)
  simp only [Stmt.bare, hread, hbody]

/-- A branch with `else` is read back if its bodies are. -/
theorem otherwiseBranch_takes {condition : Expr} {thenBody elseBody : List Stmt} {place : Location}
    (hprint : condition.printable spell = true ∧ Stmt.allPrintable spell thenBody = true)
    (hprintElse : Stmt.allPrintable spell elseBody = true)
    (hroomy : roomy → 2 * condition.height + 1 ≤ room)
    (hthen : ∀ stmt ∈ thenBody, ∀ below, room = below + 1 → StmtReadsBack spell roomy below stmt)
    (helse : ∀ stmt ∈ elseBody, ∀ below, room = below + 1 → StmtReadsBack spell roomy below stmt) :
    StmtReadsBack spell roomy room (.branch condition thenBody (some elseBody) place) := by
  intro afterNewline w hw
  obtain ⟨first, _, rfl, hfirst, -, hrest⟩ := hw.inline_cons (by simp)
  obtain ⟨wc, _, mark, rfl, hwc, hrest⟩ := hrest.inline_append (Expr.all_inline_words hprint.1)
  obtain ⟨wb, _, mark', rfl, hwb, hrest⟩ := hrest.append
  obtain ⟨other, we, rfl, hother, -, hwe⟩ := hrest.inline_cons (by simp)
  obtain ⟨opening, we', rfl, hopening, -⟩ := hwe.inline_cons rfl
  refine statementWith_takes_word hfirst ?_
  refine branchWith_takes hprint hroomy hthen hwc hwb fun read readBody hread hbody => ?_
  refine Takes.accept_bind_some (by simp [Item.kind_of_word hother, Word.keyword]) ?_
  have hroom : roomy → room ≠ 0 := fun h => by have := hroomy h; omega
  have hblock : Takes true roomy (opening :: we') EndsStmt (elseWith (nested room)) fun read =>
      Stmt.bareAll read = Stmt.bareAll elseBody := by
    refine Takes.accept_bind_none (fun _ _ => ?_)
      ((nested_block_takes hprintElse hroom helse hwe).mono id (fun _ => trivial) id)
    simp [Item.kind_of_word hopening, Word.openBrace]
  refine hblock.map fun readElse hreadElse => ?_
  simp only [Stmt.bare, hread, hbody, hreadElse]

/-- Every statement that can be printed is read back, unless the levels of nesting run out; twice
    its height and one more are enough. -/
theorem statement_takes {stmt : Stmt} (hprint : stmt.printable spell = true) (room : Nat) :
    StmtReadsBack spell (2 * stmt.height + 1 ≤ room) room stmt := by
  have mono : ∀ {roomy roomy' : Prop} {room : Nat} {stmt : Stmt},
      StmtReadsBack spell roomy room stmt → (roomy' → roomy) →
      StmtReadsBack spell roomy' room stmt :=
    fun h hroomy afterNewline w hw => (h afterNewline w hw).mono hroomy id id
  -- The statements of a body have one level less, and are less high by one at least.
  have body : ∀ {body : List Stmt} {height room : Nat}, Stmt.allPrintable spell body = true →
      (∀ stmt ∈ body, stmt.printable spell = true → ∀ room,
        StmtReadsBack spell (2 * stmt.height + 1 ≤ room) room stmt) →
      Stmt.bodyHeight body ≤ height → ∀ stmt ∈ body, ∀ below, room = below + 1 →
        StmtReadsBack spell (2 * height + 1 ≤ room) below stmt := by
    rintro body height room hprint hbody hheight stmt hstmt below rfl
    have hless := Stmt.height_lt_bodyHeight hstmt
    exact mono (hbody stmt hstmt (Stmt.allPrintable_iff.mp hprint stmt hstmt) below)
      fun h => by omega
  induction stmt using Stmt.induction generalizing room with
  | binding name value place =>
    exact binding_takes hprint fun h => by simp only [Stmt.height] at h; omega
  | function name parameters stmts place hbody =>
    exact function_takes hprint (fun h => by omega) (body hprint hbody (Nat.le_refl _))
  | giveBack value place =>
    refine giveBack_takes hprint fun h e he => ?_
    subst he
    simp only [Stmt.height] at h
    omega
  | plain condition thenBody place hthen =>
    simp only [Stmt.printable, Bool.and_eq_true] at hprint
    refine plainBranch_takes hprint (fun h => ?_) (body hprint.2 hthen ?_)
    · simp only [Stmt.height] at h
      omega
    · exact Nat.le_max_right _ _
  | otherwise condition thenBody elseBody place hthen helse =>
    simp only [Stmt.printable, Bool.and_eq_true] at hprint
    refine otherwiseBranch_takes hprint.1 hprint.2 (fun h => ?_) (body hprint.1.2 hthen ?_)
      (body hprint.2 helse ?_)
    · simp only [Stmt.height] at h
      omega
    · simp only [Stmt.height]
      omega
    · simp only [Stmt.height]
      omega
  | loop times stmts place hbody =>
    simp only [Stmt.printable, Bool.and_eq_true] at hprint
    refine loop_takes hprint (fun h => ?_) (body hprint.2 hbody (Nat.le_max_right _ _))
    simp only [Stmt.height] at h
    omega
  | animation commands place => exact animation_takes hprint id
  | scene name stmts place hbody =>
    exact scene_takes hprint (fun h => by omega) (body hprint hbody (Nat.le_refl _))
  | expression value place =>
    simp only [Stmt.printable, Bool.and_eq_true] at hprint
    exact expressionStmt_takes hprint.1 fun h => by simp only [Stmt.height] at h; omega
  | foreign => simp [Stmt.printable] at hprint

end Statements

end Storyboard.Parse
