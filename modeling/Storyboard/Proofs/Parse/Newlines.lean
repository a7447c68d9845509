/-
  Storyboard.Proofs.Parse.Newlines

  Newlines count behind `return` only, as long as nothing is wrong.

  The parser drops newlines and keeps a mark on the token behind each. It looks at these
  marks in two places: behind `return`, to see whether a value follows, and when it
  recovers from an error, to see where it can go on. `Respaced` relates items that are
  the same tokens with other marks, but for those that stand behind a `return`.

  `Calm p` compares two runs of `p` over such items: if the first ends well and leaves no
  errors, then the second ends with the same result, and what is left to read is related
  again. Errors are never taken back, so a run without errors at its end had none on its
  way and has never recovered. So the second place at which marks are read is not reached.
-/
import Storyboard.Proofs.Parse.Soundness
import Storyboard.Proofs.Parse.Stepwise

namespace Storyboard

namespace Parse

-- ============================================================================
-- Items with other marks
-- ============================================================================

/-- Whether a token is the word `return`. -/
def isReturn (token : Token) : Bool := token.kind = .keyword (.statement .returnWord)

/-- Items of the same tokens. The marks may differ, except behind `return`; the flag says whether
    such a word stands in front of the items. -/
inductive Respaced : (afterReturn : Bool) → List Item → List Item → Prop where
  | nil {afterReturn : Bool} : Respaced afterReturn [] []
  | cons {afterReturn : Bool} {token : Token} {mark mark' : Bool} {items items' : List Item} :
      (afterReturn = true → mark = mark') → Respaced (isReturn token) items items' →
      Respaced afterReturn (⟨token, mark⟩ :: items) (⟨token, mark'⟩ :: items')

namespace Respaced

variable {afterReturn : Bool} {items items' : List Item}

theorem length_eq (h : Respaced afterReturn items items') : items.length = items'.length := by
  induction h with
  | nil => rfl
  | cons _ _ ih => rw [List.length_cons, List.length_cons, ih]

variable {c d : Cursor}

theorem token_eq (h : Respaced afterReturn c.items d.items) :
    c.current.token = d.current.token := by
  obtain ⟨current, upcoming, index⟩ := c
  obtain ⟨current', upcoming', index'⟩ := d
  cases h with
  | cons => rfl

theorem kind_eq (h : Respaced afterReturn c.items d.items) : c.kind = d.kind :=
  congrArg Token.kind h.token_eq

theorem startsLine_eq (h : Respaced true c.items d.items) :
    c.current.startsLine = d.current.startsLine := by
  obtain ⟨current, upcoming, index⟩ := c
  obtain ⟨current', upcoming', index'⟩ := d
  cases h with
  | cons hmark => exact hmark rfl

theorem remaining_eq (h : Respaced afterReturn c.items d.items) : c.remaining = d.remaining :=
  Nat.succ.inj h.length_eq

/-- Moving on from a token. -/
theorem advance (h : Respaced afterReturn c.items d.items) :
    Respaced false c.advance.items d.advance.items := by
  obtain ⟨current, upcoming, index⟩ := c
  obtain ⟨current', upcoming', index'⟩ := d
  cases h with
  | cons hmark hrest =>
    cases hrest with
    | nil => exact .cons (by simp) .nil
    | cons hnext hothers => exact .cons (by simp) hothers

/-- Moving on from a `return`, behind which something stands. -/
theorem advance_return (h : Respaced afterReturn c.items d.items)
    (hreturn : isReturn c.current.token = true) (hupcoming : c.upcoming ≠ []) :
    Respaced true c.advance.items d.advance.items := by
  obtain ⟨current, upcoming, index⟩ := c
  obtain ⟨current', upcoming', index'⟩ := d
  cases h with
  | cons hmark hrest =>
    rw [show isReturn _ = true from hreturn] at hrest
    cases hrest with
    | nil => exact absurd rfl hupcoming
    | cons hnext hothers => exact .cons hnext hothers

end Respaced

/-- In a closed cursor something stands behind every token that is not the end of input. -/
theorem Cursor.Closed.upcoming_ne_nil {c : Cursor} (h : c.Closed) (hkind : c.kind ≠ .endOfInput) :
    c.upcoming ≠ [] := by
  intro hnil
  obtain ⟨last, hlast, hend⟩ := h
  rw [Cursor.items, hnil, List.getLast?_singleton] at hlast
  cases hlast
  exact hkind hend

/-- States at the same tokens with other marks, and with the same errors. -/
structure State.Respaced (s t : State) : Prop where
  items : Parse.Respaced false s.cursor.items t.cursor.items
  closed : s.cursor.Closed
  errors : t.errors = s.errors

theorem State.Respaced.advance {s t : State} (h : s.Respaced t) :
    State.Respaced { s with cursor := s.cursor.advance } { t with cursor := t.cursor.advance } :=
  ⟨h.items.advance, (Cursor.Reaches.advance s.cursor).closed h.closed, h.errors⟩

-- ============================================================================
-- Calm parsers
-- ============================================================================

/-- The judgement `Calm` for the runs that begin at a given token. -/
structure CalmAt {α : Type} (start : Token) (p : Parser α) : Prop where
  clean : ∀ {s u : State} {a : α}, p s = .ok a u → u.errors = [] → s.errors = []
  follows : ∀ {s t u : State} {a : α}, s.Respaced t → s.cursor.current.token = start →
    p s = .ok a u → u.errors = [] → ∃ v, p t = .ok a v ∧ u.Respaced v

/-- Parsers that take back no errors, and whose runs that leave none do not depend on marks. -/
def Calm {α : Type} (p : Parser α) : Prop := ∀ start, CalmAt start p

section Rules

variable {α β : Type} {start : Token}

/-- A parser that never succeeds. -/
theorem Calm.of_fails {p : Parser α} (h : ∀ s a u, p s ≠ .ok a u) : Calm p :=
  fun _ => ⟨fun hrun => absurd hrun (h _ _ _), fun _ _ hrun => absurd hrun (h _ _ _)⟩

theorem Calm.reject (problem : SyntaxProblem) : Calm (reject problem : Parser α) :=
  .of_fails fun _ _ _ => by rintro ⟨⟩

theorem Calm.notNumber (text : String) : Calm (throw (.notNumber text) : Parser α) :=
  .of_fails fun _ _ _ => by rintro ⟨⟩

theorem Calm.unexpected : Calm (unexpected : Parser α) :=
  .of_fails fun _ _ _ => by rintro ⟨⟩

theorem Calm.pure (a : α) : Calm (pure a : Parser α) := by
  refine fun start => ⟨?_, ?_⟩
  · rintro s _ _ ⟨⟩ hclean
    exact hclean
  · rintro s t _ _ hs - ⟨⟩ -
    exact ⟨t, rfl, hs⟩

theorem Calm.advance : Calm advance := by
  refine fun start => ⟨?_, ?_⟩
  · rintro s _ _ ⟨⟩ hclean
    exact hclean
  · intro s t _ _ hs _ hrun _
    rw [advance_apply, hs.items.token_eq] at hrun
    cases hrun
    exact ⟨_, rfl, hs.advance⟩

/-- Two parsers one after the other: no errors at the end, so none in between. -/
theorem CalmAt.bind {p : Parser α} {f : α → Parser β} (hp : CalmAt start p)
    (hf : ∀ a, Calm (f a)) : CalmAt start (p >>= f) := by
  constructor
  · intro s v b hrun hclean
    obtain ⟨a, u, hfirst, hsecond⟩ := bind_eq_ok hrun
    exact hp.clean hfirst ((hf a start).clean hsecond hclean)
  · intro s t v b hs hstart hrun hclean
    obtain ⟨a, u, hfirst, hsecond⟩ := bind_eq_ok hrun
    have hbetween := (hf a start).clean hsecond hclean
    obtain ⟨u', hfirst', hu⟩ := hp.follows hs hstart hfirst hbetween
    obtain ⟨v', hsecond', hv⟩ := (hf a _).follows hu rfl hsecond hclean
    exact ⟨v', (bind_of_ok hfirst').trans hsecond', hv⟩

theorem Calm.bind {p : Parser α} {f : α → Parser β} (hp : Calm p) (hf : ∀ a, Calm (f a)) :
    Calm (p >>= f) := fun start => (hp start).bind hf

theorem Calm.map {p : Parser α} (hp : Calm p) (f : α → β) : Calm (f <$> p) :=
  hp.bind fun a => .pure (f a)

/-- A parser that looks at the current item, but not at its mark. -/
theorem Calm.peek_bind {f : Item → Parser β}
    (htoken : ∀ item item' : Item, item.token = item'.token → f item = f item')
    (hf : ∀ item, CalmAt item.token (f item)) : Calm (peek >>= f) := by
  refine fun start => ⟨?_, ?_⟩
  · intro s u b hrun hclean
    exact (hf s.cursor.current).clean hrun hclean
  · intro s t u b hs _ hrun hclean
    obtain ⟨v, hrun', hv⟩ := (hf s.cursor.current).follows hs rfl hrun hclean
    rw [htoken _ _ hs.items.token_eq] at hrun'
    exact ⟨v, hrun', hv⟩

theorem Calm.expect (kind : Kind) (text : String) (hint : Option String) :
    Calm (expect kind text hint) := by
  refine fun start => ⟨?_, ?_⟩
  · intro s u token hrun hclean
    unfold Parse.expect at hrun
    split at hrun
    · exact (Calm.advance start).clean hrun hclean
    · cases hrun
  · intro s t u token hs hstart hrun hclean
    rw [expect_apply] at hrun ⊢
    rw [← hs.items.kind_eq]
    split at hrun
    · rename_i hkind
      rw [if_pos hkind]
      exact (Calm.advance start).follows hs hstart hrun hclean
    · cases hrun

theorem Calm.accept (wanted : Kind → Bool) : Calm (accept wanted) := by
  refine fun start => ⟨?_, ?_⟩
  · intro s u found hrun hclean
    unfold Parse.accept at hrun
    split at hrun
    · exact ((Calm.advance.map some) start).clean hrun hclean
    · cases hrun
      exact hclean
  · intro s t u found hs hstart hrun hclean
    rw [accept_apply] at hrun ⊢
    rw [← hs.items.kind_eq]
    split at hrun
    · rename_i hwanted
      rw [if_pos hwanted]
      exact ((Calm.advance.map some) start).follows hs hstart hrun hclean
    · rename_i hwanted
      rw [if_neg hwanted]
      cases hrun
      exact ⟨t, rfl, hs⟩

theorem Calm.accept_bind {wanted : Kind → Bool} {f : Option Token → Parser β}
    (hsome : ∀ token, Calm (f (some token))) (hnone : Calm (f none)) :
    Calm (Parse.accept wanted >>= f) := by
  refine (Calm.accept wanted).bind fun found => ?_
  cases found with
  | none => exact hnone
  | some token => exact hsome token

/-- The rounds of two loops go side by side; as much is left to read in both. -/
theorem Calm.many {item : Parser (Option α)} (h : Calm item) : Calm (many item) := by
  -- Errors are only added, so if there are none at the end there were none before.
  have hclean : ∀ {s u : State} {as : List α}, Parse.many item s = .ok as u → u.errors = [] →
      s.errors = [] := by
    intro s u as hrun hnone
    fun_induction Parse.many item s generalizing as u with
    | case1 s failure v hitem => cases hrun
    | case2 s v hitem =>
      cases hrun
      exact (h default).clean hitem hnone
    | case3 s a v hitem hlt as' w hmany ih =>
      cases hrun
      exact (h default).clean hitem (ih hmany hnone)
    | case4 s a v hitem hlt failure w hmany ih => cases hrun
    | case5 s a v hitem hge =>
      cases hrun
      exact (h default).clean hitem hnone
  refine fun start => ⟨hclean, ?_⟩
  intro s t u as hs hstart hrun hnone
  -- The first token is only fixed for one round, and not for the rounds that follow.
  clear hstart
  fun_induction Parse.many item s generalizing t as u with
  | case1 s failure v hitem => cases hrun
  | case2 s v hitem =>
    cases hrun
    obtain ⟨v', hitem', hv⟩ := (h _).follows hs rfl hitem hnone
    rw [many_apply, hitem']
    exact ⟨v', rfl, hv⟩
  | case3 s a v hitem hlt as' w hmany ih =>
    cases hrun
    change v.cursor.remaining < s.cursor.remaining at hlt
    obtain ⟨v', hitem', hv⟩ := (h _).follows hs rfl hitem (hclean hmany hnone)
    obtain ⟨w', hmany', hw⟩ := ih hv hmany hnone
    rw [many_apply, hitem']
    dsimp only
    rw [← hv.items.remaining_eq, ← hs.items.remaining_eq, if_pos hlt, hmany']
    exact ⟨w', rfl, hw⟩
  | case4 s a v hitem hlt failure w hmany ih => cases hrun
  | case5 s a v hitem hge =>
    cases hrun
    change ¬v.cursor.remaining < s.cursor.remaining at hge
    obtain ⟨v', hitem', hv⟩ := (h _).follows hs rfl hitem hnone
    rw [many_apply, hitem']
    dsimp only
    rw [← hv.items.remaining_eq, ← hs.items.remaining_eq, if_neg hge]
    exact ⟨v', rfl, hv⟩

/-- An attempt that leaves no errors did not have to recover. -/
theorem Calm.attempt {one : Parser Stmt} (h : Calm one) (inBlock : Bool) :
    Calm (attempt inBlock one) := by
  have hone : ∀ {s u : State} {found : Option Stmt}, Parse.attempt inBlock one s = .ok found u →
      u.errors = [] → ∃ stmt, found = some stmt ∧ one s = .ok stmt u := by
    intro s u found hrun hclean
    unfold Parse.attempt at hrun
    split at hrun
    · rename_i stmt v hone
      cases hrun
      exact ⟨stmt, rfl, hone⟩
    · cases hrun
      simp [State.recover, State.record] at hclean
    · cases hrun
  refine fun start => ⟨?_, ?_⟩
  · intro s u found hrun hclean
    obtain ⟨stmt, rfl, hstmt⟩ := hone hrun hclean
    exact (h start).clean hstmt hclean
  · intro s t u found hs hstart hrun hclean
    obtain ⟨stmt, rfl, hstmt⟩ := hone hrun hclean
    obtain ⟨v, hstmt', hv⟩ := (h start).follows hs hstart hstmt hclean
    refine ⟨v, ?_, hv⟩
    rw [Parse.attempt, hstmt']

end Rules

-- ============================================================================
-- Expressions
-- ============================================================================

theorem separated_calm {α : Type} {item : Parser α} (h : Calm item) : Calm (separated item) := by
  have hstep : Calm (commaStep item) := .accept_bind (fun _ => h.map some) (.pure none)
  rw [separated_eq]
  refine .peek_bind (fun item item' htoken => by simp only [htoken]) fun start => ?_
  split
  · exact Calm.pure [] _
  · exact (h.bind fun first => hstep.many.bind fun others => .pure (first :: others)) _

theorem numberOf_calm (token : Token) : Calm (numberOf token) := by
  unfold numberOf
  split
  · exact .pure _
  · exact .notNumber token.text

section WithNested

variable {nested : Parser Expr} (h : Calm nested)
include h

theorem primaryWith_calm : Calm (primaryWith nested) := by
  unfold primaryWith
  refine .peek_bind (fun item item' htoken => by simp only [htoken]) fun start => ?_
  dsimp only
  split
  · exact (Calm.advance.bind fun _ => numberOf_calm start.token) _
  · exact (Calm.advance.bind fun _ => .pure _) _
  · exact (Calm.advance.bind fun _ => .pure _) _
  · exact (Calm.advance.bind fun _ => .pure _) _
  · exact (Calm.advance.bind fun _ => h.bind fun inner =>
      (Calm.expect _ _ _).bind fun _ => .pure inner) _
  · exact Calm.unexpected _

theorem pointWith_calm (what hint : String) : Calm (pointWith nested what hint) :=
  (Calm.expect _ _ _).bind fun _ => h.bind fun _ => (Calm.expect _ _ _).bind fun _ =>
    h.bind fun _ => (Calm.expect _ _ _).bind fun _ => .pure _

theorem clauseWith_calm (kind : Kind) (keyword hint : String) :
    Calm (clauseWith nested kind keyword hint) := (Calm.expect _ _ _).bind fun _ => h

theorem shapeWith_calm : Calm (shapeWith nested) := by
  have hpoint := pointWith_calm h
  have hclause := clauseWith_calm h
  unfold shapeWith
  refine .peek_bind (fun item item' htoken => by simp only [htoken]) fun start => ?_
  dsimp only
  split
  · rename_i word _
    refine (Calm.advance _).bind fun _ => ?_
    cases word with
    | circle =>
      exact (Calm.expect _ _ _).bind fun _ => (hpoint _ _).bind fun _ =>
        (hclause _ _ _).bind fun _ => (hclause _ _ _).bind fun _ => .pure _
    | rect =>
      exact (Calm.expect _ _ _).bind fun _ => (hpoint _ _).bind fun _ =>
        (hclause _ _ _).bind fun _ => (hclause _ _ _).bind fun _ =>
          (hclause _ _ _).bind fun _ => .pure _
    | line =>
      exact (hpoint _ _).bind fun _ => (hpoint _ _).bind fun _ =>
        (hclause _ _ _).bind fun _ => .pure _
    | triangle =>
      exact (hpoint _ _).bind fun _ => (hpoint _ _).bind fun _ => (hpoint _ _).bind fun _ =>
        (hclause _ _ _).bind fun _ => .pure _
  · exact primaryWith_calm h _

theorem callWith_calm : Calm (callWith nested) :=
  (shapeWith_calm h).bind fun callee => .accept_bind
    (fun _ => (separated_calm h).bind fun _ => (Calm.expect _ _ _).bind fun _ => .pure _)
    (.pure callee)

end WithNested

theorem chainFrom_calm (joins : Kind → Bool) (room : Nat) (operand : UpTo room)
    (h : ∀ levels hlevels, Calm (operand levels hlevels)) (left : Expr) :
    Calm (chainFrom joins room operand left) := by
  induction room generalizing left with
  | zero =>
    unfold chainFrom
    exact .accept_bind (fun _ => .reject _) (.pure left)
  | succ room ih =>
    unfold chainFrom
    exact .accept_bind (fun _ => (h room (Nat.le_succ room)).bind fun _ => ih _ (fun _ _ => h _ _) _)
      (.pure left)

theorem chain_calm (joins : Kind → Bool) (room : Nat) (operand : UpTo room)
    (h : ∀ levels hlevels, Calm (operand levels hlevels)) : Calm (chain joins room operand) :=
  (h room (Nat.le_refl room)).bind fun first => chainFrom_calm joins room operand h first

theorem expression_calm (room : Nat) : Calm (expression room) := by
  induction room using Nat.strongRecOn with
  | ind room ih =>
    unfold expression
    cases room with
    | zero => exact .reject _
    | succ below =>
      have hsum : ∀ levels, levels ≤ below →
          Calm (sumWith levels fun room _ => expression room) := by
        intro levels hlevels
        refine chain_calm _ _ _ fun levels' hlevels' => chain_calm _ _ _ fun room hroom => ?_
        exact callWith_calm (ih room (by omega))
      unfold comparisonWith
      refine (hsum below (Nat.le_refl below)).bind fun left =>
        .accept_bind (fun operator => ?_) (.pure left)
      cases below with
      | zero => exact .reject _
      | succ lower => exact (hsum lower (Nat.le_succ lower)).bind fun _ => .pure _

-- ============================================================================
-- Statements
-- ============================================================================

theorem direction_calm : Calm direction := by
  unfold direction
  refine .peek_bind (fun item item' htoken => by simp only [htoken]) fun start => ?_
  split
  · exact (Calm.advance.bind fun _ => .pure _) _
  · exact Calm.pure _ _

theorem commandsWith_calm {nested : Parser Expr} (h : Calm nested) :
    Calm (commandsWith nested) := by
  have hamount : Calm (amountWith nested) := primaryWith_calm h
  have hcommand : Calm (commandWith nested) := by
    unfold commandWith
    refine Calm.advance.bind fun token => ?_
    split
    · exact hamount.bind fun _ => direction_calm.bind fun _ => .pure _
    · exact hamount.bind fun _ => .pure _
    · exact hamount.bind fun _ => .pure _
    · exact hamount.bind fun _ => .pure _
    · exact .pure none
  refine (Calm.many (.peek_bind (fun item item' htoken => by simp only [htoken])
    fun start => ?_)).bind fun _ => .pure _
  dsimp only
  split
  · exact Calm.pure none _
  · exact (hcommand.map some) _

theorem statementsWith_calm {one : Parser Stmt} (h : Calm one) (inBlock topLevel : Bool) :
    Calm (statementsWith inBlock topLevel one) := by
  refine (Calm.many (.peek_bind (fun item item' htoken => by simp only [htoken])
    fun start => ?_)).bind fun _ => .pure _
  dsimp only
  split
  · exact Calm.pure none _
  · exact ((h.attempt inBlock).map some) _

theorem blockWith_calm {body : Parser (List Stmt)} (h : Calm body) (opening closing : String) :
    Calm (blockWith body opening closing) :=
  (Calm.expect _ _ _).bind fun _ => h.bind fun _ => (Calm.expect _ _ _).bind fun _ => .pure _

theorem newName_calm (text : String) (hint : Option String) : Calm (newName text hint) :=
  (Calm.expect _ _ _).bind fun _ => .pure _

/-- What a statement may nest is calm. -/
structure Nested.Calm (nested : Nested) : Prop where
  expression : Parse.Calm nested.expression
  body : Parse.Calm nested.body
  chained : ∀ place, Parse.Calm (nested.chained place)

section WithNested

variable {nested : Nested} (h : nested.Calm) (place : Location)
include h

theorem branchWith_calm : Calm (branchWith nested place) := by
  have helse : Calm (elseWith nested) :=
    .accept_bind (fun _ => (h.chained _).bind fun _ => .pure _) (blockWith_calm h.body _ _)
  exact h.expression.bind fun _ => (blockWith_calm h.body _ _).bind fun _ =>
    .accept_bind (fun _ => helse.bind fun _ => .pure _) (.pure _)

theorem functionWith_calm : Calm (functionWith nested place) :=
  (newName_calm _ _).bind fun _ => (Calm.expect _ _ _).bind fun _ =>
    (separated_calm (newName_calm _ _)).bind fun _ => (Calm.expect _ _ _).bind fun _ =>
      (blockWith_calm h.body _ _).bind fun _ => .pure _

/-- A `return` and what follows it: the mark that decides whether there is a value stands behind
    the word, where the two lists agree. -/
theorem return_calmAt {start : Token} (hstart : isReturn start = true) :
    CalmAt start (advance >>= fun _ => giveBackWith nested place) := by
  have hvalue : ∀ item : Item, Calm (if item.token.kind = .rightBrace ||
      item.token.kind = .endOfInput || item.startsLine then
        pure (.giveBack none place)
      else do
        let value ← nested.expression
        return .giveBack (some value) place : Parser Stmt) := by
    intro item
    split
    · exact .pure _
    · exact h.expression.bind fun _ => .pure _
  constructor
  · intro s u stmt hrun hclean
    obtain ⟨token, v, hmove, hrest⟩ := bind_eq_ok hrun
    cases hmove
    obtain ⟨item, v, hpeek, hrest⟩ := bind_eq_ok hrest
    cases hpeek
    have hbefore := (hvalue _ start).clean hrest hclean
    exact hbefore
  · intro s t u stmt hs htoken hrun hclean
    have hkind : s.cursor.kind ≠ .endOfInput := by
      rw [isReturn, ← htoken, decide_eq_true_eq] at hstart
      rw [Cursor.kind, hstart]
      decide
    -- Behind the word both lists have the same mark, so both find a value or both find none.
    have hnext := hs.items.advance_return (by rw [htoken]; exact hstart)
      (hs.closed.upcoming_ne_nil hkind)
    obtain ⟨v, hrun', hv⟩ := (hvalue s.cursor.advance.current _).follows hs.advance rfl hrun hclean
    refine ⟨v, ?_, hv⟩
    rw [hnext.token_eq, hnext.startsLine_eq] at hrun'
    exact hrun'

omit place in
theorem statementWith_calm : Calm (statementWith nested) := by
  unfold statementWith
  refine .peek_bind (fun item item' htoken => by simp only [htoken]) fun start => ?_
  dsimp only
  split
  · rename_i word hword
    cases word with
    | letWord =>
      exact (Calm.advance _).bind fun _ => (newName_calm _ _).bind fun _ =>
        (Calm.expect _ _ _).bind fun _ => h.expression.bind fun _ => .pure _
    | fnWord => exact (Calm.advance _).bind fun _ => functionWith_calm h _
    | returnWord => exact return_calmAt h _ (decide_eq_true hword)
    | ifWord => exact (Calm.advance _).bind fun _ => branchWith_calm h _
    | repeatWord =>
      exact (Calm.advance _).bind fun _ => h.expression.bind fun _ =>
        (blockWith_calm h.body _ _).bind fun _ => .pure _
    | animateWord =>
      exact (Calm.advance _).bind fun _ => (Calm.expect _ _ _).bind fun _ =>
        (commandsWith_calm h.expression).bind fun _ => (Calm.expect _ _ _).bind fun _ => .pure _
    | sceneWord =>
      exact (Calm.advance _).bind fun _ => (newName_calm _ _).bind fun _ =>
        (blockWith_calm h.body _ _).bind fun _ => .pure _
  · exact (h.expression _).bind fun _ => .pure _

end WithNested

theorem nested_calm (room : Nat) : (nested room).Calm := by
  induction room with
  | zero => exact ⟨expression_calm 0, .reject _, fun _ => .reject _⟩
  | succ below ih =>
    exact ⟨expression_calm (below + 1),
      statementsWith_calm (statementWith_calm ih) (inBlockAt below) false,
      fun place => branchWith_calm ih place⟩

theorem program_calm : Calm program := by
  have hstatements : Calm (statements maxDepth true) :=
    statementsWith_calm (statementWith_calm (nested_calm _)) (inBlockAt maxDepth) true
  exact hstatements.bind fun _ => .pure _

-- ============================================================================
-- Lists of tokens
-- ============================================================================

/-- Closing both lists adds the same end of input, or none. -/
theorem Respaced.closeAfter {afterReturn : Bool} {items items' : List Item}
    (h : Respaced afterReturn items items') {last last' : Item} (hlast : last.token = last'.token) :
    Respaced afterReturn (closeAfter last items) (closeAfter last' items') := by
  induction h generalizing last last' with
  | nil =>
    unfold Parse.closeAfter
    rw [hlast]
    split
    · exact .nil
    · exact .cons (fun _ => rfl) .nil
  | cons hmark _ ih => exact .cons hmark (ih rfl)

theorem Respaced.ofItems {items items' : List Item} (h : Respaced false items items') :
    Respaced false (Cursor.ofItems items).items (Cursor.ofItems items').items := by
  cases h with
  | nil => exact .cons (fun _ => rfl) .nil
  | cons hmark hrest => exact .cons hmark (hrest.closeAfter rfl)

end Parse

/-- The tokens of a list that are no newlines. -/
def withoutNewlines (tokens : List Token) : List Token :=
  tokens.filter fun token => token.kind ≠ .newline

/-- Whether a list of tokens begins with a newline. -/
def beginsWithNewline (tokens : List Token) : Bool :=
  tokens.head?.any fun token => token.kind = .newline

/-- For each `return` in a list of tokens, in turn, whether a newline stands right behind it. -/
def returnBreaks : List Token → List Bool
  | [] => []
  | token :: tokens =>
    if Parse.isReturn token then beginsWithNewline tokens :: returnBreaks tokens
    else returnBreaks tokens

theorem returnBreaks_cons_newline {token : Token} (h : token.kind = .newline)
    (tokens : List Token) : returnBreaks (token :: tokens) = returnBreaks tokens := by
  have hreturn : ¬Parse.isReturn token = true := by
    rw [Parse.isReturn, h]
    decide
  rw [returnBreaks, if_neg hreturn]

namespace Parse

/-- Newlines alone make no items. -/
theorem markLines_of_withoutNewlines_eq_nil {tokens : List Token}
    (h : withoutNewlines tokens = []) (mark : Bool) : markLines mark tokens = [] := by
  induction tokens generalizing mark with
  | nil => rfl
  | cons token tokens ih =>
    have hnewline : token.kind = .newline := by
      simpa using List.filter_eq_nil_iff.1 h token List.mem_cons_self
    rw [withoutNewlines, List.filter_cons_of_neg (by simp [hnewline])] at h
    rw [markLines, if_pos hnewline, ih h]

/-- The first token that is no newline is the first item. It is marked if a newline stands before
    it, and then the whole list begins with one. -/
theorem exists_markLines_eq_cons {tokens words : List Token} {word : Token}
    (h : withoutNewlines tokens = word :: words) :
    ∃ others, withoutNewlines others = words ∧
      returnBreaks tokens = returnBreaks (word :: others) ∧
      ∀ mark, markLines mark tokens =
        ⟨word, mark || beginsWithNewline tokens⟩ :: markLines false others := by
  induction tokens with
  | nil => cases h
  | cons token tokens ih =>
    by_cases hnewline : token.kind = .newline
    · rw [withoutNewlines, List.filter_cons_of_neg (by simp [hnewline])] at h
      obtain ⟨others, hwords, hbreaks, hitems⟩ := ih h
      refine ⟨others, hwords, (returnBreaks_cons_newline hnewline tokens).trans hbreaks, ?_⟩
      intro mark
      rw [markLines, if_pos hnewline, hitems]
      simp [beginsWithNewline, hnewline]
    · rw [withoutNewlines, List.filter_cons_of_pos (by simp [hnewline])] at h
      cases h
      refine ⟨tokens, rfl, rfl, fun mark => ?_⟩
      rw [markLines, if_neg hnewline]
      simp [beginsWithNewline, hnewline]

/-- The items of two lists of tokens that differ in newlines only. Where a `return` stands in
    front of both lists, the first marks have to agree. -/
theorem respaced_markLines {words tokens tokens' : List Token}
    (hwords : withoutNewlines tokens = words) (hwords' : withoutNewlines tokens' = words)
    (hbreaks : returnBreaks tokens = returnBreaks tokens') {afterReturn mark mark' : Bool}
    (hfirst : afterReturn = true →
      (mark || beginsWithNewline tokens) = (mark' || beginsWithNewline tokens')) :
    Respaced afterReturn (markLines mark tokens) (markLines mark' tokens') := by
  induction words generalizing tokens tokens' afterReturn mark mark' with
  | nil =>
    rw [markLines_of_withoutNewlines_eq_nil hwords, markLines_of_withoutNewlines_eq_nil hwords']
    exact .nil
  | cons word words ih =>
    obtain ⟨others, hothers, hrest, hitems⟩ := exists_markLines_eq_cons hwords
    obtain ⟨others', hothers', hrest', hitems'⟩ := exists_markLines_eq_cons hwords'
    rw [hitems, hitems']
    rw [hrest, hrest', returnBreaks, returnBreaks] at hbreaks
    refine .cons hfirst ?_
    by_cases hreturn : isReturn word = true
    · rw [if_pos hreturn, if_pos hreturn] at hbreaks
      obtain ⟨hnext, hlater⟩ := List.cons.inj hbreaks
      exact ih hothers hothers' hlater fun _ => by rw [Bool.false_or, Bool.false_or, hnext]
    · rw [if_neg hreturn, if_neg hreturn] at hbreaks
      exact ih hothers hothers' hbreaks fun h => absurd h hreturn

end Parse

/-- Newlines matter behind `return` only. Two lists of tokens that are the same without their
    newlines, and in which the same of the words `return` are followed by a newline, have the same
    tree, and no errors, as soon as one of them has no errors. -/
theorem parse_respaced (tokens tokens' : List Token) (p : Program)
    (hwords : withoutNewlines tokens = withoutNewlines tokens')
    (hbreaks : returnBreaks tokens = returnBreaks tokens')
    (hparse : parse tokens = .ok (p, [])) : parse tokens' = .ok (p, []) := by
  have hitems : Parse.Respaced false (Parse.markLines false tokens)
      (Parse.markLines false tokens') := Parse.respaced_markLines hwords rfl hbreaks (by simp)
  have hstart : (Parse.State.ofTokens tokens).Respaced (.ofTokens tokens') :=
    ⟨hitems.ofItems, Parse.Cursor.closed_ofTokens tokens, rfl⟩
  obtain ⟨t, hrun, herrors⟩ := program_of_parse hparse
  obtain ⟨u, hrun', hu⟩ := (Parse.program_calm _).follows hstart rfl hrun herrors
  rw [parse, hrun']
  dsimp only
  rw [hu.errors, herrors]

/-- Two times `return` and a call, with a newline behind the first `return` only: three statements,
    whether the calls stand on one line or each of their tokens is on a line of its own. -/
theorem parse_respaced_sample :
    let newline : Token := ⟨.newline, "\n", .start⟩
    let giving : Token := ⟨.keyword (.statement .returnWord), "return", .start⟩
    let call : List Token := [⟨.identifier, "f", .start⟩, ⟨.leftParen, "(", .start⟩,
      ⟨.number, "1", .start⟩, ⟨.rightParen, ")", .start⟩]
    let spread := call.flatMap fun token => [token, newline]
    let tokens := giving :: newline :: call ++ giving :: call
    let tokens' := newline :: giving :: newline :: newline :: spread ++ giving :: spread
    withoutNewlines tokens = withoutNewlines tokens' ∧ returnBreaks tokens = [true, false] ∧
      returnBreaks tokens' = [true, false] ∧
      ∃ p, p.body.length = 3 ∧ parse tokens = .ok (p, []) ∧ parse tokens' = .ok (p, []) := by
  intro newline giving call spread tokens tokens'
  have hwords : withoutNewlines tokens = withoutNewlines tokens' := by decide
  have hbreaks : returnBreaks tokens = [true, false] := by decide
  have hbreaks' : returnBreaks tokens' = [true, false] := by decide
  have hread : (parse tokens).toOption.map (fun read => (read.1.body.length, read.2)) =
      some (3, []) := by decide +kernel
  obtain ⟨p, errors, hparse⟩ := (show NumbersReadable tokens by decide +kernel).exists_parse
  rw [hparse] at hread
  simp only [Except.toOption, Option.map_some, Option.some.injEq, Prod.mk.injEq] at hread
  obtain ⟨hlength, rfl⟩ := hread
  exact ⟨hwords, hbreaks, hbreaks', p, hlength, hparse,
    parse_respaced tokens tokens' p hwords (hbreaks.trans hbreaks'.symm) hparse⟩

end Storyboard
