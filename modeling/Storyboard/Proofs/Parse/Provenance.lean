/-
  Storyboard.Proofs.Parse.Provenance

  Where the parts of a tree come from: each text and each place in it was copied from
  a token, and so was the place of each syntax error.

  `Expr.From T`, `Command.From T` and `Stmt.From T` say of a tree that its parts come
  from tokens that satisfy `T`, and of which kind these are. `Draws T p good` says of a
  parser that it keeps to such tokens, if the state it starts from holds no others, and
  that its results are good. Recovery only drops tokens, so it keeps to them too. For a
  text, `T` is to be one of its tokens (`parse_tokenize_from`).
-/
import Storyboard.Proofs.Parse.Resuming
import Storyboard.Proofs.Token.Splitting

namespace Storyboard

-- ============================================================================
-- Trees that come from tokens
-- ============================================================================

/-- Whether tokens of a kind join two operands. -/
def Kind.isOperator (kind : Kind) : Bool :=
  kind.isComparison || kind.isAdditive || kind.isMultiplicative

/-- A place where such a token stands. -/
def Placed (T : Token → Prop) (place : Location) : Prop :=
  ∃ token, T token ∧ place = token.location

/-- A name that such a token is. -/
def Identifier.From (T : Token → Prop) (id : Identifier) : Prop :=
  ∃ token, T token ∧ token.kind = .identifier ∧ id = ⟨token.text, token.location⟩

/-- Expressions whose parts come from such tokens. -/
inductive Expr.From (T : Token → Prop) : Expr → Prop where
  | identifier {id} : id.From T → From T (.identifier id)
  | number {token value} : T token → token.kind = .number →
      Numeral.read? token.text = some value → From T (.number value token.location)
  | string {value place} : Placed T place → From T (.string value place)
  | color {value place} : Placed T place → From T (.color value place)
  | binary {token left right} : T token → token.kind.isOperator → From T left → From T right →
      From T (.binary token.text left right token.location)
  | call {callee arguments} : From T callee → (∀ e ∈ arguments, From T e) →
      From T (.call callee arguments callee.location)
  | circle {center size fill place} : Placed T place → From T center.x → From T center.y →
      From T size → From T fill → From T (.circle center size fill place)
  | rect {center width height fill place} : Placed T place → From T center.x → From T center.y →
      From T width → From T height → From T fill → From T (.rect center width height fill place)
  | line {start stop fill place} : Placed T place → From T start.x → From T start.y →
      From T stop.x → From T stop.y → From T fill → From T (.line start stop fill place)
  | triangle {corners fill place} : Placed T place → corners.length = 3 →
      (∀ point ∈ corners, From T point.x) → (∀ point ∈ corners, From T point.y) → From T fill →
      From T (.triangle corners fill place)

/-- Points whose coordinates come from such tokens. -/
def Point.From (T : Token → Prop) (point : Point Expr) : Prop :=
  point.x.From T ∧ point.y.From T

/-- Commands whose parts come from such tokens. -/
inductive Command.From (T : Token → Prop) : Command → Prop where
  | move {amount direction place} : Placed T place → amount.From T →
      From T (.move amount direction place)
  | rotate {angle place} : Placed T place → angle.From T → From T (.rotate angle place)
  | scale {factor place} : Placed T place → factor.From T → From T (.scale factor place)
  | fade {amount place} : Placed T place → amount.From T → From T (.fade amount place)

/-- Statements whose parts come from such tokens. -/
inductive Stmt.From (T : Token → Prop) : Stmt → Prop where
  | binding {name value place} : Placed T place → name.From T → value.From T →
      From T (.binding name value place)
  | function {name parameters body place} : Placed T place → name.From T →
      (∀ id ∈ parameters, id.From T) → (∀ stmt ∈ body, From T stmt) →
      From T (.function name parameters body place)
  | giveBack {value place} : Placed T place → (∀ e ∈ value, e.From T) →
      From T (.giveBack value place)
  | plain {condition thenBody place} : Placed T place → condition.From T →
      (∀ stmt ∈ thenBody, From T stmt) → From T (.branch condition thenBody none place)
  | otherwise {condition thenBody elseBody place} : Placed T place → condition.From T →
      (∀ stmt ∈ thenBody, From T stmt) → (∀ stmt ∈ elseBody, From T stmt) →
      From T (.branch condition thenBody (some elseBody) place)
  | loop {times body place} : Placed T place → times.From T → (∀ stmt ∈ body, From T stmt) →
      From T (.loop times body place)
  | animation {commands place} : Placed T place → (∀ command ∈ commands, command.From T) →
      From T (.animation commands place)
  | scene {name : Identifier} {body place} : Placed T place → name.From T →
      (∀ stmt ∈ body, From T stmt) → From T (.scene name.name body place)
  | expression {value} : value.From T → From T (.expression value value.location)

namespace Parse

-- ============================================================================
-- Parsers that keep to tokens
-- ============================================================================

/-- A state that holds only such tokens, with errors only at such tokens. -/
structure State.Within (T : Token → Prop) (s : State) : Prop where
  items : ∀ item ∈ s.cursor.items, T item.token
  errors : ∀ error ∈ s.errors, Placed T error.location

/-- A failure noticed at such a token. -/
def Failure.Within (T : Token → Prop) : Failure → Prop
  | .rejected error => Placed T error.location
  | .notNumber _ => True

/-- Parsers that keep to such tokens and have good results. -/
structure Draws {α : Type} (T : Token → Prop) (p : Parser α) (good : α → Prop) : Prop where
  ok : ∀ {s a t}, s.Within T → p s = .ok a t → t.Within T ∧ good a
  error : ∀ {s failure t}, s.Within T → p s = .error failure t → t.Within T ∧ failure.Within T

namespace State.Within

variable {T : Token → Prop} {s : State}

theorem current (h : s.Within T) : T s.cursor.current.token :=
  h.items _ List.mem_cons_self

theorem advance (h : s.Within T) : State.Within T { s with cursor := s.cursor.advance } := by
  refine ⟨fun item hitem => h.items item ?_, h.errors⟩
  rw [Cursor.advance] at hitem
  split at hitem
  · exact hitem
  · rename_i next others hupcoming
    rw [Cursor.items, hupcoming]
    exact List.mem_cons_of_mem _ hitem

theorem record {error : SyntaxError} (h : s.Within T) (herror : Placed T error.location) :
    (s.record error).Within T := by
  refine ⟨h.items, fun found hfound => ?_⟩
  rcases List.mem_append.mp hfound with hold | hnew
  · exact h.errors found hold
  · rw [List.mem_singleton.mp hnew]
    exact herror

end State.Within

/-- Looking for an item drops the ones before it. -/
theorem mem_of_mem_seekFrom {stops : Item → Bool} {current item : Item} {upcoming : List Item}
    {index : Nat} (h : item ∈ (Cursor.seekFrom stops current upcoming index).items) :
    item ∈ current :: upcoming := by
  induction upcoming generalizing current index with
  | nil => exact h
  | cons next others ih =>
    rw [Cursor.seekFrom] at h
    split at h
    · exact h
    · exact List.mem_cons_of_mem _ (ih h)

theorem State.Within.recover {T : Token → Prop} {s : State} (h : s.Within T) (inBlock : Bool)
    (start : Int) : (s.recover inBlock start).Within T := by
  refine ⟨fun item hitem => ?_, h.errors⟩
  rw [State.recover] at hitem
  dsimp only at hitem
  split at hitem
  · exact h.advance.items item (mem_of_mem_seekFrom hitem)
  · exact h.items item (mem_of_mem_seekFrom hitem)

namespace Draws

variable {T : Token → Prop} {α β : Type}

theorem weaken {p : Parser α} {good better : α → Prop} (h : Draws T p better)
    (hgood : ∀ a, better a → good a) : Draws T p good :=
  ⟨fun hs hrun => ⟨(h.ok hs hrun).1, hgood _ (h.ok hs hrun).2⟩, h.error⟩

theorem pure {good : α → Prop} {a : α} (h : good a) : Draws T (Pure.pure a : Parser α) good := by
  constructor
  · rintro s _ _ hs ⟨⟩
    exact ⟨hs, h⟩
  · rintro s _ _ hs ⟨⟩

theorem reject {good : α → Prop} (problem : SyntaxProblem) :
    Draws T (reject problem : Parser α) good := by
  constructor
  · rintro s _ _ hs ⟨⟩
  · rintro s _ _ hs ⟨⟩
    exact ⟨hs, s.cursor.current.token, hs.current, rfl⟩

theorem notNumber {good : α → Prop} (text : String) :
    Draws T (throw (.notNumber text) : Parser α) good := by
  constructor
  · rintro s _ _ hs ⟨⟩
  · rintro s _ _ hs ⟨⟩
    exact ⟨hs, trivial⟩

theorem peek : Draws T peek fun item => T item.token := by
  constructor
  · rintro s _ _ hs ⟨⟩
    exact ⟨hs, hs.current⟩
  · rintro s _ _ hs ⟨⟩

theorem advance : Draws T advance T := by
  constructor
  · rintro s _ _ hs ⟨⟩
    exact ⟨hs.advance, hs.current⟩
  · rintro s _ _ hs ⟨⟩

theorem bind {p : Parser α} {f : α → Parser β} {good : α → Prop} {next : β → Prop}
    (hp : Draws T p good) (hf : ∀ a, good a → Draws T (f a) next) : Draws T (p >>= f) next := by
  constructor
  · intro s b u hs hrun
    obtain ⟨a, t, hfirst, hsecond⟩ := bind_eq_ok hrun
    obtain ⟨ht, ha⟩ := hp.ok hs hfirst
    exact (hf a ha).ok ht hsecond
  · intro s failure u hs hrun
    rcases bind_eq_error hrun with hfirst | ⟨a, t, hfirst, hsecond⟩
    · exact hp.error hs hfirst
    · obtain ⟨ht, ha⟩ := hp.ok hs hfirst
      exact (hf a ha).error ht hsecond

theorem map {p : Parser α} {f : α → β} {good : β → Prop} (hp : Draws T p fun a => good (f a)) :
    Draws T (f <$> p) good := hp.bind fun _ ha => .pure ha

theorem unexpected {good : α → Prop} : Draws T (unexpected : Parser α) good :=
  peek.bind fun item _ => .reject (.ofToken item.token)

/-- A token that has to come next is of the wanted kind. -/
theorem expect (kind : Kind) (text : String) (hint : Option String) :
    Draws T (expect kind text hint) fun token => T token ∧ token.kind = kind := by
  constructor
  · intro s token t hs hrun
    rw [expect_apply] at hrun
    split at hrun
    · rename_i hkind
      cases hrun
      exact ⟨hs.advance, hs.current, hkind⟩
    · cases hrun
  · intro s failure t hs hrun
    rw [expect_apply] at hrun
    split at hrun
    · cases hrun
    · cases hrun
      exact ⟨hs, s.cursor.current.token, hs.current, rfl⟩

/-- A token that may come next is of a wanted kind. -/
theorem accept (wanted : Kind → Bool) :
    Draws T (accept wanted) fun found => ∀ token ∈ found, T token ∧ wanted token.kind := by
  constructor
  · intro s found t hs hrun
    rw [accept_apply] at hrun
    split at hrun
    · rename_i hwanted
      cases hrun
      refine ⟨hs.advance, fun token htoken => ?_⟩
      cases htoken
      exact ⟨hs.current, hwanted⟩
    · cases hrun
      exact ⟨hs, by simp⟩
  · intro s failure t hs hrun
    rw [accept_apply] at hrun
    split at hrun <;> cases hrun

/-- A token that may come next, with what follows in either case. -/
theorem accept_bind {wanted : Kind → Bool} {f : Option Token → Parser β} {good : β → Prop}
    (hsome : ∀ token, T token → wanted token.kind → Draws T (f (some token)) good)
    (hnone : Draws T (f none) good) : Draws T (Parse.accept wanted >>= f) good := by
  refine (accept wanted).bind fun found hfound => ?_
  cases found with
  | none => exact hnone
  | some token =>
    obtain ⟨htoken, hwanted⟩ := hfound token rfl
    exact hsome token htoken hwanted

/-- A loop whose rounds give good results gives good ones only. -/
theorem many {item : Parser (Option α)} {good : α → Prop}
    (h : Draws T item fun found => ∀ a ∈ found, good a) :
    Draws T (many item) fun as => ∀ a ∈ as, good a := by
  constructor
  · intro s as u hs hrun
    fun_induction Parse.many item s generalizing as u with
    | case1 s failure t hitem => cases hrun
    | case2 s t hitem =>
      cases hrun
      exact ⟨(h.ok hs hitem).1, by simp⟩
    | case3 s a t hitem hlt as' u' hmany ih =>
      cases hrun
      obtain ⟨ht, ha⟩ := h.ok hs hitem
      obtain ⟨hu, has⟩ := ih ht hmany
      exact ⟨hu, List.forall_mem_cons.mpr ⟨ha a rfl, has⟩⟩
    | case4 s a t hitem hlt failure u' hmany ih => cases hrun
    | case5 s a t hitem hge =>
      cases hrun
      obtain ⟨ht, ha⟩ := h.ok hs hitem
      exact ⟨ht, by simpa using ha a rfl⟩
  · intro s failure u hs hrun
    fun_induction Parse.many item s generalizing failure u with
    | case1 s failure' t hitem =>
      cases hrun
      exact h.error hs hitem
    | case2 s t hitem => cases hrun
    | case3 s a t hitem hlt as' u' hmany ih => cases hrun
    | case4 s a t hitem hlt failure' u' hmany ih =>
      cases hrun
      exact ih (h.ok hs hitem).1 hmany
    | case5 s a t hitem hge => cases hrun

/-- The rounds of a loop that gave something. -/
theorem many_filterMap {item : Parser (Option (Option α))} {good : α → Prop}
    (h : Draws T item fun found => ∀ a? ∈ found, ∀ a ∈ a?, good a) :
    Draws T (Parse.many item >>= fun found => Pure.pure (found.filterMap id))
      fun as => ∀ a ∈ as, good a := by
  refine h.many.bind fun found hfound => .pure fun a ha => ?_
  obtain ⟨a?, hmem, heq⟩ := List.mem_filterMap.mp ha
  exact hfound a? hmem a heq

/-- Recovery keeps to the tokens, and records an error that stands at one of them. -/
theorem attempt {one : Parser Stmt} {good : Stmt → Prop} (h : Draws T one good)
    (inBlock : Bool) : Draws T (attempt inBlock one) fun found => ∀ stmt ∈ found, good stmt := by
  constructor
  · intro s found u hs hrun
    rw [Parse.attempt] at hrun
    split at hrun
    · rename_i stmt t hone
      cases hrun
      obtain ⟨ht, hstmt⟩ := h.ok hs hone
      refine ⟨ht, fun found hfound => ?_⟩
      cases hfound
      exact hstmt
    · rename_i error t hone
      cases hrun
      obtain ⟨ht, herror⟩ := h.error hs hone
      -- The error stands at the token where it was found, and recovery only moves on from there.
      exact ⟨(ht.record herror).recover inBlock _, by simp⟩
    · cases hrun
  · intro s failure u hs hrun
    rw [Parse.attempt] at hrun
    split at hrun
    · cases hrun
    · cases hrun
    · rename_i failure' t _ hone
      cases hrun
      exact h.error hs hone

end Draws

-- ============================================================================
-- Expressions
-- ============================================================================

variable {T : Token → Prop}

theorem separated_draws {α : Type} {item : Parser α} {good : α → Prop} (h : Draws T item good) :
    Draws T (separated item) fun as => ∀ a ∈ as, good a := by
  have hstep : Draws T (commaStep item) fun found => ∀ a ∈ found, good a :=
    .accept_bind (fun _ _ _ => .map (h.weaken fun a ha => by simpa using ha)) (.pure (by simp))
  rw [separated_eq]
  refine Draws.peek.bind fun start _ => ?_
  split
  · exact .pure (by simp)
  · exact h.bind fun first hfirst => hstep.many.bind fun others hothers =>
      .pure (List.forall_mem_cons.mpr ⟨hfirst, hothers⟩)

theorem numberOf_draws {token : Token} (h : T token) (hkind : token.kind = .number) :
    Draws T (numberOf token) (Expr.From T) := by
  unfold numberOf
  split
  · rename_i hread
    exact .pure (.number h hkind hread)
  · exact .notNumber token.text

section WithNested

variable {nested : Parser Expr} (h : Draws T nested (Expr.From T))
include h

theorem primaryWith_draws : Draws T (primaryWith nested) (Expr.From T) := by
  unfold primaryWith
  refine Draws.peek.bind fun start hstart => ?_
  have hplace : Placed T start.token.location := ⟨start.token, hstart, rfl⟩
  dsimp only
  split
  · rename_i hkind
    exact Draws.advance.bind fun _ _ => numberOf_draws hstart hkind
  · exact Draws.advance.bind fun _ _ => .pure (.string hplace)
  · exact Draws.advance.bind fun _ _ => .pure (.color hplace)
  · rename_i hkind
    exact Draws.advance.bind fun _ _ => .pure (.identifier ⟨start.token, hstart, hkind, rfl⟩)
  · exact Draws.advance.bind fun _ _ => h.bind fun inner hinner =>
      (Draws.expect _ _ _).bind fun _ _ => .pure hinner
  · exact .unexpected

theorem pointWith_draws (what hint : String) :
    Draws T (pointWith nested what hint) (Point.From T) :=
  (Draws.expect _ _ _).bind fun _ _ => h.bind fun _ hx => (Draws.expect _ _ _).bind fun _ _ =>
    h.bind fun _ hy => (Draws.expect _ _ _).bind fun _ _ => .pure ⟨hx, hy⟩

theorem clauseWith_draws (kind : Kind) (keyword hint : String) :
    Draws T (clauseWith nested kind keyword hint) (Expr.From T) :=
  (Draws.expect _ _ _).bind fun _ _ => h

/-- Shapes stand where their first words do. -/
theorem shapeWith_draws : Draws T (shapeWith nested) (Expr.From T) := by
  have hpoint := pointWith_draws h
  have hclause := clauseWith_draws h
  unfold shapeWith
  refine Draws.peek.bind fun start hstart => ?_
  have hplace : Placed T start.token.location := ⟨start.token, hstart, rfl⟩
  dsimp only
  split
  · rename_i word hword
    refine Draws.advance.bind fun _ _ => ?_
    cases word with
    | circle =>
      exact (Draws.expect _ _ _).bind fun _ _ => (hpoint _ _).bind fun _ hcenter =>
        (hclause _ _ _).bind fun _ hsize => (hclause _ _ _).bind fun _ hfill =>
          .pure (.circle hplace hcenter.1 hcenter.2 hsize hfill)
    | rect =>
      exact (Draws.expect _ _ _).bind fun _ _ => (hpoint _ _).bind fun _ hcenter =>
        (hclause _ _ _).bind fun _ hwidth => (hclause _ _ _).bind fun _ hheight =>
          (hclause _ _ _).bind fun _ hfill =>
            .pure (.rect hplace hcenter.1 hcenter.2 hwidth hheight hfill)
    | line =>
      exact (hpoint _ _).bind fun _ hstart => (hpoint _ _).bind fun _ hstop =>
        (hclause _ _ _).bind fun _ hfill =>
          .pure (.line hplace hstart.1 hstart.2 hstop.1 hstop.2 hfill)
    | triangle =>
      exact (hpoint _ _).bind fun _ hfirst => (hpoint _ _).bind fun _ hsecond =>
        (hpoint _ _).bind fun _ hthird => (hclause _ _ _).bind fun _ hfill =>
          .pure (.triangle hplace rfl (by simp [hfirst.1, hsecond.1, hthird.1])
            (by simp [hfirst.2, hsecond.2, hthird.2]) hfill)
  · exact primaryWith_draws h

theorem callWith_draws : Draws T (callWith nested) (Expr.From T) :=
  (shapeWith_draws h).bind fun _ hcallee => .accept_bind
    (fun _ _ _ => (separated_draws h).bind fun _ harguments =>
      (Draws.expect _ _ _).bind fun _ _ => .pure (.call hcallee harguments))
    (.pure hcallee)

end WithNested

/-- Operators and operands. Each operator takes a level, so the induction is on the room. -/
theorem chainFrom_draws {joins : Kind → Bool} (hjoins : ∀ kind, joins kind → kind.isOperator)
    (room : Nat) (operand : UpTo room)
    (h : ∀ levels hlevels, Draws T (operand levels hlevels) (Expr.From T)) {left : Expr}
    (hleft : left.From T) : Draws T (chainFrom joins room operand left) (Expr.From T) := by
  induction room generalizing left with
  | zero =>
    unfold chainFrom
    exact .accept_bind (fun _ _ _ => .reject _) (.pure hleft)
  | succ room ih =>
    unfold chainFrom
    refine .accept_bind (fun token htoken hjoin => ?_) (.pure hleft)
    exact (h room (Nat.le_succ room)).bind fun right hright =>
      ih _ (fun _ _ => h _ _) (.binary htoken (hjoins _ hjoin) hleft hright)

theorem chain_draws {joins : Kind → Bool} (hjoins : ∀ kind, joins kind → kind.isOperator)
    (room : Nat) (operand : UpTo room)
    (h : ∀ levels hlevels, Draws T (operand levels hlevels) (Expr.From T)) :
    Draws T (chain joins room operand) (Expr.From T) :=
  (h room (Nat.le_refl room)).bind fun _ hfirst => chainFrom_draws hjoins room operand h hfirst

/-- Expressions come from tokens at every room. -/
theorem expression_draws (room : Nat) : Draws T (expression room) (Expr.From T) := by
  induction room using Nat.strongRecOn with
  | ind room ih =>
    unfold expression
    cases room with
    | zero => exact .reject _
    | succ below =>
      -- Two levels of operators are read by one and the same loop, over calls at the bottom.
      have hsum : ∀ levels, levels ≤ below →
          Draws T (sumWith levels fun room _ => expression room) (Expr.From T) := by
        intro levels hlevels
        refine chain_draws (fun kind hkind => by simp [Kind.isOperator, hkind]) _ _
          fun levels' hlevels' => ?_
        refine chain_draws (fun kind hkind => by simp [Kind.isOperator, hkind]) _ _
          fun room hroom => ?_
        exact callWith_draws (ih room (by omega))
      unfold comparisonWith
      refine (hsum below (Nat.le_refl below)).bind fun left hleft =>
        .accept_bind (fun token htoken hjoin => ?_) (.pure hleft)
      cases below with
      | zero => exact .reject _
      | succ lower =>
        refine (hsum lower (Nat.le_succ lower)).bind fun right hright => .pure ?_
        exact .binary htoken (by simp [Kind.isOperator, hjoin]) hleft hright

-- ============================================================================
-- Statements
-- ============================================================================

theorem direction_draws : Draws T direction fun _ => True := by
  unfold direction
  refine Draws.peek.bind fun start _ => ?_
  split
  · exact Draws.advance.bind fun _ _ => .pure trivial
  · exact .pure trivial

/-- Commands, each with the place of its keyword. -/
theorem commandsWith_draws {nested : Parser Expr} (h : Draws T nested (Expr.From T)) :
    Draws T (commandsWith nested) fun commands => ∀ command ∈ commands, command.From T := by
  have hamount : Draws T (amountWith nested) (Expr.From T) := primaryWith_draws h
  have hcommand : Draws T (commandWith nested) fun found => ∀ command ∈ found, command.From T := by
    unfold commandWith
    refine Draws.advance.bind fun token htoken => ?_
    have hplace : Placed T token.location := ⟨token, htoken, rfl⟩
    split
    · exact hamount.bind fun _ ha => direction_draws.bind fun _ _ =>
        .pure (by simpa using .move hplace ha)
    · exact hamount.bind fun _ ha => .pure (by simpa using .rotate hplace ha)
    · exact hamount.bind fun _ ha => .pure (by simpa using .scale hplace ha)
    · exact hamount.bind fun _ ha => .pure (by simpa using .fade hplace ha)
    · exact .pure (by simp)
  refine Draws.many_filterMap (Draws.peek.bind fun start _ => ?_)
  dsimp only
  split
  · exact .pure (by simp)
  · exact .map (hcommand.weaken fun found hfound => by simpa using hfound)

theorem statementsWith_draws {one : Parser Stmt} (h : Draws T one (Stmt.From T))
    (inBlock topLevel : Bool) :
    Draws T (statementsWith inBlock topLevel one) fun body => ∀ stmt ∈ body, stmt.From T := by
  refine Draws.many_filterMap (Draws.peek.bind fun start _ => ?_)
  dsimp only
  split
  · exact .pure (by simp)
  · exact .map ((h.attempt inBlock).weaken fun found hfound => by simpa using hfound)

theorem blockWith_draws {body : Parser (List Stmt)} {good : List Stmt → Prop}
    (h : Draws T body good) (opening closing : String) :
    Draws T (blockWith body opening closing) good :=
  (Draws.expect _ _ _).bind fun _ _ => h.bind fun _ hbody =>
    (Draws.expect _ _ _).bind fun _ _ => .pure hbody

theorem newName_draws (text : String) (hint : Option String) :
    Draws T (newName text hint) (Identifier.From T) :=
  (Draws.expect _ _ _).bind fun token htoken => .pure ⟨token, htoken.1, htoken.2, rfl⟩

/-- What a statement may nest comes from tokens. -/
structure Nested.Draws (T : Token → Prop) (nested : Nested) : Prop where
  expression : Parse.Draws T nested.expression (Expr.From T)
  body : Parse.Draws T nested.body fun body => ∀ stmt ∈ body, stmt.From T
  chained : ∀ place, Placed T place → Parse.Draws T (nested.chained place) (Stmt.From T)

section WithNested

variable {nested : Nested} (h : nested.Draws T) {place : Location} (hplace : Placed T place)
include h

theorem elseWith_draws :
    Draws T (elseWith nested) fun body => ∀ stmt ∈ body, stmt.From T :=
  .accept_bind
    (fun token htoken _ => (h.chained _ ⟨token, htoken, rfl⟩).bind fun _ hstmt =>
      .pure (by simpa using hstmt))
    (blockWith_draws h.body _ _)

include hplace

theorem branchWith_draws : Draws T (branchWith nested place) (Stmt.From T) :=
  h.expression.bind fun _ hcondition => (blockWith_draws h.body _ _).bind fun _ hthen =>
    .accept_bind
      (fun _ _ _ => (elseWith_draws h).bind fun _ helse =>
        .pure (.otherwise hplace hcondition hthen helse))
      (.pure (.plain hplace hcondition hthen))

theorem functionWith_draws : Draws T (functionWith nested place) (Stmt.From T) :=
  (newName_draws _ _).bind fun _ hname => (Draws.expect _ _ _).bind fun _ _ =>
    (separated_draws (newName_draws _ _)).bind fun _ hparameters =>
      (Draws.expect _ _ _).bind fun _ _ => (blockWith_draws h.body _ _).bind fun _ hbody =>
        .pure (.function hplace hname hparameters hbody)

theorem giveBackWith_draws : Draws T (giveBackWith nested place) (Stmt.From T) := by
  unfold giveBackWith
  refine Draws.peek.bind fun item _ => ?_
  split
  · exact .pure (.giveBack hplace (by simp))
  · exact h.expression.bind fun _ hvalue => .pure (.giveBack hplace (by simpa using hvalue))

omit hplace in
/-- Statements stand where their keywords do, and those without one where their expression does. -/
theorem statementWith_draws : Draws T (statementWith nested) (Stmt.From T) := by
  unfold statementWith
  refine Draws.peek.bind fun start hstart => ?_
  have hplace : Placed T start.token.location := ⟨start.token, hstart, rfl⟩
  dsimp only
  split
  · rename_i word hword
    refine Draws.advance.bind fun _ _ => ?_
    cases word with
    | letWord =>
      exact (newName_draws _ _).bind fun _ hname => (Draws.expect _ _ _).bind fun _ _ =>
        h.expression.bind fun _ hvalue => .pure (.binding hplace hname hvalue)
    | fnWord => exact functionWith_draws h hplace
    | returnWord => exact giveBackWith_draws h hplace
    | ifWord => exact branchWith_draws h hplace
    | repeatWord =>
      exact h.expression.bind fun _ htimes => (blockWith_draws h.body _ _).bind fun _ hbody =>
        .pure (.loop hplace htimes hbody)
    | animateWord =>
      exact (Draws.expect _ _ _).bind fun _ _ =>
        (commandsWith_draws h.expression).bind fun _ hcommands =>
          (Draws.expect _ _ _).bind fun _ _ => .pure (.animation hplace hcommands)
    | sceneWord =>
      exact (newName_draws _ _).bind fun _ hname =>
        (blockWith_draws h.body _ _).bind fun _ hbody => .pure (.scene hplace hname hbody)
  · exact h.expression.bind fun _ hvalue => .pure (.expression hvalue)

end WithNested

/-- What a statement may nest comes from tokens at every room. -/
theorem nested_draws (room : Nat) : (nested room).Draws T := by
  induction room with
  | zero => exact ⟨expression_draws 0, .reject _, fun _ _ => .reject _⟩
  | succ below ih =>
    exact ⟨expression_draws (below + 1),
      statementsWith_draws (statementWith_draws ih) (inBlockAt below) false,
      fun _ hplace => branchWith_draws ih hplace⟩

/-- Programs come from tokens. -/
theorem program_draws : Draws T program fun p => ∀ stmt ∈ p.body, stmt.From T := by
  have hstatements : Draws T (statements maxDepth true) fun body => ∀ stmt ∈ body, stmt.From T :=
    statementsWith_draws (statementWith_draws (nested_draws _)) (inBlockAt maxDepth) true
  exact hstatements.bind fun _ hbody => .pure hbody

-- ============================================================================
-- Texts
-- ============================================================================

/-- Nothing is added to items of which the last is an end of input. -/
theorem Cursor.items_ofItems_concat (before : List Item) {last : Item}
    (hend : last.token.kind = .endOfInput) :
    (Cursor.ofItems (before ++ [last])).items = before ++ [last] := by
  cases before with
  | nil => simp [ofItems, items, closeAfter, hend]
  | cons first before =>
    rw [List.cons_append, ofItems, items, closeAfter_append, closeAfter, if_pos hend]

end Parse

/-- A token of a text other than a newline. -/
def InText (content : String) (token : Token) : Prop :=
  token ∈ tokenize content ∧ token.kind ≠ .newline

/-- The tokens of a text end with an end of input. -/
theorem Lexical.Splits.exists_concat {before text : List Char} {tokens : List Token}
    (h : Splits before text tokens) :
    ∃ init last, tokens = init ++ [last] ∧ last.kind = .endOfInput := by
  induction h with
  | done => exact ⟨[], _, rfl, rfl⟩
  | more _ _ _ _ ih =>
    obtain ⟨init, last, rfl, hlast⟩ := ih
    exact ⟨_ :: init, last, rfl, hlast⟩

namespace Parse

/-- The tokens of a text end with an end of input, so no item is added to theirs. -/
theorem Cursor.items_ofTokens_tokenize (content : String) :
    (ofTokens (tokenize content)).items = markLines false (tokenize content) := by
  obtain ⟨init, last, htokens, hlast⟩ :=
    (Lexical.splits_tokens (.ofText content) [] rfl).exists_concat
  change tokenize content = init ++ [last] at htokens
  have hkind : last.kind ≠ .newline := by
    rw [hlast]
    decide
  obtain ⟨startsLine, hmark⟩ := markLines_append_cons hkind false init
  rw [ofTokens, htokens, hmark, markLines]
  exact items_ofItems_concat _ hlast

/-- The items of a text are made of its tokens, and none is a newline. -/
theorem inText_of_mem_items {content : String} {item : Item}
    (h : item ∈ (Cursor.ofTokens (tokenize content)).items) : InText content item.token := by
  rw [Cursor.items_ofTokens_tokenize] at h
  have htoken := List.mem_map_of_mem (f := Item.token) h
  rw [markLines_map_token, List.mem_filter] at htoken
  exact ⟨htoken.1, by simpa using htoken.2⟩

end Parse

/-- What is parsed from a text comes from its tokens, and so do the places of the syntax errors. -/
theorem parse_tokenize_from {content : String} {p : Program} {errors : List SyntaxError}
    (h : parse (tokenize content) = .ok (p, errors)) :
    (∀ stmt ∈ p.body, stmt.From (InText content)) ∧
      ∀ error ∈ errors, Placed (InText content) error.location := by
  obtain ⟨t, hrun, rfl⟩ := program_of_parse h
  have hstart : (Parse.State.ofTokens (tokenize content)).Within (InText content) :=
    ⟨fun item hitem => Parse.inText_of_mem_items hitem, by simp [Parse.State.ofTokens]⟩
  obtain ⟨hend, hbody⟩ := Parse.program_draws.ok hstart hrun
  exact ⟨hbody, hend.errors⟩

end Storyboard
