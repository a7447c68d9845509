/-
  Storyboard.Proofs.Parse.Counting

  Parsers that count levels do what parsers that are given their room do.

  `Tracks quiet depth p q` compares the two side by side: begun at the given depth,
  the counting parser `p` ends as `q` does, in the same state, and at the depth at
  which it began. Besides, the cursor only moves on and errors are only added; a quiet
  parser adds none, also when it fails. There is one rule for each way to put parsers
  together, so the comparison goes through the grammar without running a parser.

  The depth does change on the way. What is nested runs one level deeper (`Tracks.nest`).
  A chain is deeper by one level for every operator that it took, and the number of
  levels it gives back is the number it took (`links_tracks`), whether it ends at a token
  that joins nothing, in an operand that fails, or because no level is left.

  `Entry.tracks` is the comparison for every entry of a session.
-/
import Storyboard.Parse.Counting
import Storyboard.Proofs.Parse.Stepwise

namespace Storyboard.Parse

-- ============================================================================
-- Side by side
-- ============================================================================

/-- The end of a run, with a depth beside its state. -/
def settle {α : Type} (depth : Int) :
    EStateM.Result Failure State α → EStateM.Result Failure Session α
  | .ok a t => .ok a ⟨t, depth⟩
  | .error failure t => .error failure ⟨t, depth⟩

/-- A state that comes after another: the cursor was moved on and errors were added, or none if
    the way there was quiet. -/
structure Onward (quiet : Bool) (s t : State) : Prop where
  reaches : s.cursor.Reaches t.cursor
  errors : ∃ new, t.errors = s.errors ++ new ∧ (quiet = true → new = [])

namespace Onward

variable {quiet : Bool} {s t u : State}

theorem refl (quiet : Bool) (s : State) : Onward quiet s s :=
  ⟨.here _, [], (List.append_nil _).symm, fun _ => rfl⟩

/-- Moving on adds no errors. -/
theorem of_reaches {c : Cursor} (h : s.cursor.Reaches c) :
    Onward quiet s { s with cursor := c } :=
  ⟨h, [], (List.append_nil _).symm, fun _ => rfl⟩

theorem trans (h : Onward quiet s t) (h' : Onward quiet t u) : Onward quiet s u := by
  obtain ⟨new, hnew, hquiet⟩ := h.errors
  obtain ⟨new', hnew', hquiet'⟩ := h'.errors
  refine ⟨h.reaches.trans h'.reaches, new ++ new', ?_, fun hq => ?_⟩
  · rw [hnew', hnew, List.append_assoc]
  · rw [hquiet hq, hquiet' hq, List.append_nil]

theorem loud (h : Onward quiet s t) : Onward false s t := by
  obtain ⟨new, hnew, -⟩ := h.errors
  exact ⟨h.reaches, new, hnew, fun hq => (Bool.false_ne_true hq).elim⟩

end Onward

/-- Begun at a depth, the first parser ends as the second does and at that depth. -/
def Tracks {α : Type} (quiet : Bool) (depth : Int) (p : Counting α) (q : Parser α) : Prop :=
  ∀ s : State, s.cursor.Closed →
    p ⟨s, depth⟩ = settle depth (q s) ∧ Onward quiet s (finalState (q s))

namespace Tracks

variable {α β : Type} {quiet : Bool} {depth : Int}

theorem loud {p : Counting α} {q : Parser α} (h : Tracks quiet depth p q) :
    Tracks false depth p q :=
  fun s hc => ⟨(h s hc).1, (h s hc).2.loud⟩

theorem pure (a : α) : Tracks quiet depth (Pure.pure a) (Pure.pure a) :=
  fun s _ => ⟨rfl, .refl quiet s⟩

theorem reject (problem : SyntaxProblem) :
    Tracks quiet depth (reject problem : Counting α) (Parse.reject problem) :=
  fun s _ => ⟨rfl, .refl quiet s⟩

theorem unexpected : Tracks quiet depth (unexpected : Counting α) Parse.unexpected :=
  fun s _ => ⟨rfl, .refl quiet s⟩

theorem peek : Tracks quiet depth peek Parse.peek := fun s _ => ⟨rfl, .refl quiet s⟩

theorem advance : Tracks quiet depth advance Parse.advance :=
  fun s _ => ⟨rfl, .of_reaches (.advance s.cursor)⟩

theorem expect (kind : Kind) (text : String) (hint : Option String) :
    Tracks quiet depth (expect kind text hint) (Parse.expect kind text hint) := by
  intro s hc
  by_cases hkind : s.cursor.kind = kind
  · have heq : (Parse.expect kind text hint : Counting Token) ⟨s, depth⟩ =
        Parse.advance ⟨s, depth⟩ := if_pos hkind
    rw [expect_apply, if_pos hkind, heq]
    exact advance s hc
  · have heq : (Parse.expect kind text hint : Counting Token) ⟨s, depth⟩ =
        Parse.reject (.missing text hint) ⟨s, depth⟩ := if_neg hkind
    rw [expect_apply, if_neg hkind, heq]
    exact reject _ s hc

/-- Two parsers one after the other. -/
theorem bind {p : Counting α} {q : Parser α} {f : α → Counting β} {g : α → Parser β}
    (hp : Tracks quiet depth p q) (hf : ∀ a, Tracks quiet depth (f a) (g a)) :
    Tracks quiet depth (p >>= f) (q >>= g) := by
  intro s hc
  obtain ⟨heq, honward⟩ := hp s hc
  change EStateM.bind p f ⟨s, depth⟩ = _ ∧ _
  rw [EStateM.bind, heq]
  cases hrun : q s with
  | ok a t =>
    rw [hrun] at honward
    obtain ⟨heq', honward'⟩ := hf a t (honward.reaches.closed hc)
    rw [bind_of_ok hrun]
    exact ⟨heq', honward.trans honward'⟩
  | error failure t =>
    rw [hrun] at honward
    rw [bind_of_error hrun]
    exact ⟨rfl, honward⟩

theorem accept (wanted : Kind → Bool) :
    Tracks quiet depth (accept wanted) (Parse.accept wanted) := by
  intro s hc
  by_cases hwanted : wanted s.cursor.kind = true
  · have heq : (Parse.accept wanted : Counting (Option Token)) ⟨s, depth⟩ =
        (some <$> Parse.advance : Counting (Option Token)) ⟨s, depth⟩ := if_pos hwanted
    rw [accept_apply, if_pos hwanted, heq]
    exact (bind advance fun token => pure (some token)) s hc
  · have heq : (Parse.accept wanted : Counting (Option Token)) ⟨s, depth⟩ = .ok none ⟨s, depth⟩ :=
      if_neg hwanted
    rw [accept_apply, if_neg hwanted, heq]
    exact pure none s hc

/-- A token that may come next, and then one parser or another. -/
theorem accept_bind {wanted : Kind → Bool} {f : Option Token → Counting β}
    {g : Option Token → Parser β}
    (hsome : ∀ token, Tracks quiet depth (f (some token)) (g (some token)))
    (hnone : Tracks quiet depth (f none) (g none)) :
    Tracks quiet depth (Parse.accept wanted >>= f) (Parse.accept wanted >>= g) := by
  refine bind (accept wanted) fun found => ?_
  cases found with
  | none => exact hnone
  | some token => exact hsome token

/-- The rounds of two loops go side by side. -/
theorem many {item : Counting (Option α)} {item' : Parser (Option α)}
    (h : Tracks quiet depth item item') : Tracks quiet depth (many item) (Parse.many item') := by
  intro s hc
  -- In every case one round of the item is compared first, and then the rest of the loop from where
  -- it ended.
  fun_induction Parse.many item' s with
  | case1 s failure t hitem =>
    obtain ⟨heq, honward⟩ := h s hc
    rw [hitem] at heq honward
    rw [Parse.many, heq]
    exact ⟨rfl, honward⟩
  | case2 s t hitem =>
    obtain ⟨heq, honward⟩ := h s hc
    rw [hitem] at heq honward
    rw [Parse.many, heq]
    exact ⟨rfl, honward⟩
  | case3 s a t hitem hlt as u hmany ih =>
    obtain ⟨heq, honward⟩ := h s hc
    rw [hitem] at heq honward
    obtain ⟨heq', honward'⟩ := ih (honward.reaches.closed hc)
    rw [hmany] at heq' honward'
    rw [Parse.many, heq]
    refine ⟨?_, honward.trans honward'⟩
    refine (if_pos hlt).trans ?_
    rw [heq']
    rfl
  | case4 s a t hitem hlt failure u hmany ih =>
    obtain ⟨heq, honward⟩ := h s hc
    rw [hitem] at heq honward
    obtain ⟨heq', honward'⟩ := ih (honward.reaches.closed hc)
    rw [hmany] at heq' honward'
    rw [Parse.many, heq]
    refine ⟨?_, honward.trans honward'⟩
    refine (if_pos hlt).trans ?_
    rw [heq']
    rfl
  | case5 s a t hitem hge =>
    obtain ⟨heq, honward⟩ := h s hc
    rw [hitem] at heq honward
    rw [Parse.many, heq]
    exact ⟨if_neg hge, honward⟩

/-- Both sides recover from an error in the same way: what is left of the room at the depth of the
    session says whether a brace may end a block. -/
theorem attempt {one : Counting Stmt} {one' : Parser Stmt} (h : Tracks quiet depth one one') :
    Tracks false depth (Counting.attempt one) (Parse.attempt (inBlockAt (roomAt depth)) one') := by
  intro s hc
  obtain ⟨heq, honward⟩ := h s hc
  rw [Counting.attempt, Parse.attempt, heq]
  cases hrun : one' s with
  | ok stmt t =>
    rw [hrun] at honward
    exact ⟨rfl, honward.loud⟩
  | error failure t =>
    rw [hrun] at honward
    cases failure with
    | notNumber text => exact ⟨rfl, honward.loud⟩
    | rejected error =>
      refine ⟨rfl, honward.loud.trans ⟨?_, [error], rfl, fun hq => (Bool.false_ne_true hq).elim⟩⟩
      exact State.reaches_recover (honward.reaches.closed hc) _ _

end Tracks

-- ============================================================================
-- Levels
-- ============================================================================

/-- No level is left just if one more would be too deep. -/
theorem roomAt_eq_zero_iff (depth : Int) : roomAt depth = 0 ↔ depth + 1 > maxDepth := by
  simp only [roomAt]
  omega

/-- One level deeper there is one level less. -/
theorem roomAt_succ {depth : Int} {below : Nat} (h : roomAt depth = below + 1) :
    roomAt (depth + 1) = below := by
  simp only [roomAt] at h ⊢
  omega

/-- Deeper there is no more room. -/
theorem roomAt_le {depth deeper : Int} (h : depth ≤ deeper) : roomAt deeper ≤ roomAt depth := by
  simp only [roomAt]
  omega

/-- With a level left, one level deeper nothing is refused. -/
theorem guarded_of_room {α : Type} {depth : Int} {below : Nat} (hroom : roomAt depth = below + 1)
    (p : Counting α) (s : State) : Counting.guarded p ⟨s, depth + 1⟩ = p ⟨s, depth + 1⟩ := by
  refine if_neg fun hdeep => ?_
  rw [(roomAt_eq_zero_iff depth).mpr hdeep] at hroom
  exact Nat.succ_ne_zero below hroom.symm

/-- With none left, everything is. -/
theorem guarded_of_full {α : Type} {depth : Int} (hroom : roomAt depth = 0) (p : Counting α)
    (s : State) : Counting.guarded p ⟨s, depth + 1⟩ = settle (depth + 1) (tooDeep s) :=
  if_pos ((roomAt_eq_zero_iff depth).mp hroom)

/-- Giving back the levels that were taken leads back to the depth before. -/
theorem lowered_settle {α : Type} (levels : Nat) (depth : Int)
    (r : EStateM.Result Failure State α) :
    Counting.lowered levels (settle (depth + levels) r) = settle depth r := by
  cases r with
  | ok a t => simp only [settle, Counting.lowered, Int.add_sub_cancel]
  | error failure t => simp only [settle, Counting.lowered, Int.add_sub_cancel]

namespace Tracks

variable {α : Type} {quiet : Bool} {depth : Int} {below : Nat}

/-- What is nested runs one level deeper, if there is one. -/
theorem nest {p : Counting α} {q : Parser α} (hroom : roomAt depth = below + 1)
    (h : Tracks quiet (depth + 1) p q) : Tracks quiet depth (Counting.nest p) q := by
  intro s hc
  obtain ⟨heq, honward⟩ := h s hc
  refine ⟨?_, honward⟩
  change Counting.lowered 1 (Counting.guarded p ⟨s, depth + 1⟩) = _
  rw [guarded_of_room hroom, heq]
  exact lowered_settle 1 depth (q s)

/-- With no level left, what is nested is refused. -/
theorem nest_tooDeep {p : Counting α} (hroom : roomAt depth = 0) :
    Tracks quiet depth (Counting.nest p) tooDeep := by
  intro s _
  refine ⟨?_, .refl quiet s⟩
  change Counting.lowered 1 (Counting.guarded p ⟨s, depth + 1⟩) = _
  rw [guarded_of_full hroom]
  exact lowered_settle 1 depth _

end Tracks

-- ============================================================================
-- Expressions
-- ============================================================================

/-- Lists between commas. -/
theorem separated_tracks {α : Type} {quiet : Bool} {depth : Int} {item : Counting α}
    {item' : Parser α} (h : Tracks quiet depth item item') :
    Tracks quiet depth (separated item) (separated item') := by
  unfold separated
  refine .bind .peek fun start => ?_
  split
  · exact .pure []
  · refine h.bind fun first => .bind (.many ?_) fun others => .pure (first :: others)
    exact .accept_bind (fun _ => h.bind fun a => .pure (some a)) (.pure none)

theorem numberOf_tracks {quiet : Bool} {depth : Int} (token : Token) :
    Tracks quiet depth (numberOf token) (numberOf token) := by
  unfold numberOf
  split
  · exact .pure _
  · exact fun s _ => ⟨rfl, .refl quiet s⟩

section WithNested

variable {quiet : Bool} {depth : Int} {nested : Counting Expr} {nested' : Parser Expr}
  (h : Tracks quiet depth nested nested')
include h

theorem primaryWith_tracks : Tracks quiet depth (primaryWith nested) (primaryWith nested') := by
  unfold primaryWith
  refine .bind .peek fun start => ?_
  dsimp only
  generalize start.token.kind = kind
  split
  · exact .bind .advance fun _ => numberOf_tracks _
  · exact .bind .advance fun _ => .pure _
  · exact .bind .advance fun _ => .pure _
  · exact .bind .advance fun _ => .pure _
  · exact .bind .advance fun _ => h.bind fun inner => .bind (.expect _ _ _) fun _ => .pure inner
  · exact .unexpected

theorem pointWith_tracks (what hint : String) :
    Tracks quiet depth (pointWith nested what hint) (pointWith nested' what hint) :=
  .bind (.expect _ _ _) fun _ => h.bind fun x => .bind (.expect _ _ _) fun _ =>
    h.bind fun y => .bind (.expect _ _ _) fun _ => .pure (Point.mk x y)

theorem clauseWith_tracks (kind : Kind) (keyword hint : String) :
    Tracks quiet depth (clauseWith nested kind keyword hint)
      (clauseWith nested' kind keyword hint) :=
  .bind (.expect _ _ _) fun _ => h

theorem shapeWith_tracks : Tracks quiet depth (shapeWith nested) (shapeWith nested') := by
  have hpoint := pointWith_tracks h
  have hclause := clauseWith_tracks h
  unfold shapeWith
  refine .bind .peek fun start => ?_
  dsimp only
  generalize start.token.kind = kind
  split
  · rename_i word
    refine .bind .advance fun _ => ?_
    cases word with
    | circle =>
      exact .bind (.expect _ _ _) fun _ => .bind (hpoint _ _) fun _ =>
        .bind (hclause _ _ _) fun _ => .bind (hclause _ _ _) fun _ => .pure _
    | rect =>
      exact .bind (.expect _ _ _) fun _ => .bind (hpoint _ _) fun _ =>
        .bind (hclause _ _ _) fun _ => .bind (hclause _ _ _) fun _ =>
          .bind (hclause _ _ _) fun _ => .pure _
    | line =>
      exact .bind (hpoint _ _) fun _ => .bind (hpoint _ _) fun _ =>
        .bind (hclause _ _ _) fun _ => .pure _
    | triangle =>
      exact .bind (hpoint _ _) fun _ => .bind (hpoint _ _) fun _ => .bind (hpoint _ _) fun _ =>
        .bind (hclause _ _ _) fun _ => .pure _
  · exact primaryWith_tracks h

theorem callWith_tracks : Tracks quiet depth (callWith nested) (callWith nested') :=
  .bind (shapeWith_tracks h) fun callee => .accept_bind
    (fun _ => .bind (separated_tracks h) fun _ => .bind (.expect _ _ _) fun _ => .pure _)
    (.pure callee)

end WithNested

section Links

variable {joins : Kind → Bool} {operand : Counting Expr} {left : Expr} {taken : Nat} {s : State}
  {depth : Int}

theorem accept_counting (hjoin : joins s.cursor.kind = true) :
    (accept joins : Counting (Option Token)) ⟨s, depth⟩ =
      .ok (some s.cursor.current.token) ⟨{ s with cursor := s.cursor.advance }, depth⟩ :=
  if_pos hjoin

theorem accept_plain (hjoin : joins s.cursor.kind = true) :
    (accept joins : Parser (Option Token)) s =
      .ok (some s.cursor.current.token) { s with cursor := s.cursor.advance } :=
  if_pos hjoin

/-- A token that joins nothing ends the counting. -/
theorem links_of_ends (hjoin : ¬joins s.cursor.kind = true) :
    Counting.links joins operand left taken ⟨s, depth⟩ = (taken, .ok left ⟨s, depth⟩) := by
  have haccept : (accept joins : Counting (Option Token)) ⟨s, depth⟩ = .ok none ⟨s, depth⟩ :=
    if_neg hjoin
  rw [Counting.links, haccept]

/-- So does an operand that cannot be read; the level of its operator is counted. -/
theorem links_of_error {failure : Failure} {u : Session} (hjoin : joins s.cursor.kind = true)
    (h : Counting.guarded operand ⟨{ s with cursor := s.cursor.advance }, depth + 1⟩ =
      .error failure u) :
    Counting.links joins operand left taken ⟨s, depth⟩ = (taken + 1, .error failure u) := by
  rw [Counting.links, accept_counting hjoin]
  dsimp only [Counting.deepen]
  rw [h]

/-- After an operand the counting goes on. -/
theorem links_of_ok {right : Expr} {u : Session} (hjoin : joins s.cursor.kind = true)
    (h : Counting.guarded operand ⟨{ s with cursor := s.cursor.advance }, depth + 1⟩ = .ok right u)
    (hlt : u.state.cursor.remaining < s.cursor.remaining) :
    Counting.links joins operand left taken ⟨s, depth⟩ =
      Counting.links joins operand
        (.binary s.cursor.current.token.text left right s.cursor.current.token.location)
        (taken + 1) u := by
  rw [Counting.links, accept_counting hjoin]
  dsimp only [Counting.deepen]
  rw [h]
  exact if_pos hlt

/-- A token that joins nothing ends a chain. -/
theorem chainFrom_of_ends (hjoin : ¬joins s.cursor.kind = true) (room : Nat) (operand : UpTo room)
    (left : Expr) : chainFrom joins room operand left s = .ok left s := by
  have haccept : (accept joins : Parser (Option Token)) s = .ok none s := if_neg hjoin
  cases room with
  | zero => exact bind_of_ok haccept
  | succ room => exact bind_of_ok haccept

/-- An operator and an operand, and then the chain goes on with a level less. -/
theorem chainFrom_of_joins (hjoin : joins s.cursor.kind = true) (operands : Nat → Parser Expr)
    (room : Nat) (left : Expr) :
    chainFrom joins (room + 1) (fun levels _ => operands levels) left s =
      (operands room >>= fun right => chainFrom joins room (fun levels _ => operands levels)
        (.binary s.cursor.current.token.text left right s.cursor.current.token.location))
          { s with cursor := s.cursor.advance } :=
  bind_of_ok (accept_plain hjoin)

/-- An operator for which no level is left. -/
theorem chainFrom_full (hjoin : joins s.cursor.kind = true) (operand : UpTo 0) (left : Expr) :
    chainFrom joins 0 operand left s = tooDeep { s with cursor := s.cursor.advance } :=
  bind_of_ok (accept_plain hjoin)

/-- Operators and operands. The levels counted are those by which the depth has grown. Each
    operator takes one, so the induction is on the room. -/
theorem links_tracks (hjoins : joins .endOfInput = false) {operands : Nat → Parser Expr}
    {room : Nat} (hroom : roomAt depth = room)
    (h : ∀ deeper, depth ≤ deeper → Tracks true deeper operand (operands (roomAt deeper)))
    (left : Expr) (taken : Nat) (s : State) (hc : s.cursor.Closed) :
    ∃ levels : Nat, Counting.links joins operand left taken ⟨s, depth⟩ =
        (taken + levels, settle (depth + levels)
          (chainFrom joins room (fun levels _ => operands levels) left s)) ∧
      Onward true s
        (finalState (chainFrom joins room (fun levels _ => operands levels) left s)) := by
  induction room generalizing depth left taken s with
  | zero =>
    by_cases hjoin : joins s.cursor.kind = true
    · rw [chainFrom_full hjoin, links_of_error hjoin (guarded_of_full hroom _ _)]
      exact ⟨1, rfl, .of_reaches (.advance _)⟩
    · rw [links_of_ends hjoin, chainFrom_of_ends hjoin]
      exact ⟨0, by simp [settle], .refl true s⟩
  | succ room ih =>
    by_cases hjoin : joins s.cursor.kind = true
    · have hdeeper := roomAt_succ hroom
      have hstep : Onward true s { s with cursor := s.cursor.advance } := .of_reaches (.advance _)
      obtain ⟨heq, honward⟩ := h (depth + 1) (by omega) _ (hstep.reaches.closed hc)
      rw [hdeeper] at heq honward
      have hguarded := (guarded_of_room hroom operand _).trans heq
      rw [chainFrom_of_joins hjoin]
      cases hrun : operands room { s with cursor := s.cursor.advance } with
      | error failure u =>
        rw [hrun] at hguarded honward
        rw [links_of_error hjoin hguarded, bind_of_error hrun]
        exact ⟨1, rfl, hstep.trans honward⟩
      | ok right u =>
        rw [hrun] at hguarded honward
        -- The operator is no end of input, so its token was passed.
        have hlt : u.cursor.remaining < s.cursor.remaining := by
          have hkind : s.cursor.kind ≠ .endOfInput := by
            intro hend
            rw [hend, hjoins] at hjoin
            exact Bool.false_ne_true hjoin
          have hpass := (hc.passes_advance hkind).remaining_lt (List.cons_ne_nil _ _)
          exact Nat.lt_of_le_of_lt honward.reaches.remaining_le hpass
        rw [links_of_ok hjoin hguarded hlt, bind_of_ok hrun]
        obtain ⟨levels, hlinks, hrest⟩ := ih hdeeper (fun deeper hle => h deeper (by omega))
          (.binary s.cursor.current.token.text left right s.cursor.current.token.location)
          (taken + 1) u (honward.reaches.closed (hstep.reaches.closed hc))
        have hlevels : depth + 1 + levels = depth + ((levels + 1 : Nat) : Int) := by omega
        refine ⟨levels + 1, hlinks.trans ?_, (hstep.trans honward).trans hrest⟩
        rw [hlevels, Nat.add_assoc, Nat.add_comm 1 levels]
    · rw [links_of_ends hjoin, chainFrom_of_ends hjoin]
      exact ⟨0, by simp [settle], .refl true s⟩

end Links

/-- A chain gives back as many levels as it took. -/
theorem chain_tracks {joins : Kind → Bool} (hjoins : joins .endOfInput = false)
    {operand : Counting Expr} (operands : Nat → Parser Expr) {depth : Int}
    (h : ∀ deeper, depth ≤ deeper → Tracks true deeper operand (operands (roomAt deeper))) :
    Tracks true depth (Counting.chain joins operand)
      (chain joins (roomAt depth) fun levels _ => operands levels) := by
  refine (h depth (Int.le_refl depth)).bind fun first s hc => ?_
  obtain ⟨levels, hlinks, honward⟩ := links_tracks hjoins rfl h first 0 s hc
  refine ⟨?_, honward⟩
  rw [hlinks, Nat.zero_add]
  exact lowered_settle levels depth _

section WithNested

variable {depth : Int} {nested : Counting Expr}
  (h : ∀ deeper, depth ≤ deeper → Tracks true deeper nested (expression (roomAt deeper)))
include h

theorem product_tracks :
    Tracks true depth (Counting.productWith nested) (product (roomAt depth)) :=
  chain_tracks (by decide) (fun levels => callWith (expression levels)) fun deeper hle =>
    callWith_tracks (h deeper hle)

theorem sum_tracks : Tracks true depth (Counting.sumWith nested) (sum (roomAt depth)) :=
  chain_tracks (by decide) product fun deeper hle =>
    product_tracks fun further hle' => h further (Int.le_trans hle hle')

theorem comparison_tracks :
    Tracks true depth (Counting.comparisonWith nested) (comparison (roomAt depth)) := by
  refine (sum_tracks h).bind fun left => .accept_bind (fun operator => ?_) (.pure left)
  cases hroom : roomAt depth with
  | zero => exact .nest_tooDeep hroom
  | succ below =>
    have hsum := sum_tracks fun deeper (hle : depth + 1 ≤ deeper) => h deeper (by omega)
    rw [roomAt_succ hroom] at hsum
    exact .nest hroom (hsum.bind fun right => .pure _)

end WithNested

/-- Expressions, if they may come back to themselves as often as there are levels left. -/
theorem expressionWithin_tracks {levels : Nat} {depth : Int} (h : roomAt depth ≤ levels) :
    Tracks true depth (Counting.expressionWithin levels) (expression (roomAt depth)) := by
  induction levels generalizing depth with
  | zero =>
    have hroom := Nat.le_zero.mp h
    rw [hroom, expression]
    exact .nest_tooDeep hroom
  | succ levels ih =>
    cases hroom : roomAt depth with
    | zero =>
      rw [expression]
      exact .nest_tooDeep hroom
    | succ below =>
      have hbelow := roomAt_succ hroom
      have hcomparison := comparison_tracks fun deeper (hle : depth + 1 ≤ deeper) =>
        ih (Nat.le_trans (roomAt_le hle) (by omega))
      rw [hbelow] at hcomparison
      rw [expression]
      exact .nest hroom hcomparison

theorem expression_tracks (depth : Int) :
    Tracks true depth Counting.expression (expression (roomAt depth)) :=
  fun s hc => expressionWithin_tracks (Nat.le_refl (roomAt depth)) s hc

-- ============================================================================
-- Statements
-- ============================================================================

/-- The commands of an `animate` block. -/
theorem commandsWith_tracks {quiet : Bool} {depth : Int} {nested : Counting Expr}
    {nested' : Parser Expr} (h : Tracks quiet depth nested nested') :
    Tracks quiet depth (commandsWith nested) (commandsWith nested') := by
  have hamount : Tracks quiet depth (amountWith nested) (amountWith nested') :=
    primaryWith_tracks h
  have hdirection : Tracks quiet depth direction direction := by
    unfold direction
    refine .bind .peek fun start => ?_
    generalize start.token.kind = kind
    split
    · exact .bind .advance fun _ => .pure _
    · exact .pure _
  have hcommand : Tracks quiet depth (commandWith nested) (commandWith nested') := by
    unfold commandWith
    refine .bind .advance fun token => ?_
    generalize token.kind = kind
    split
    · exact .bind hamount fun _ => .bind hdirection fun _ => .pure _
    · exact .bind hamount fun _ => .pure _
    · exact .bind hamount fun _ => .pure _
    · exact .bind hamount fun _ => .pure _
    · exact .pure _
  unfold commandsWith
  refine .bind (.many (.bind .peek fun start => ?_)) fun found => .pure _
  dsimp only
  split
  · exact .pure none
  · exact hcommand.bind fun _ => .pure _

/-- Statements by attempts. -/
theorem statementsBy_tracks {depth : Int} {attempted : Counting (Option Stmt)}
    {attempted' : Parser (Option Stmt)} (h : Tracks false depth attempted attempted')
    (topLevel : Bool) :
    Tracks false depth (statementsBy topLevel attempted) (statementsBy topLevel attempted') := by
  unfold statementsBy
  refine .bind (.many (.bind .peek fun start => ?_)) fun found => .pure _
  dsimp only
  split
  · exact .pure none
  · exact h.bind fun _ => .pure _

/-- Statements in braces. -/
theorem blockWith_tracks {depth : Int} {body : Counting (List Stmt)} {body' : Parser (List Stmt)}
    (h : Tracks false depth body body') (opening closing : String) :
    Tracks false depth (blockWith body opening closing) (blockWith body' opening closing) :=
  .bind (.expect _ _ _) fun _ => h.bind fun statements => .bind (.expect _ _ _) fun _ =>
    .pure statements

theorem newName_tracks {depth : Int} (text : String) (hint : Option String) :
    Tracks false depth (newName text hint) (newName text hint) :=
  .bind (.expect _ _ _) fun _ => .pure _

/-- `Tracks` for all that a statement may nest. -/
structure NestedOver.Tracks (depth : Int) (nested : NestedOver Session) (nested' : Nested) :
    Prop where
  expression : Parse.Tracks false depth nested.expression nested'.expression
  body : Parse.Tracks false depth nested.body nested'.body
  chained : ∀ location,
    Parse.Tracks false depth (nested.chained location) (nested'.chained location)

section WithNested

variable {depth : Int} {nested : NestedOver Session} {nested' : Nested}
  (h : nested.Tracks depth nested') (location : Location)
include h

omit location in
theorem elseWith_tracks : Tracks false depth (elseWith nested) (elseWith nested') :=
  .accept_bind (fun token => (h.chained token.location).bind fun stmt => .pure [stmt])
    (blockWith_tracks h.body _ _)

theorem branchWith_tracks :
    Tracks false depth (branchWith nested location) (branchWith nested' location) :=
  h.expression.bind fun _ => .bind (blockWith_tracks h.body _ _) fun _ =>
    .accept_bind (fun _ => .bind (elseWith_tracks h) fun _ => .pure _) (.pure _)

theorem functionWith_tracks :
    Tracks false depth (functionWith nested location) (functionWith nested' location) :=
  .bind (newName_tracks _ _) fun _ => .bind (.expect _ _ _) fun _ =>
    .bind (separated_tracks (newName_tracks _ _)) fun _ => .bind (.expect _ _ _) fun _ =>
      .bind (blockWith_tracks h.body _ _) fun _ => .pure _

theorem giveBackWith_tracks :
    Tracks false depth (giveBackWith nested location) (giveBackWith nested' location) := by
  unfold giveBackWith
  refine .bind .peek fun item => ?_
  split
  · exact .pure _
  · exact h.expression.bind fun _ => .pure _

omit location in
/-- Statements, by their keywords. -/
theorem statementWith_tracks :
    Tracks false depth (statementWith nested) (statementWith nested') := by
  unfold statementWith
  refine .bind .peek fun start => ?_
  dsimp only
  generalize start.token.kind = kind
  split
  · rename_i word
    refine .bind .advance fun _ => ?_
    cases word with
    | letWord =>
      exact .bind (newName_tracks _ _) fun _ => .bind (.expect _ _ _) fun _ =>
        h.expression.bind fun _ => .pure _
    | fnWord => exact functionWith_tracks h _
    | returnWord => exact giveBackWith_tracks h _
    | ifWord => exact branchWith_tracks h _
    | repeatWord =>
      exact h.expression.bind fun _ => .bind (blockWith_tracks h.body _ _) fun _ => .pure _
    | animateWord =>
      exact .bind (.expect _ _ _) fun _ => .bind (commandsWith_tracks h.expression) fun _ =>
        .bind (.expect _ _ _) fun _ => .pure _
    | sceneWord =>
      exact .bind (newName_tracks _ _) fun _ =>
        .bind (blockWith_tracks h.body _ _) fun _ => .pure _
  · exact h.expression.bind fun _ => .pure _

end WithNested

/-- What a statement may nest, if it may come back to itself as often as there are levels left. -/
theorem nestedWithin_tracks {levels : Nat} {depth : Int} (h : roomAt depth ≤ levels) :
    (Counting.nestedWithin levels).Tracks depth (nested (roomAt depth)) := by
  -- At no room both parsers stop. With some, what is nested is a level deeper, where there is one
  -- level less to come back.
  induction levels generalizing depth with
  | zero =>
    have hroom := Nat.le_zero.mp h
    have hexpression := (expression_tracks depth).loud
    rw [hroom] at hexpression ⊢
    exact ⟨hexpression, .nest_tooDeep hroom, fun _ => .nest_tooDeep hroom⟩
  | succ levels ih =>
    have hexpression := (expression_tracks depth).loud
    cases hroom : roomAt depth with
    | zero =>
      rw [hroom] at hexpression
      exact ⟨hexpression, .nest_tooDeep hroom, fun _ => .nest_tooDeep hroom⟩
    | succ below =>
      have hbelow := roomAt_succ hroom
      have hnested : (Counting.nestedWithin levels).Tracks (depth + 1) (nested below) := by
        rw [← hbelow]
        exact ih (by omega)
      have hbody := statementsBy_tracks (statementWith_tracks hnested).attempt false
      rw [hbelow] at hbody
      rw [hroom] at hexpression
      exact ⟨hexpression, .nest hroom hbody,
        fun location => .nest hroom (branchWith_tracks hnested location)⟩

-- ============================================================================
-- Entries
-- ============================================================================

namespace Entry

/-- The parser of an entry that is given its room. -/
def withRoom : (entry : Entry) → (room : Nat) → Parser entry.Value
  | .program, room => programAt room
  | .statements topLevel, room => Parse.statements room topLevel
  | .statement, room => Parse.statement room
  | .block opening closing, room => Parse.block room opening closing
  | .expression, room => Parse.expression room
  | .comparison, room => Parse.comparison room
  | .sum, room => Parse.sum room
  | .product, room => Parse.product room
  | .call, room => Parse.call room
  | .shape, room => Parse.shape room
  | .point what hint, room => Parse.point room what hint
  | .clause kind keyword hint, room => Parse.clause room kind keyword hint
  | .primary, room => Parse.primary room

/-- Whether an entry may survive errors: those that read statements do. -/
def survives : Entry → Bool
  | .program | .statements _ | .statement | .block _ _ => true
  | _ => false

/-- Every entry does what its parser that is given the room does, and ends at the depth at which
    it began. -/
theorem tracks (entry : Entry) (depth : Int) :
    Tracks (!entry.survives) depth entry.parser (entry.withRoom (roomAt depth)) := by
  have hexpression := expression_tracks depth
  have hdeeper : ∀ deeper, depth ≤ deeper →
      Tracks true deeper Counting.expression (Parse.expression (roomAt deeper)) :=
    fun deeper _ => expression_tracks deeper
  have hnested : (Counting.nestedWithin (roomAt depth)).Tracks depth (nested (roomAt depth)) :=
    nestedWithin_tracks (Nat.le_refl _)
  have hstatement : Tracks false depth Counting.statement (Parse.statement (roomAt depth)) :=
    fun s hc => statementWith_tracks hnested s hc
  have hstatements := statementsBy_tracks hstatement.attempt
  cases entry with
  | program => exact (hstatements true).bind fun _ => .pure _
  | statements topLevel => exact hstatements topLevel
  | statement => exact hstatement
  | block opening closing => exact fun s hc => blockWith_tracks hnested.body opening closing s hc
  | expression => exact hexpression
  | comparison => exact comparison_tracks hdeeper
  | sum => exact sum_tracks hdeeper
  | product => exact product_tracks hdeeper
  | call => exact callWith_tracks hexpression
  | shape => exact shapeWith_tracks hexpression
  | point what hint => exact pointWith_tracks hexpression what hint
  | clause kind keyword hint => exact clauseWith_tracks hexpression kind keyword hint
  | primary => exact primaryWith_tracks hexpression

end Entry

/-- A session that counts from its start gives the program that parsing gives. -/
theorem program_counted (tokens : List Token) :
    Counting.program (.ofTokens tokens) = settle 0 (program (.ofTokens tokens)) :=
  (Entry.program.tracks 0 (.ofTokens tokens) (Cursor.closed_ofTokens tokens)).1

end Storyboard.Parse
