/-
  Storyboard.Proofs.Parse.Blame

  Syntax errors come in the order of the source, and no token is blamed often.

  Every error is at the place of a token, so it has an index among the items, its mark.
  `Blamed` says where the marks of a run are. A run that succeeds leaves marks only on
  items that it has passed. So does a run that is rejected, but for marks at the end of
  input: those of a statement in a block that is never closed.

  Marks of runs one after the other are therefore apart from each other. They meet in a
  list of statements only. Reading may go on at the very token that was blamed, but the
  statement that begins there either passes it or is rejected at it, and then the token
  is passed in the recovery. So it is blamed once more at most, and each list around the
  end of input blames that once.
-/
import Storyboard.Proofs.Parse.Provenance
import Storyboard.Proofs.Parse.Stepwise
import Storyboard.Proofs.Source.Places
import Storyboard.Proofs.Token.Numbers

namespace Storyboard

namespace Parse

-- ============================================================================
-- Marks
-- ============================================================================

/-- Indices in ascending order, none of them below `low`, and each at most as often as its limit
    allows. -/
structure Spread (limit : Nat → Nat) (low : Nat) (marks : List Nat) : Prop where
  sorted : marks.Pairwise (· ≤ ·)
  low_le : ∀ k ∈ marks, low ≤ k
  count_le : ∀ k, marks.count k ≤ limit k

namespace Spread

variable {limit limit' : Nat → Nat} {low mid : Nat} {marks marks' : List Nat}

theorem nil : Spread limit low [] := ⟨.nil, by simp, by simp⟩

/-- Without any marks allowed there are none. -/
theorem eq_nil (h : Spread (fun _ => 0) low marks) : marks = [] := by
  refine List.eq_nil_iff_forall_not_mem.mpr fun k hk => ?_
  exact absurd (List.count_pos_iff.mpr hk) (Nat.not_lt.mpr (h.count_le k))

theorem mono (h : Spread limit mid marks) (hlimit : ∀ k, limit k ≤ limit' k) (hlow : low ≤ mid) :
    Spread limit' low marks :=
  ⟨h.sorted, fun k hk => Nat.le_trans hlow (h.low_le k hk),
    fun k => Nat.le_trans (h.count_le k) (hlimit k)⟩

/-- There is no mark below all of them. -/
theorem count_eq_zero (h : Spread limit mid marks) {k : Nat} (hk : k < mid) : marks.count k = 0 :=
  List.count_eq_zero.mpr fun hmem => Nat.not_le.mpr hk (h.low_le k hmem)

/-- Marks one after the other, with counts that fit together where they meet. -/
theorem append_of_count (h : Spread limit low marks) (h' : Spread limit mid marks')
    (hmid : low ≤ mid) (hle : ∀ k ∈ marks, k ≤ mid)
    (hmeet : marks.count mid + marks'.count mid ≤ limit mid) :
    Spread limit low (marks ++ marks') := by
  refine ⟨List.pairwise_append.mpr ⟨h.sorted, h'.sorted, ?_⟩, ?_, fun k => ?_⟩
  · intro j hj k hk
    exact Nat.le_trans (hle j hj) (h'.low_le k hk)
  · intro k hk
    rcases List.mem_append.mp hk with hk | hk
    · exact h.low_le k hk
    · exact Nat.le_trans hmid (h'.low_le k hk)
  · rw [List.count_append]
    obtain hlt | rfl | hgt := Nat.lt_trichotomy k mid
    · rw [h'.count_eq_zero hlt]
      exact h.count_le k
    · exact hmeet
    · rw [List.count_eq_zero.mpr fun hk => Nat.not_le.mpr hgt (hle k hk), Nat.zero_add]
      exact h'.count_le k

/-- Marks that are apart from each other. -/
theorem append (h : Spread limit low marks) (h' : Spread limit mid marks') (hmid : low ≤ mid)
    (hlt : ∀ k ∈ marks, k < mid) : Spread limit low (marks ++ marks') := by
  refine h.append_of_count h' hmid (fun k hk => Nat.le_of_lt (hlt k hk)) ?_
  rw [List.count_eq_zero.mpr fun hmem => Nat.lt_irrefl mid (hlt mid hmem), Nat.zero_add]
  exact h'.count_le mid

end Spread

/-- The place of the item at an index. -/
def placeAt (all : List Item) (k : Nat) : Option Location :=
  all[k]?.map fun item => item.token.location

/-- Whether the item at an index is an end of input. -/
def endsAt (all : List Item) (k : Nat) : Bool :=
  all[k]?.any fun item => item.token.kind = .endOfInput

/-- How often the item at an index may be blamed: an end of input as often as said, and any other
    token twice. -/
def allowance (all : List Item) (atEnd k : Nat) : Nat := if endsAt all k then atEnd else 2

theorem allowance_mono (all : List Item) {atEnd atEnd' : Nat} (h : atEnd ≤ atEnd') (k : Nat) :
    allowance all atEnd k ≤ allowance all atEnd' k := by
  unfold allowance
  split
  · exact h
  · exact Nat.le_refl 2

/-- A closed cursor on a list of items. -/
structure Cursor.On (all : List Item) (c : Cursor) : Prop where
  items_eq : c.items = all.drop c.index
  closed : c.Closed

namespace Cursor.On

variable {all : List Item} {c d : Cursor}

theorem of_reaches (h : c.On all) (hreaches : c.Reaches d) : d.On all :=
  ⟨hreaches.items_eq_drop h.items_eq, hreaches.closed h.closed⟩

/-- The current item is the one at the index. -/
theorem getElem?_index (h : c.On all) : all[c.index]? = some c.current := by
  have hfirst : (all.drop c.index)[0]? = some c.current := by
    rw [← h.items_eq]
    rfl
  simpa using hfirst

/-- There is one item at an index. -/
theorem current_eq (h : c.On all) (h' : d.On all) (hindex : c.index = d.index) :
    c.current = d.current := by
  have hcurrent := h.getElem?_index
  rw [hindex, h'.getElem?_index] at hcurrent
  exact (Option.some.inj hcurrent).symm

theorem placeAt_index (h : c.On all) : placeAt all c.index = some c.location := by
  rw [placeAt, h.getElem?_index]
  rfl

theorem endsAt_index (h : c.On all) : endsAt all c.index = decide (c.kind = .endOfInput) := by
  rw [endsAt, h.getElem?_index]
  rfl

theorem advance_index (h : c.On all) (hkind : c.kind ≠ .endOfInput) :
    c.advance.index = c.index + 1 := (h.closed.passes_advance hkind).index_eq

end Cursor.On

/-- A way from one state to another on which errors are added at the items of the marks. -/
structure Adds (all : List Item) (s t : State) (marks : List Nat) : Prop where
  reaches : s.cursor.Reaches t.cursor
  errors : ∃ new, t.errors = s.errors ++ new ∧
    new.map (fun error => some error.location) = marks.map (placeAt all)

namespace Adds

variable {all : List Item} {s t u : State} {marks marks' : List Nat}

/-- A way on which no errors are added. -/
theorem of_reaches (h : s.cursor.Reaches t.cursor) (herrors : t.errors = s.errors) :
    Adds all s t [] := ⟨h, [], by rw [herrors, List.append_nil], rfl⟩

theorem refl (s : State) : Adds all s s [] := of_reaches (.here _) rfl

theorem trans (h : Adds all s t marks) (h' : Adds all t u marks') :
    Adds all s u (marks ++ marks') := by
  obtain ⟨new, herrors, hmarks⟩ := h.errors
  obtain ⟨new', herrors', hmarks'⟩ := h'.errors
  refine ⟨h.reaches.trans h'.reaches, new ++ new', ?_, ?_⟩
  · rw [herrors', herrors, List.append_assoc]
  · rw [List.map_append, List.map_append, hmarks, hmarks']

end Adds

-- ============================================================================
-- Runs and their marks
-- ============================================================================

/-- What a run from `s` comes to, with its marks: they are on items that were passed. A run that is
    rejected is rejected at the current token, and may have marks there if that is the end of
    input. -/
inductive Blamed {α : Type} (all : List Item) (limit : Nat → Nat) (low : Nat) (s : State) :
    EStateM.Result Failure State α → Prop where
  | ok {a : α} {t : State} {marks : List Nat} : Adds all s t marks → Spread limit low marks →
      (∀ k ∈ marks, k < t.cursor.index) → Blamed all limit low s (.ok a t)
  | rejected {problem : SyntaxProblem} {t : State} {marks : List Nat} : Adds all s t marks →
      Spread limit low marks →
      (∀ k ∈ marks, k < t.cursor.index ∨ k = t.cursor.index ∧ t.cursor.kind = .endOfInput) →
      Blamed all limit low s (.error (.rejected ⟨problem, t.cursor.location⟩) t)
  | notNumber {text : String} {t : State} : Blamed all limit low s (.error (.notNumber text) t)

section Rules

variable {α β : Type} {all : List Item} {limit limit' : Nat → Nat} {low low' : Nat} {s t : State}

theorem Blamed.mono {r : EStateM.Result Failure State α} (h : Blamed all limit low s r)
    (hlimit : ∀ k, limit k ≤ limit' k) (hlow : low' ≤ low) : Blamed all limit' low' s r := by
  cases h with
  | ok hadds hspread hlt => exact .ok hadds (hspread.mono hlimit hlow) hlt
  | rejected hadds hspread hlt => exact .rejected hadds (hspread.mono hlimit hlow) hlt
  | notNumber => exact .notNumber

/-- A run without marks. -/
theorem Blamed.of_none {r : EStateM.Result Failure State α}
    (h : Blamed all (fun _ => 0) low s r) : Blamed all limit low' s r := by
  cases h with
  | ok hadds hspread hlt =>
    obtain rfl := hspread.eq_nil
    exact .ok hadds .nil hlt
  | rejected hadds hspread hlt =>
    obtain rfl := hspread.eq_nil
    exact .rejected hadds .nil hlt
  | notNumber => exact .notNumber

/-- The value does not count. -/
theorem Blamed.value {a : α} (h : Blamed all limit low s (.ok a t)) (b : β) :
    Blamed all limit low s (.ok b t) := by
  cases h with
  | ok hadds hspread hlt => exact .ok hadds hspread hlt

/-- What would have been the value does not count either. -/
theorem Blamed.failure {failure : Failure}
    (h : Blamed all limit low s (.error failure t : EStateM.Result Failure State α)) :
    Blamed all limit low s (.error failure t : EStateM.Result Failure State β) := by
  cases h with
  | rejected hadds hspread hlt => exact .rejected hadds hspread hlt
  | notNumber => exact .notNumber

/-- A run, and a way to its first state. -/
theorem Blamed.precede {r : EStateM.Result Failure State α} {marks : List Nat}
    (h : Blamed all limit t.cursor.index t r) (hadds : Adds all s t marks)
    (hspread : Spread limit low marks) (hlow : low ≤ t.cursor.index)
    (hlt : ∀ k ∈ marks, k < t.cursor.index) : Blamed all limit low s r := by
  cases h with
  | @ok a u marks' hadds' hspread' hlt' =>
    refine .ok (hadds.trans hadds') (hspread.append hspread' hlow hlt) fun k hk => ?_
    rcases List.mem_append.mp hk with hk | hk
    · exact Nat.lt_of_lt_of_le (hlt k hk) hadds'.reaches.index_le
    · exact hlt' k hk
  | @rejected problem u marks' hadds' hspread' hlt' =>
    refine .rejected (hadds.trans hadds') (hspread.append hspread' hlow hlt) fun k hk => ?_
    rcases List.mem_append.mp hk with hk | hk
    · exact .inl (Nat.lt_of_lt_of_le (hlt k hk) hadds'.reaches.index_le)
    · exact hlt' k hk
  | notNumber => exact .notNumber

/-- A run that goes on where another one has ended. -/
theorem Blamed.andThen {a : α} {r : EStateM.Result Failure State β} (hs : s.cursor.On all)
    (hfirst : Blamed all limit s.cursor.index s (.ok a t))
    (h : t.cursor.On all → Blamed all limit t.cursor.index t r) :
    Blamed all limit s.cursor.index s r := by
  cases hfirst with
  | ok hadds hspread hlt =>
    exact (h (hs.of_reaches hadds.reaches)).precede hadds hspread hadds.reaches.index_le hlt

/-- All runs of a parser on the items have their marks where `Blamed` says. -/
def Blames (all : List Item) (limit : Nat → Nat) (p : Parser α) : Prop :=
  ∀ s : State, s.cursor.On all → Blamed all limit s.cursor.index s (p s)

namespace Blames

/-- What is known of a run whose result is known. -/
theorem run {p : Parser α} {r : EStateM.Result Failure State α} (h : Blames all limit p)
    (hs : s.cursor.On all) (hrun : p s = r) : Blamed all limit s.cursor.index s r :=
  hrun ▸ h s hs

theorem pure (a : α) : Blames all limit (pure a : Parser α) :=
  fun s _ => .ok (.refl s) .nil (by simp)

theorem reject (problem : SyntaxProblem) : Blames all limit (reject problem : Parser α) :=
  fun s _ => .rejected (.refl s) .nil (by simp)

theorem unexpected : Blames all limit (unexpected : Parser α) := fun s hs => reject _ s hs

theorem notNumber (text : String) : Blames all limit (throw (.notNumber text) : Parser α) :=
  fun _ _ => .notNumber

theorem advance : Blames all limit advance :=
  fun _ _ => .ok (.of_reaches (.advance _) rfl) .nil (by simp)

theorem peek_bind {f : Item → Parser β} (hf : ∀ item, Blames all limit (f item)) :
    Blames all limit (peek >>= f) := fun s hs => hf s.cursor.current s hs

theorem bind {p : Parser α} {f : α → Parser β} (hp : Blames all limit p)
    (hf : ∀ a, Blames all limit (f a)) : Blames all limit (p >>= f) := by
  intro s hs
  cases hrun : p s with
  | ok a t =>
    rw [bind_of_ok hrun]
    exact .andThen hs (hp.run hs hrun) fun ht => hf a t ht
  | error failure t =>
    rw [bind_of_error hrun]
    exact (hp.run hs hrun).failure

theorem map {p : Parser α} (hp : Blames all limit p) (f : α → β) : Blames all limit (f <$> p) :=
  hp.bind fun a => .pure (f a)

theorem expect (kind : Kind) (text : String) (hint : Option String) :
    Blames all limit (expect kind text hint) := by
  intro s hs
  unfold Parse.expect
  split
  · exact advance s hs
  · exact reject _ s hs

theorem accept_bind {wanted : Kind → Bool} {f : Option Token → Parser β}
    (hsome : ∀ token, Blames all limit (f (some token))) (hnone : Blames all limit (f none)) :
    Blames all limit (accept wanted >>= f) := by
  have haccept : Blames all limit (accept wanted) := by
    intro s hs
    unfold Parse.accept
    split
    · exact advance.map some s hs
    · exact .ok (.refl s) .nil (by simp)
  refine haccept.bind fun found => ?_
  cases found with
  | none => exact hnone
  | some token => exact hsome token

theorem many {item : Parser (Option α)} (h : Blames all limit item) :
    Blames all limit (many item) := by
  intro s hs
  fun_induction Parse.many item s with
  | case1 s failure t hitem => exact (h.run hs hitem).failure
  | case2 s t hitem => exact (h.run hs hitem).value []
  | case3 s a t hitem hless as u hmany ih =>
    refine .andThen hs (h.run hs hitem) fun ht => ?_
    have hrest := ih ht
    rw [hmany] at hrest
    exact hrest.value (a :: as)
  | case4 s a t hitem hless failure u hmany ih =>
    refine .andThen hs (h.run hs hitem) fun ht => ?_
    rw [← hmany]
    exact ih ht
  | case5 s a t hitem hmore => exact (h.run hs hitem).value [a]

end Blames

end Rules

-- ============================================================================
-- Expressions
-- ============================================================================

section Grammar

variable {all : List Item} {limit : Nat → Nat}

theorem separated_blames {α : Type} {item : Parser α} (h : Blames all limit item) :
    Blames all limit (separated item) := by
  have hstep : Blames all limit (commaStep item) := .accept_bind (fun _ => h.map some) (.pure none)
  rw [separated_eq]
  refine .peek_bind fun start => ?_
  split
  · exact .pure []
  · exact h.bind fun first => hstep.many.bind fun others => .pure (first :: others)

theorem numberOf_blames (token : Token) : Blames all limit (numberOf token) := by
  unfold numberOf
  split
  · exact .pure _
  · exact .notNumber token.text

section WithNested

variable {nested : Parser Expr} (h : Blames all limit nested)
include h

theorem primaryWith_blames : Blames all limit (primaryWith nested) := by
  unfold primaryWith
  refine .peek_bind fun start => ?_
  dsimp only
  split
  · exact Blames.advance.bind fun _ => numberOf_blames start.token
  · exact Blames.advance.bind fun _ => .pure _
  · exact Blames.advance.bind fun _ => .pure _
  · exact Blames.advance.bind fun _ => .pure _
  · exact Blames.advance.bind fun _ => h.bind fun inner =>
      (Blames.expect _ _ _).bind fun _ => .pure inner
  · exact .unexpected

theorem pointWith_blames (what hint : String) : Blames all limit (pointWith nested what hint) :=
  (Blames.expect _ _ _).bind fun _ => h.bind fun _ => (Blames.expect _ _ _).bind fun _ =>
    h.bind fun _ => (Blames.expect _ _ _).bind fun _ => .pure _

theorem clauseWith_blames (kind : Kind) (keyword hint : String) :
    Blames all limit (clauseWith nested kind keyword hint) := (Blames.expect _ _ _).bind fun _ => h

theorem shapeWith_blames : Blames all limit (shapeWith nested) := by
  have hpoint := pointWith_blames h
  have hclause := clauseWith_blames h
  unfold shapeWith
  refine .peek_bind fun start => ?_
  dsimp only
  split
  · rename_i word _
    refine Blames.advance.bind fun _ => ?_
    cases word with
    | circle =>
      exact (Blames.expect _ _ _).bind fun _ => (hpoint _ _).bind fun _ =>
        (hclause _ _ _).bind fun _ => (hclause _ _ _).bind fun _ => .pure _
    | rect =>
      exact (Blames.expect _ _ _).bind fun _ => (hpoint _ _).bind fun _ =>
        (hclause _ _ _).bind fun _ => (hclause _ _ _).bind fun _ =>
          (hclause _ _ _).bind fun _ => .pure _
    | line =>
      exact (hpoint _ _).bind fun _ => (hpoint _ _).bind fun _ =>
        (hclause _ _ _).bind fun _ => .pure _
    | triangle =>
      exact (hpoint _ _).bind fun _ => (hpoint _ _).bind fun _ => (hpoint _ _).bind fun _ =>
        (hclause _ _ _).bind fun _ => .pure _
  · exact primaryWith_blames h

theorem callWith_blames : Blames all limit (callWith nested) :=
  (shapeWith_blames h).bind fun callee => .accept_bind
    (fun _ => (separated_blames h).bind fun _ => (Blames.expect _ _ _).bind fun _ => .pure _)
    (.pure callee)

theorem commandsWith_blames : Blames all limit (commandsWith nested) := by
  have hamount : Blames all limit (amountWith nested) := primaryWith_blames h
  have hdirection : Blames all limit direction := by
    unfold direction
    refine .peek_bind fun start => ?_
    split
    · exact Blames.advance.bind fun _ => .pure _
    · exact .pure _
  have hcommand : Blames all limit (commandWith nested) := by
    unfold commandWith
    refine Blames.advance.bind fun token => ?_
    split
    · exact hamount.bind fun _ => hdirection.bind fun _ => .pure _
    · exact hamount.bind fun _ => .pure _
    · exact hamount.bind fun _ => .pure _
    · exact hamount.bind fun _ => .pure _
    · exact .pure none
  refine (Blames.many (.peek_bind fun start => ?_)).bind fun _ => .pure _
  dsimp only
  split
  · exact .pure none
  · exact hcommand.map some

end WithNested

theorem chain_blames (joins : Kind → Bool) (room : Nat) (operand : UpTo room)
    (h : ∀ levels hlevels, Blames all limit (operand levels hlevels)) :
    Blames all limit (chain joins room operand) := by
  have hfrom : ∀ left, Blames all limit (chainFrom joins room operand left) := by
    induction room with
    | zero =>
      intro left
      unfold chainFrom
      exact .accept_bind (fun _ => .reject _) (.pure left)
    | succ room ih =>
      intro left
      unfold chainFrom
      exact .accept_bind
        (fun _ => (h room (Nat.le_succ room)).bind fun _ => ih _ (fun _ _ => h _ _) _) (.pure left)
  exact (h room (Nat.le_refl room)).bind hfrom

/-- Expressions are rejected at once: they leave no marks, whatever is allowed. -/
theorem expression_blames (room : Nat) : Blames all limit (expression room) := by
  induction room using Nat.strongRecOn with
  | ind room ih =>
    unfold expression
    cases room with
    | zero => exact .reject _
    | succ below =>
      have hsum : ∀ levels, levels ≤ below →
          Blames all limit (sumWith levels fun room _ => expression room) := by
        intro levels hlevels
        refine chain_blames _ _ _ fun levels' hlevels' => chain_blames _ _ _ fun room hroom => ?_
        exact callWith_blames (ih room (by omega))
      unfold comparisonWith
      refine (hsum below (Nat.le_refl below)).bind fun left =>
        .accept_bind (fun operator => ?_) (.pure left)
      cases below with
      | zero => exact .reject _
      | succ lower => exact (hsum lower (Nat.le_succ lower)).bind fun _ => .pure _

-- ============================================================================
-- Lists of statements
-- ============================================================================

/-- A stretch of a list of statements. It may leave one mark on the token at which it begins, and
    marks on that at which it ends. -/
structure Stretch (all : List Item) (atEnd : Nat) (s t : State) (marks : List Nat) : Prop where
  adds : Adds all s t marks
  spread : Spread (allowance all atEnd) s.cursor.index marks
  le : ∀ k ∈ marks, k ≤ t.cursor.index
  first : marks.count s.cursor.index ≤ 1

/-- One round of a list: there is one mark where it ends, unless that is the end of input. -/
structure Round (all : List Item) (atEnd : Nat) (s t : State) (marks : List Nat) : Prop
    extends Stretch all atEnd s t marks where
  last : t.cursor.kind ≠ .endOfInput → marks.count t.cursor.index ≤ 1

/-- All rounds from some token on: there are none at the end of input. -/
structure Listed (all : List Item) (atEnd : Nat) (s t : State) (marks : List Nat) : Prop
    extends Stretch all atEnd s t marks where
  stops : s.cursor.kind = .endOfInput → marks = []

theorem Listed.nil (s : State) (atEnd : Nat) : Listed all atEnd s s [] :=
  ⟨⟨.refl s, .nil, by simp, by simp⟩, fun _ => rfl⟩

/-- One more round in front of a list. At the token between them there is one mark of each. -/
theorem Round.cons {atEnd : Nat} {s t u : State} {marks marks' : List Nat}
    (h : Round all atEnd s t marks) (h' : Listed all atEnd t u marks') (hs : s.cursor.On all)
    (hkind : s.cursor.kind ≠ .endOfInput) (hless : s.cursor.index < t.cursor.index) :
    Listed all atEnd s u (marks ++ marks') := by
  have hmeet : marks.count t.cursor.index + marks'.count t.cursor.index ≤
      allowance all atEnd t.cursor.index := by
    by_cases hend : t.cursor.kind = .endOfInput
    · rw [h'.stops hend, List.count_nil, Nat.add_zero]
      exact h.spread.count_le _
    · rw [allowance, (hs.of_reaches h.adds.reaches).endsAt_index, decide_eq_false hend]
      exact Nat.add_le_add (h.last hend) h'.first
  refine ⟨⟨h.adds.trans h'.adds, ?_, fun k hk => ?_, ?_⟩, fun hend => absurd hend hkind⟩
  · exact h.spread.append_of_count h'.spread (Nat.le_of_lt hless) h.le hmeet
  · rcases List.mem_append.mp hk with hk | hk
    · exact Nat.le_trans (h.le k hk) h'.adds.reaches.index_le
    · exact h'.le k hk
  · rw [List.count_append, h'.spread.count_eq_zero hless]
    exact h.first

/-- A round in which a statement was read. -/
theorem Round.of_ok {atEnd : Nat} {s t : State} {marks : List Nat} (hadds : Adds all s t marks)
    (hspread : Spread (allowance all atEnd) (s.cursor.index + 1) marks)
    (hlt : ∀ k ∈ marks, k < t.cursor.index) : Round all (atEnd + 1) s t marks where
  adds := hadds
  spread := hspread.mono (allowance_mono all (Nat.le_succ atEnd)) (Nat.le_succ _)
  le k hk := Nat.le_of_lt (hlt k hk)
  first := by
    rw [hspread.count_eq_zero (Nat.lt_succ_self _)]
    exact Nat.zero_le 1
  last _ := by
    rw [List.count_eq_zero.mpr fun hmem => Nat.lt_irrefl _ (hlt _ hmem)]
    exact Nat.zero_le 1

/-- A round in which a statement was rejected: the token at which it was is blamed, and the round
    ends there or behind it. -/
theorem Round.of_rejected {atEnd : Nat} {s t u : State} {problem : SyntaxProblem}
    {marks : List Nat} (hs : s.cursor.On all) (hadds : Adds all s t marks)
    (hspread : Spread (allowance all atEnd) (s.cursor.index + 1) marks)
    (hlt : ∀ k ∈ marks, k < t.cursor.index ∨ k = t.cursor.index ∧ t.cursor.kind = .endOfInput)
    (hreaches : t.cursor.Reaches u.cursor)
    (herrors : u.errors = t.errors ++ [⟨problem, t.cursor.location⟩]) :
    Round all (atEnd + 1) s u (marks ++ [t.cursor.index]) := by
  have ht := hs.of_reaches hadds.reaches
  have hblame : Adds all t u [t.cursor.index] :=
    ⟨hreaches, [⟨problem, t.cursor.location⟩], herrors, by simp [ht.placeAt_index]⟩
  -- Only at the end of input can the token have been blamed before, by the blocks inside.
  have hfree : t.cursor.kind ≠ .endOfInput → marks.count t.cursor.index = 0 := by
    intro hkind
    refine List.count_eq_zero.mpr fun hmem => ?_
    obtain hless | ⟨-, hend⟩ := hlt _ hmem
    · exact Nat.lt_irrefl _ hless
    · exact hkind hend
  have hle : ∀ k ∈ marks, k ≤ t.cursor.index := fun k hk =>
    (hlt k hk).elim Nat.le_of_lt fun h => Nat.le_of_eq h.1
  have hmark : ∀ k, [t.cursor.index].count k ≤ 1 := fun k => List.count_le_length
  have hone : Spread (allowance all (atEnd + 1)) t.cursor.index [t.cursor.index] := by
    refine ⟨List.pairwise_singleton _ _, by simp, fun k => Nat.le_trans (hmark k) ?_⟩
    unfold allowance
    split <;> omega
  refine ⟨⟨hadds.trans hblame, ?_, ?_, ?_⟩, ?_⟩
  · -- At its own token the round adds one mark, which is free there or covered by the greater
    -- allowance.
    refine (hspread.mono (allowance_mono all (Nat.le_succ atEnd)) (Nat.le_succ _)).append_of_count
      hone hadds.reaches.index_le hle ?_
    have hcount := hspread.count_le t.cursor.index
    rw [List.count_singleton_self]
    unfold allowance at hcount ⊢
    rw [ht.endsAt_index] at hcount ⊢
    by_cases hkind : t.cursor.kind = .endOfInput
    · simp only [hkind, decide_true, if_true] at hcount ⊢
      exact Nat.add_le_add_right hcount 1
    · simp [hkind, hfree hkind]
  · intro k hk
    rcases List.mem_append.mp hk with hk | hk
    · exact Nat.le_trans (hle k hk) hreaches.index_le
    · rw [List.mem_singleton.mp hk]
      exact hreaches.index_le
  · rw [List.count_append, hspread.count_eq_zero (Nat.lt_succ_self _), Nat.zero_add]
    exact hmark _
  · intro hkind
    rw [List.count_append]
    obtain hless | heq := Nat.lt_or_eq_of_le hreaches.index_le
    · rw [List.count_eq_zero.mpr fun hmem => Nat.not_le.mpr hless (hle _ hmem), Nat.zero_add]
      exact hmark _
    · -- The round ends at the token that was blamed, and that is not the end of input.
      have hsame : t.cursor.kind = u.cursor.kind := by
        rw [Cursor.kind, Cursor.kind, ht.current_eq (ht.of_reaches hreaches) heq]
      rw [← heq, hfree (hsame ▸ hkind), Nat.zero_add]
      exact hmark _

/-- A run of a statement that leaves no mark on the token at which it begins. -/
def BlamesBehind (all : List Item) (atEnd : Nat) (s : State) (one : Parser Stmt) : Prop :=
  Blamed all (allowance all atEnd) (s.cursor.index + 1) s (one s)

theorem BlamesBehind.peek_bind {atEnd : Nat} {s : State} {f : Item → Parser Stmt}
    (h : BlamesBehind all atEnd s (f s.cursor.current)) :
    BlamesBehind all atEnd s (peek >>= f) := h

section Statements

variable {one : Parser Stmt} {atEnd : Nat}

/-- A round gives nothing where it begins, or is an attempt at a token that is not the end of
    input. -/
theorem statementStep_eq_ok {inBlock topLevel : Bool} {s t : State} {found : Option (Option Stmt)}
    (h : statementStep inBlock topLevel one s = .ok found t) :
    found = none ∧ t = s ∨
      ∃ stmt, found = some stmt ∧ s.cursor.kind ≠ .endOfInput ∧
        attempt inBlock one s = .ok stmt t := by
  obtain ⟨item, u, hpeek, hrest⟩ := bind_eq_ok h
  cases hpeek
  dsimp only at hrest
  split at hrest
  · cases hrest
    exact .inl ⟨rfl, rfl⟩
  · rename_i hgo
    obtain ⟨stmt, u, hattempt, hpure⟩ := bind_eq_ok hrest
    cases hpure
    refine .inr ⟨stmt, rfl, fun hend => hgo ?_, hattempt⟩
    rw [Bool.or_eq_true]
    exact .inl (decide_eq_true hend)

/-- A round of a list, by what became of its statement. -/
theorem attempt_round {inBlock : Bool} {s t : State} {found : Option Stmt}
    (hone : BlamesBehind all atEnd s one) (hs : s.cursor.On all)
    (hrun : attempt inBlock one s = .ok found t) :
    ∃ marks, Round all (atEnd + 1) s t marks := by
  unfold BlamesBehind at hone
  unfold attempt at hrun
  split at hrun
  · rename_i stmt u hstmt
    cases hrun
    rw [hstmt] at hone
    cases hone with
    | ok hadds hspread hlt => exact ⟨_, .of_ok hadds hspread hlt⟩
  · rename_i error u hstmt
    cases hrun
    rw [hstmt] at hone
    cases hone with
    | rejected hadds hspread hlt =>
      have hclosed := (hs.of_reaches hadds.reaches).closed
      exact ⟨_, .of_rejected hs hadds hspread hlt (State.reaches_recover hclosed inBlock _) rfl⟩
  · cases hrun

/-- The rounds of a list put together. -/
theorem many_statementStep_listed {inBlock topLevel : Bool} {s t : State}
    {found : List (Option Stmt)} (hreads : Reads one MakesStmt)
    (hone : ∀ s : State, s.cursor.On all → BlamesBehind all atEnd s one)
    (hs : s.cursor.On all) (hrun : many (statementStep inBlock topLevel one) s = .ok found t) :
    ∃ marks, Listed all (atEnd + 1) s t marks := by
  -- What one round does that gives something, and that it passes something.
  have hstep : ∀ {s t : State} {found : Option Stmt}, s.cursor.On all →
      statementStep inBlock topLevel one s = .ok (some found) t →
      s.cursor.kind ≠ .endOfInput ∧ s.cursor.index < t.cursor.index ∧
        ∃ marks, Round all (atEnd + 1) s t marks := by
    intro s t found hs hrun
    obtain ⟨w, new, hpass, -, hwhat⟩ :=
      (statementStep_reads hreads inBlock topLevel _).ok hs.closed rfl hrun
    have hindex := hpass.index_eq
    have hlength := List.length_pos_iff.mpr hwhat.ne_nil
    obtain ⟨hnone, -⟩ | ⟨stmt, hsome, hkind, hattempt⟩ := statementStep_eq_ok hrun
    · cases hnone
    · exact ⟨hkind, by omega, attempt_round (hone s hs) hs hattempt⟩
  fun_induction many (statementStep inBlock topLevel one) s generalizing found t with
  | case1 s failure u hitem => cases hrun
  | case2 s u hitem =>
    cases hrun
    obtain ⟨-, rfl⟩ | ⟨stmt, hsome, -⟩ := statementStep_eq_ok hitem
    · exact ⟨[], .nil _ _⟩
    · cases hsome
  | case3 s a u hitem hless as v hmany ih =>
    cases hrun
    obtain ⟨hkind, hindex, marks, hround⟩ := hstep hs hitem
    obtain ⟨marks', hlisted⟩ := ih (hs.of_reaches hround.adds.reaches) hmany
    exact ⟨_, hround.cons hlisted hs hkind hindex⟩
  | case4 s a u hitem hless failure v hmany ih => cases hrun
  | case5 s a u hitem hmore =>
    obtain ⟨w, new, hpass, -, hwhat⟩ :=
      (statementStep_reads hreads inBlock topLevel _).ok hs.closed rfl hitem
    exact absurd (hpass.remaining_lt hwhat.ne_nil) hmore

/-- The marks of a list of statements, and where it ends. -/
theorem statementsWith_listed {inBlock topLevel : Bool} {s t : State} {body : List Stmt}
    (hreads : Reads one MakesStmt)
    (hone : ∀ s : State, s.cursor.On all → BlamesBehind all atEnd s one)
    (hs : s.cursor.On all) (hrun : statementsWith inBlock topLevel one s = .ok body t) :
    (∃ marks, Listed all (atEnd + 1) s t marks) ∧ endsBody topLevel t.cursor.current = true := by
  obtain ⟨w, new, -, -, -, hends⟩ :=
    (statementsWith_reads hreads inBlock topLevel _).ok hs.closed rfl hrun
  rw [statementsWith_eq] at hrun
  obtain ⟨found, u, hmany, hpure⟩ := bind_eq_ok hrun
  cases hpure
  exact ⟨many_statementStep_listed hreads hone hs hmany, hends⟩

end Statements

-- ============================================================================
-- Statements
-- ============================================================================

/-- What the body of a block comes to, with its marks: they may also be on the token at which the
    body ends. -/
inductive BodyBlamed (all : List Item) (limit : Nat → Nat) (s : State) :
    EStateM.Result Failure State (List Stmt) → Prop where
  | ok {body : List Stmt} {t : State} {marks : List Nat} : Adds all s t marks →
      Spread limit s.cursor.index marks → (∀ k ∈ marks, k ≤ t.cursor.index) →
      endsBody false t.cursor.current = true → BodyBlamed all limit s (.ok body t)
  | error {failure : Failure} {t : State} :
      Blamed all limit s.cursor.index s
        (.error failure t : EStateM.Result Failure State (List Stmt)) →
      BodyBlamed all limit s (.error failure t)

/-- What a statement may nest leaves its marks in the right places. -/
structure Nested.Blames (all : List Item) (atEnd : Nat) (nested : Nested) : Prop where
  expression : ∀ limit, Parse.Blames all limit nested.expression
  body : ∀ s : State, s.cursor.On all → BodyBlamed all (allowance all atEnd) s (nested.body s)
  chained : ∀ place, Parse.Blames all (allowance all atEnd) (nested.chained place)

theorem newName_blames (text : String) (hint : Option String) :
    Blames all limit (newName text hint) := (Blames.expect _ _ _).bind fun _ => .pure _

/-- A block. The brace behind its body is passed, so marks on it are on an item that was passed;
    if there is none, the body has ended at the end of input. -/
theorem blockWith_blames {body : Parser (List Stmt)}
    (h : ∀ s : State, s.cursor.On all → BodyBlamed all limit s (body s))
    (opening closing : String) : Blames all limit (blockWith body opening closing) := by
  refine (Blames.expect _ _ _).bind fun _ s hs => ?_
  have hbody := h s hs
  cases hrun : body s with
  | error failure t =>
    rw [hrun] at hbody
    rw [bind_of_error hrun]
    cases hbody with
    | error hfailed => exact hfailed
  | ok statements t =>
    rw [hrun] at hbody
    rw [bind_of_ok hrun]
    cases hbody with
    | ok hadds hspread hle hends =>
      have ht := hs.of_reaches hadds.reaches
      by_cases hbrace : t.cursor.kind = .rightBrace
      · -- The brace is there, and the marks at or before it are now behind the cursor.
        have hclose : expect .rightBrace closing none t =
            .ok t.cursor.current.token { t with cursor := t.cursor.advance } := if_pos hbrace
        have hindex := ht.advance_index (by rw [hbrace]; decide)
        have hmove : Adds all t { t with cursor := t.cursor.advance } [] :=
          .of_reaches (.advance _) rfl
        rw [bind_of_ok hclose]
        refine .ok (hadds.trans hmove) (by rwa [List.append_nil]) fun k hk => ?_
        rw [List.append_nil] at hk
        exact Nat.lt_of_lt_of_eq (Nat.lt_succ_of_le (hle k hk)) hindex.symm
      · have hopen : expect .rightBrace closing none t =
            .error (.rejected ⟨.missing closing none, t.cursor.location⟩) t := if_neg hbrace
        have hend : t.cursor.kind = .endOfInput := by
          have hcases : t.cursor.kind = .endOfInput ∨ t.cursor.kind = .rightBrace := by
            simpa [endsBody, Cursor.kind] using hends
          exact hcases.resolve_right hbrace
        rw [bind_of_error hopen]
        refine .rejected hadds hspread fun k hk => ?_
        exact (Nat.lt_or_eq_of_le (hle k hk)).imp_right fun heq => ⟨heq, hend⟩

section WithNested

variable {nested : Nested} {atEnd : Nat} (h : nested.Blames all atEnd) (place : Location)
include h

theorem branchWith_blames : Blames all (allowance all atEnd) (branchWith nested place) := by
  have helse : Blames all (allowance all atEnd) (elseWith nested) :=
    .accept_bind (fun _ => (h.chained _).bind fun _ => .pure _) (blockWith_blames h.body _ _)
  exact (h.expression _).bind fun _ => (blockWith_blames h.body _ _).bind fun _ =>
    .accept_bind (fun _ => helse.bind fun _ => .pure _) (.pure _)

theorem functionWith_blames : Blames all (allowance all atEnd) (functionWith nested place) :=
  (newName_blames _ _).bind fun _ => (Blames.expect _ _ _).bind fun _ =>
    (separated_blames (newName_blames _ _)).bind fun _ => (Blames.expect _ _ _).bind fun _ =>
      (blockWith_blames h.body _ _).bind fun _ => .pure _

theorem giveBackWith_blames : Blames all (allowance all atEnd) (giveBackWith nested place) := by
  refine .peek_bind fun item => ?_
  split
  · exact .pure _
  · exact (h.expression _).bind fun _ => .pure _

omit place in
/-- A statement leaves no mark on its first token: it passes the word by which it begins, or it is
    an expression. -/
theorem statementWith_blamesBehind {s : State} (hs : s.cursor.On all) :
    BlamesBehind all atEnd s (statementWith nested) := by
  -- Behind a keyword the cursor is one further, so marks from there on are not on it.
  have hword : ∀ {p : Parser Stmt}, s.cursor.kind ≠ .endOfInput →
      Blames all (allowance all atEnd) p → BlamesBehind all atEnd s (advance >>= fun _ => p) := by
    intro p hkind hp
    have hmove : Adds all s { s with cursor := s.cursor.advance } [] :=
      .of_reaches (.advance _) rfl
    refine (hp _ (hs.of_reaches hmove.reaches)).precede hmove .nil ?_ (by simp)
    exact Nat.le_of_eq (hs.advance_index hkind).symm
  unfold statementWith
  refine BlamesBehind.peek_bind ?_
  dsimp only
  split
  · rename_i word hstart
    have hkind : s.cursor.kind ≠ .endOfInput := by
      rw [Cursor.kind, hstart]
      simp
    refine hword hkind ?_
    cases word with
    | letWord =>
      exact (newName_blames _ _).bind fun _ => (Blames.expect _ _ _).bind fun _ =>
        (h.expression _).bind fun _ => .pure _
    | fnWord => exact functionWith_blames h _
    | returnWord => exact giveBackWith_blames h _
    | ifWord => exact branchWith_blames h _
    | repeatWord =>
      exact (h.expression _).bind fun _ => (blockWith_blames h.body _ _).bind fun _ => .pure _
    | animateWord =>
      exact (Blames.expect _ _ _).bind fun _ =>
        (commandsWith_blames (h.expression _)).bind fun _ =>
          (Blames.expect _ _ _).bind fun _ => .pure _
    | sceneWord =>
      exact (newName_blames _ _).bind fun _ => (blockWith_blames h.body _ _).bind fun _ => .pure _
  · exact (((h.expression _).bind fun _ => .pure _) s hs).of_none

end WithNested

/-- With more room for blocks inside each other the end of input may be blamed more often. -/
theorem nested_blames (room : Nat) : (nested room).Blames all room := by
  induction room with
  | zero =>
    refine ⟨fun _ => expression_blames 0, fun s hs => ?_, fun _ => .reject _⟩
    exact .error (Blames.reject .tooDeep s hs)
  | succ below ih =>
    have hreads := statementWith_reads (nested_sound below)
    refine ⟨fun _ => expression_blames (below + 1), fun s hs => ?_, fun place s hs => ?_⟩
    · cases hrun : (nested (below + 1)).body s with
      | ok body t =>
        obtain ⟨⟨marks, hlisted⟩, hends⟩ :=
          statementsWith_listed hreads (fun _ hs => statementWith_blamesBehind ih hs) hs hrun
        exact .ok hlisted.adds hlisted.spread hlisted.le hends
      | error failure t =>
        obtain ⟨text, rfl⟩ := statementsWith_eq_error hrun
        exact .error .notNumber
    · exact (branchWith_blames ih place s hs).mono (allowance_mono all (Nat.le_succ below))
        (Nat.le_refl _)

end Grammar

/-- The marks of a program: each token has two at most, and the end of input one for each list of
    statements around it. -/
theorem program_listed {tokens : List Token} {p : Program} {t : State}
    (hrun : program (.ofTokens tokens) = .ok p t) :
    ∃ marks, Listed (Cursor.ofTokens tokens).items (maxDepth + 1) (.ofTokens tokens) t marks := by
  have hstart : (Cursor.ofTokens tokens).On (Cursor.ofTokens tokens).items := by
    refine ⟨?_, Cursor.closed_ofTokens tokens⟩
    rw [Cursor.index_ofTokens, List.drop_zero]
  obtain ⟨body, u, hstatements, hpure⟩ := bind_eq_ok hrun
  cases hpure
  exact (statementsWith_listed (statementWith_reads (nested_sound maxDepth))
    (fun _ hs => statementWith_blamesBehind (nested_blames maxDepth) hs) hstart hstatements).1

-- ============================================================================
-- Source texts
-- ============================================================================

/-- Where a token stands in a list, given how many tokens that are no newlines come before it. -/
def wordIndex : List Token → Nat → Nat
  | [], k => k
  | token :: tokens, 0 => if token.kind = .newline then wordIndex tokens 0 + 1 else 0
  | token :: tokens, k + 1 =>
    if token.kind = .newline then wordIndex tokens (k + 1) + 1 else wordIndex tokens k + 1

theorem wordIndex_mono (tokens : List Token) {j k : Nat} (h : j ≤ k) :
    wordIndex tokens j ≤ wordIndex tokens k := by
  induction tokens generalizing j k with
  | nil => exact h
  | cons token tokens ih =>
    by_cases hnewline : token.kind = .newline
    · cases j <;> cases k <;> simp only [wordIndex, if_pos hnewline] <;>
        exact Nat.succ_le_succ (ih h)
    · cases j with
      | zero => simp [wordIndex, hnewline]
      | succ j =>
        cases k with
        | zero => omega
        | succ k =>
          simp only [wordIndex, if_neg hnewline]
          exact Nat.succ_le_succ (ih (Nat.le_of_succ_le_succ h))

/-- The items of a list of tokens, by where they stand in it. -/
theorem getElem?_wordIndex (tokens : List Token) (mark : Bool) (k : Nat) :
    tokens[wordIndex tokens k]? = (markLines mark tokens)[k]?.map Item.token := by
  rw [← List.getElem?_map, markLines_map_token]
  induction tokens generalizing k with
  | nil => rfl
  | cons token tokens ih =>
    by_cases hnewline : token.kind = .newline
    · cases k <;> simp [wordIndex, hnewline, ih]
    · cases k <;> simp [wordIndex, hnewline, ih]

/-- No two items of a text are at one place. -/
theorem placeAt_inj {content : String} {j k : Nat} {place : Location}
    (hj : placeAt (Cursor.ofTokens (tokenize content)).items j = some place)
    (hk : placeAt (Cursor.ofTokens (tokenize content)).items k = some place) : j = k := by
  have hnodup : ((Cursor.ofTokens (tokenize content)).items.map fun item =>
      item.token.location).Nodup := by
    have hsublist : ((markLines false (tokenize content)).map Item.token).Sublist
        (tokenize content) := by
      rw [markLines_map_token]
      exact List.filter_sublist
    have hplaces := (hsublist.map Token.location).nodup (nodup_location_tokenize content)
    rwa [List.map_map, ← Cursor.items_ofTokens_tokenize] at hplaces
  rw [placeAt, ← List.getElem?_map] at hj hk
  obtain ⟨hlength, -⟩ := List.getElem?_eq_some_iff.mp hj
  exact (List.getElem?_inj hlength hnodup).mp (hj.trans hk.symm)

section Texts

variable {content : String} {errors : List SyntaxError} {marks : List Nat}
  (hmarks : errors.map (fun error => some error.location) =
    marks.map (placeAt (Cursor.ofTokens (tokenize content)).items))
include hmarks

/-- The errors of a text are at the tokens that stand where the marks say. -/
theorem map_location_eq : errors.map (fun error => some error.location) =
    (marks.map (wordIndex (tokenize content))).map fun i =>
      (tokenize content)[i]?.map Token.location := by
  rw [hmarks, List.map_map]
  refine List.map_congr_left fun k _ => ?_
  rw [Function.comp, getElem?_wordIndex _ false, placeAt, Cursor.items_ofTokens_tokenize,
    Option.map_map]
  rfl

/-- A token of a text is the place of as many errors as there are marks on it, since no other item
    is at its place. -/
theorem countP_location_le {atEnd : Nat}
    (hcount : ∀ k, marks.count k ≤ allowance (Cursor.ofTokens (tokenize content)).items atEnd k)
    {token : Token} (htoken : token ∈ tokenize content) :
    errors.countP (fun error => error.location = token.location) ≤
      if token.kind = .endOfInput then atEnd else 2 := by
  -- Errors and marks correspond one to one, so instead of the errors the marks can be counted.
  have hsame : errors.countP (fun error => error.location = token.location) =
      marks.countP fun k =>
        placeAt (Cursor.ofTokens (tokenize content)).items k = some token.location := by
    have hcounts := congrArg (List.countP fun place => decide (place = some token.location)) hmarks
    rw [List.countP_map, List.countP_map] at hcounts
    simpa [Function.comp_def] using hcounts
  rw [hsame]
  by_cases hblamed : ∃ k ∈ marks,
      placeAt (Cursor.ofTokens (tokenize content)).items k = some token.location
  · -- All marks at this place are one and the same item, of which the allowance is known.
    obtain ⟨k, -, hplace⟩ := hblamed
    obtain ⟨item, hitem, hlocation⟩ := Option.map_eq_some_iff.mp hplace
    obtain rfl : item.token = token :=
      eq_of_location_eq (inText_of_mem_items (List.mem_of_getElem? hitem)).1 htoken hlocation
    have hends : endsAt (Cursor.ofTokens (tokenize content)).items k =
        decide (item.token.kind = .endOfInput) := by
      rw [endsAt, hitem]
      rfl
    refine Nat.le_trans (List.countP_mono_left (q := fun j => j == k) fun j _ hj => ?_) ?_
    · exact beq_iff_eq.mpr (placeAt_inj (of_decide_eq_true hj) hplace)
    · have hle := hcount k
      rw [allowance, hends, List.count_eq_countP] at hle
      simpa using hle
  · rw [List.countP_eq_zero.mpr fun k hk hplace => hblamed ⟨k, hk, of_decide_eq_true hplace⟩]
    exact Nat.zero_le _

end Texts

end Parse

/-- Syntax errors come in the order of the source and do not multiply. In every source text, the
    errors are at tokens of which none stands before that of an earlier error; no token is the
    place of more than two errors, but for the end of input, which is the place of at most
    `maxDepth + 1`. A place is that of one token only. -/
theorem parse_tokenize_blame (content : String) :
    ∃ (p : Program) (errors : List SyntaxError) (indices : List Nat),
      parse (tokenize content) = .ok (p, errors) ∧
      errors.map (fun error => some error.location) =
        indices.map (fun i => (tokenize content)[i]?.map Token.location) ∧
      indices.Pairwise (· ≤ ·) ∧
      (∀ token ∈ tokenize content,
        errors.countP (fun error => error.location = token.location) ≤
          if token.kind = .endOfInput then maxDepth + 1 else 2) ∧
      ((tokenize content).map Token.location).Nodup := by
  obtain ⟨p, errors, hparse⟩ := (numbersReadable_tokenize content).exists_parse
  obtain ⟨t, hrun, rfl⟩ := program_of_parse hparse
  obtain ⟨marks, hlisted⟩ := Parse.program_listed hrun
  obtain ⟨new, herrors, hmarks⟩ := hlisted.adds.errors
  obtain rfl : t.errors = new := herrors
  refine ⟨p, t.errors, _, hparse, Parse.map_location_eq hmarks, ?_, fun token htoken => ?_,
    nodup_location_tokenize content⟩
  · exact List.pairwise_map.mpr (hlisted.spread.sorted.imp fun h => Parse.wordIndex_mono _ h)
  · exact Parse.countP_location_le hmarks hlisted.spread.count_le htoken

-- The parenthesis is blamed twice: it is not the value that is missing before it, and it begins
-- no statement. Both blocks and the program blame the end of input.
example : (parse (tokenize "let x =\n)\nif a \x7b repeat 2 \x7b y +")).toOption.map
      (fun read => read.2.map SyntaxError.location) =
    some [⟨2, 1⟩, ⟨2, 1⟩, ⟨3, 22⟩, ⟨3, 22⟩, ⟨3, 22⟩] := by decide +kernel

end Storyboard
