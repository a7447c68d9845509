/-
  Storyboard.Proofs.Parse.Completeness

  The parser of expressions is complete for the grammar without shapes: items that
  have the form of an expression, in front of an item that cannot continue it, are
  taken exactly, with the tree of that form, unless the levels of nesting run out.

  Nothing is asked of the way in which the form was built up, so one list of items has
  one tree. As many levels as there are items are always enough, which is what makes
  this hold for all lists and not only for those that nest little.

  Shapes are left out for a reason: the clause that ends a shape is an expression, and
  so is the shape, so a parenthesis or an operator behind it may belong to either.

  The induction is on the number of items. A form is taken apart rule by rule, and only
  an expression in parentheses or among arguments is an expression again; it has fewer
  items than the whole.
-/
import Storyboard.Parse.Session
import Storyboard.Proofs.Parse.ExprSound
import Storyboard.Proofs.Parse.RoundTrip

namespace Storyboard

/-- Whether a token of this kind is the first word of a shape. -/
def Kind.opensShape : Kind → Bool
  | .keyword (.shape _) => true
  | _ => false

namespace Grammar

open Parse (Item)

/-- No item is the first word of a shape. -/
def Shapeless (w : List Item) : Prop := ∀ item ∈ w, item.token.kind.opensShape = false

theorem Shapeless.of_infix {v w : List Item} (h : Shapeless w) (hv : v <:+: w) : Shapeless v :=
  fun item hitem => h item (hv.subset hitem)

theorem Shapeless.kind_ne {w : List Item} {item : Item} (h : Shapeless w) (hitem : item ∈ w)
    (word : ShapeWord) : item.token.kind ≠ .keyword (.shape word) := by
  intro hkind
  have hopens := h item hitem
  rw [hkind] at hopens
  cases hopens

-- ============================================================================
-- How forms begin
-- ============================================================================

/-- There is a first item, and it is no closing parenthesis. -/
def Opens (w : List Item) : Prop :=
  ∃ first others, w = first :: others ∧ first.token.kind ≠ .rightParen

theorem Opens.append {w : List Item} (h : Opens w) (rest : List Item) : Opens (w ++ rest) := by
  obtain ⟨first, others, rfl, hkind⟩ := h
  exact ⟨first, others ++ rest, rfl, hkind⟩

section Opening

variable {w : List Item} {e : Expr}

theorem PrimaryForm.opens (h : PrimaryForm w e) : Opens w := by
  cases h with
  | number hkind | string hkind | color hkind | identifier hkind | parenthesized hkind =>
    exact ⟨_, _, rfl, by rw [hkind]; exact Kind.noConfusion⟩

theorem ShapeForm.opens (h : ShapeForm w e) : Opens w := by
  cases h with
  | circle hkind | rect hkind | line hkind | triangle hkind =>
    exact ⟨_, _, rfl, by rw [hkind]; exact Kind.noConfusion⟩
  | primary hprimary => exact hprimary.opens

theorem CallForm.opens (h : CallForm w e) : Opens w := by
  cases h with
  | plain hshape => exact hshape.opens
  | applied hshape => exact hshape.opens.append _

theorem Joined.opens {joins : Kind → Bool} {G : List Item → Expr → Prop}
    (hG : ∀ {w e}, G w e → Opens w) (h : Joined joins G w e) : Opens w := by
  obtain ⟨hfirst, _⟩ := h
  exact (hG hfirst).append _

theorem ExpressionForm.opens (h : ExpressionForm w e) : Opens w := by
  have hsum : ∀ {w e}, SumForm w e → Opens w := fun hsum =>
    hsum.opens fun hproduct => hproduct.opens CallForm.opens
  cases h with
  | plain hplain => exact hsum hplain
  | compared hleft _ _ => exact (hsum hleft).append _

end Opening

/-- What follows an operand is an operator, or nothing of the chain. -/
theorem JoinedTail.headD_stops {joins : Kind → Bool} {G : List Item → Expr → Prop}
    {left whole : Expr} {w : List Item} (h : JoinedTail joins G left w whole) {stop : Item → Prop}
    (hjoins : ∀ item : Item, joins item.token.kind = true → stop item) {next : Item}
    (hnext : stop next) : stop (w.headD next) := by
  cases h with
  | done => exact hnext
  | more hoperator => exact hjoins _ hoperator

end Grammar

namespace Parse

open Grammar

-- ============================================================================
-- Chains of operators
-- ============================================================================

section Chains

variable {roomy : Prop} {joins : Kind → Bool} {G : List Item → Expr → Prop} {room : Nat}
  {operand : UpTo room} {w : List Item} {stop stop₁ : Item → Prop} {left whole : Expr}

/-- A parser of operands that takes the operands among the given items, if the levels of nesting
    it is given are no fewer than the items but one. -/
def TakesOperands (roomy : Prop) (G : List Item → Expr → Prop) (stop₁ : Item → Prop)
    (operand : UpTo room) (w : List Item) : Prop :=
  ∀ {levels hlevels v right}, v <:+: w → G v right → (roomy → v.length ≤ levels + 1) →
    Takes false roomy v stop₁ (operand levels hlevels) fun e => e.bare = right

/-- Operators and operands behind a left side are taken one after the other, each operator with
    one level less for what follows it. -/
theorem chainFrom_takes_forms (h : JoinedTail joins G left w whole) {read : Expr}
    (hread : read.bare = left) (hroomy : roomy → w.length ≤ room)
    (hoperand : TakesOperands roomy G stop₁ operand w)
    (hjoins : ∀ item : Item, joins item.token.kind = true → stop₁ item)
    (hstop : ∀ next, stop next → stop₁ next ∧ joins next.token.kind = false) :
    Takes false roomy w stop (chainFrom joins room operand read) fun e => e.bare = whole := by
  induction h generalizing room read with
  | done => exact chainFrom_takes hread fun next hnext => (hstop next hnext).2
  | @more operator v rest left right whole hoperator hright htail ih =>
    simp only [List.length_cons, List.length_append] at hroomy
    -- The operand and what follows it are shorter by the operator, which pays for the level.
    have hinside : v ++ rest <:+: operator :: (v ++ rest) := (List.suffix_cons operator _).isInfix
    cases room with
    | zero =>
      refine Takes.accept_bind_some hoperator (Takes.tooDeep fun hroom => ?_)
      have := hroomy hroom
      omega
    | succ room =>
      refine Takes.accept_bind_some hoperator ?_
      refine (hoperand ((List.prefix_append v rest).isInfix.trans hinside) hright ?_).bind
        (fun e he => ?_) fun next hnext => htail.headD_stops hjoins (hstop next hnext).1
      · intro hroom
        have := hroomy hroom
        omega
      · refine ih ?_ (fun hroom => ?_)
          fun hv => hoperand (hv.trans ((List.suffix_append v rest).isInfix.trans hinside))
        · rw [Expr.bare_binary, hread, he]
        · have := hroomy hroom
          omega

/-- Operands joined by operators are taken as a chain. -/
theorem chain_takes_forms (h : Joined joins G w whole) (hroomy : roomy → w.length ≤ room + 1)
    (hopens : ∀ {v e}, G v e → Opens v) (hoperand : TakesOperands roomy G stop₁ operand w)
    (hjoins : ∀ item : Item, joins item.token.kind = true → stop₁ item)
    (hstop : ∀ next, stop next → stop₁ next ∧ joins next.token.kind = false) :
    Takes false roomy w stop (chain joins room operand) fun e => e.bare = whole := by
  obtain @⟨v, rest, first, _, hfirst, htail⟩ := h
  have hpositive : 0 < v.length := by
    obtain ⟨item, others, rfl, -⟩ := hopens hfirst
    exact Nat.succ_pos _
  rw [List.length_append] at hroomy
  refine (hoperand (List.prefix_append v rest).isInfix hfirst ?_).bind (fun e he => ?_)
    fun next hnext => htail.headD_stops hjoins (hstop next hnext).1
  · intro hroom
    have := hroomy hroom
    omega
  · refine chainFrom_takes_forms htail he (fun hroom => ?_)
      (fun hv => hoperand (hv.trans (List.suffix_append v rest).isInfix)) hjoins hstop
    have := hroomy hroom
    omega

end Chains

-- ============================================================================
-- Expressions
-- ============================================================================

/-- Expressions without shapes that have fewer items than a bound are taken, at every room. -/
def CompleteBelow (bound : Nat) : Prop :=
  ∀ {v : List Item} {e : Expr}, v.length < bound → Shapeless v → ExpressionForm v e →
    ∀ room, Takes false (v.length ≤ room) v (Of endsExpression) (expression room) fun read =>
      read.bare = e

section Forms

variable {w : List Item} {e : Expr} (hbelow : CompleteBelow w.length) (hfree : Shapeless w)
  (room : Nat)
include hbelow hfree

/-- An expression inside the items. -/
theorem nested_takes {v : List Item} {inner : Expr} (hv : v <:+: w) (hlength : v.length < w.length)
    (h : ExpressionForm v inner) :
    Takes false (w.length ≤ room + 1) v (Of endsExpression) (expression room) fun read =>
      read.bare = inner :=
  (hbelow hlength (hfree.of_infix hv) h room).mono (fun hroom => by omega) id id

omit hfree in
theorem CompleteBelow.of_infix {v : List Item} (hv : v <:+: w) : CompleteBelow v.length :=
  fun hlength => hbelow (Nat.lt_of_lt_of_le hlength hv.length_le)

theorem primary_takes_form (h : PrimaryForm w e) :
    Takes false (w.length ≤ room + 1) w anywhere (primaryWith (expression room)) fun read =>
      read.bare = e := by
  cases h with
  | number hkind hread =>
    refine Takes.peek_bind ?_
    simp only [hkind]
    refine Takes.advance_bind ?_
    rw [numberOf, hread]
    exact Takes.pure rfl
  | string hkind | color hkind | identifier hkind =>
    refine Takes.peek_bind ?_
    simp only [hkind]
    exact Takes.advance_bind (Takes.pure rfl)
  | @parenthesized opening closing v e hopening hinner hclosing =>
    -- Inside the parentheses the form is shorter, so the hypothesis about shorter ones applies.
    have hv : v <:+: opening :: (v ++ [closing]) := ⟨[opening], [closing], by simp⟩
    have hshorter : v.length < (opening :: (v ++ [closing])).length := by
      rw [List.length_cons, List.length_append]
      omega
    have htaken := nested_takes hbelow hfree room hv hshorter hinner
    refine Takes.peek_bind ?_
    simp only [hopening]
    refine Takes.advance_bind (htaken.bind (fun inner hinner => ?_) fun _ _ => ?_)
    · exact Takes.expect_bind hclosing (Takes.pure hinner)
    · exact Of.intro hclosing rfl

theorem shape_takes_form (h : ShapeForm w e) :
    Takes false (w.length ≤ room + 1) w anywhere (shapeWith (expression room)) fun read =>
      read.bare = e := by
  cases h with
  | circle hword | rect hword | line hword | triangle hword =>
    exact absurd hword (hfree.kind_ne List.mem_cons_self _)
  | primary hprimary =>
    have htaken := primary_takes_form hbelow hfree room hprimary
    obtain ⟨first, others, rfl, -⟩ := hprimary.opens
    exact shapeWith_takes htaken (hfree.kind_ne List.mem_cons_self)

theorem call_takes_form (h : CallForm w e) :
    Takes false (w.length ≤ room + 1) w (Of endsCall) (callWith (expression room)) fun read =>
      read.bare = e := by
  cases h with
  | plain hshape =>
    refine callWith_takes ?_ fun _ hnext => hnext
    exact (shape_takes_form hbelow hfree room hshape).mono id (fun _ => trivial) id
  | @applied wf wa opening closing callee arguments hcallee hopening harguments hclosing =>
    have hwf : wf <:+: wf ++ opening :: (wa ++ [closing]) := (List.prefix_append wf _).isInfix
    have hwa : wa <:+: wf ++ opening :: (wa ++ [closing]) := ⟨wf ++ [opening], [closing], by simp⟩
    have hshape := (shape_takes_form (CompleteBelow.of_infix hbelow hwf) (hfree.of_infix hwf) room
      hcallee).mono (Nat.le_trans hwf.length_le) id id
    -- Each argument is shorter than the call, at least by the parentheses.
    have hlist : Takes false ((wf ++ opening :: (wa ++ [closing])).length ≤ room + 1) wa
        (fun next => next.token.kind = .rightParen) (separated (expression room)) fun reads =>
          reads.map Expr.bare = arguments := by
      have hends (next : Item) (hkind : next.token.kind = .comma ∨ next.token.kind = .rightParen) :
          Of endsExpression next := hkind.elim (Of.intro · rfl) (Of.intro · rfl)
      refine separated_takes_forms harguments (fun hv hform => ?_) ExpressionForm.opens
        (fun next hkind => hends next (.inl hkind)) fun next hkind => hends next (.inr hkind)
      refine nested_takes hbelow hfree room (hv.trans hwa) ?_ hform
      have := hv.length_le
      simp only [List.length_append, List.length_cons]
      omega
    refine hshape.bind (fun read hread => ?_) fun _ _ => trivial
    refine Takes.accept_bind_some (by simp [hopening]) ?_
    refine hlist.bind (fun reads hreads => ?_) fun _ _ => hclosing
    refine Takes.expect_bind hclosing (Takes.pure ?_)
    rw [Expr.bare_call, hread, hreads]

theorem product_takes_form (h : ProductForm w e) :
    Takes false (w.length ≤ room + 1) w (Of endsProduct) (productWith room (expressions room))
      fun read => read.bare = e := by
  refine chain_takes_forms h id CallForm.opens ?_ ?_
    fun _ hnext => ⟨hnext.endsCall, hnext.not_multiplicative⟩
  · intro levels hlevels v right hv hcall hroom
    exact (call_takes_form (CompleteBelow.of_infix hbelow hv) (hfree.of_infix hv) levels hcall).mono
      hroom id id
  · intro item hjoin
    cases hkind : item.token.kind with
    | multiplicative operator => exact Of.intro hkind rfl
    | _ => simp [hkind, Kind.isMultiplicative] at hjoin

theorem sum_takes_form (h : SumForm w e) :
    Takes false (w.length ≤ room + 1) w (Of endsSum) (sumWith room (expressions room))
      fun read => read.bare = e := by
  refine chain_takes_forms h id (fun hproduct => hproduct.opens CallForm.opens) ?_ ?_
    fun _ hnext => ⟨hnext.endsProduct, hnext.not_additive⟩
  · intro levels hlevels v right hv hproduct hroom
    exact (product_takes_form (CompleteBelow.of_infix hbelow hv) (hfree.of_infix hv) levels
      hproduct).mono hroom id id
  · intro item hjoin
    cases hkind : item.token.kind with
    | additive operator => exact Of.intro hkind rfl
    | _ => simp [hkind, Kind.isAdditive] at hjoin

theorem expression_takes_of_below (h : ExpressionForm w e) :
    Takes false (w.length ≤ room) w (Of endsExpression) (expression room) fun read =>
      read.bare = e := by
  obtain ⟨first, others, hfirst, -⟩ := h.opens
  cases room with
  | zero =>
    rw [expression]
    refine Takes.tooDeep fun hroom => ?_
    simp [hfirst] at hroom
  | succ room =>
    rw [expression]
    cases h with
    | plain hsum =>
      exact comparisonWith_takes ((sum_takes_form hbelow hfree room hsum).mono id Of.endsSum id)
        fun _ hnext => hnext.not_comparison
    | @compared w₁ w₂ operator left right hleft hoperator hright =>
      have hw₁ : w₁ <:+: w₁ ++ operator :: w₂ := (List.prefix_append w₁ _).isInfix
      have hw₂ : w₂ <:+: w₁ ++ operator :: w₂ := ⟨w₁ ++ [operator], [], by simp⟩
      have hlength : (w₁ ++ operator :: w₂).length = w₁.length + (w₂.length + 1) := by simp
      have hpositive : 0 < w₁.length := by
        refine List.length_pos_iff.mpr ?_
        exact hleft.ne_nil fun hproduct => hproduct.ne_nil CallForm.ne_nil
      -- A sum ends before a comparison, so the left side leaves the operator to be taken.
      have hstop : Of endsSum operator := by
        cases hkind : operator.token.kind with
        | comparison comparison => exact Of.intro hkind rfl
        | _ => simp [hkind, Kind.isComparison] at hoperator
      refine (sum_takes_form (CompleteBelow.of_infix hbelow hw₁) (hfree.of_infix hw₁) room
        hleft).mono (fun hroom => ?_) id id |>.bind (fun e he => ?_) fun _ _ => hstop
      · omega
      · refine Takes.accept_bind_some hoperator ?_
        cases room with
        | zero => exact Takes.tooDeep fun hroom => by omega
        | succ below =>
          refine ((sum_takes_form (CompleteBelow.of_infix hbelow hw₂) (hfree.of_infix hw₂) below
            hright).mono (fun hroom => ?_) Of.endsSum id).bind_nil fun e' he' => Takes.pure ?_
          · omega
          · rw [Expr.bare_binary, he, he']

end Forms

/-- Every expression without shapes is taken, unless the levels of nesting run out; as many as it
    has items are enough. -/
theorem expression_takes_form {w : List Item} {e : Expr} (hfree : Shapeless w)
    (h : ExpressionForm w e) (room : Nat) :
    Takes false (w.length ≤ room) w (Of endsExpression) (expression room) fun read =>
      read.bare = e := by
  have hall : ∀ bound, CompleteBelow bound := by
    intro bound
    induction bound with
    | zero => exact fun hlength => absurd hlength (Nat.not_lt_zero _)
    | succ bound ih =>
      intro v e hlength hfree h room
      refine expression_takes_of_below (fun hless => ih ?_) hfree room h
      omega
  exact expression_takes_of_below (hall _) hfree room h

/-- Items without shapes have one tree at most: the one that is made with enough levels. -/
theorem expressionForm_unique {w : List Item} {e e' : Expr} (hfree : Shapeless w)
    (h : ExpressionForm w e) (h' : ExpressionForm w e') : e' = e := by
  obtain ⟨first, others, hfirst, -⟩ := h.opens
  let start : State := ⟨⟨first, others ++ [endItem .start], 0⟩, []⟩
  have hitems : start.cursor.items = w ++ endItem .start :: [] := by rw [hfirst]; rfl
  have hclosed : start.cursor.Closed := ⟨endItem .start, by rw [hitems]; simp, rfl⟩
  have hruns : ∀ {tree}, ExpressionForm w tree →
      ∃ read t, expression w.length start = .ok read t ∧ read.bare = tree := by
    intro tree htree
    obtain ⟨read, t, hrun, -, -, hread⟩ | ⟨hno, -⟩ :=
      expression_takes_form hfree htree w.length start (endItem .start) [] hclosed hitems rfl
    · exact ⟨read, t, hrun, hread⟩
    · exact absurd (Nat.le_refl _) hno
  obtain ⟨read, t, hrun, hread⟩ := hruns h
  obtain ⟨read', t', hrun', hread'⟩ := hruns h'
  rw [hrun] at hrun'
  cases hrun'
  exact hread'.symm.trans hread

/-- What a run without failure passes, if it leaves the items behind some others. -/
theorem passes_of_expression {s t : State} {room : Nat} {read : Expr} {w : List Item}
    (hclosed : s.cursor.Closed) (hrun : expression room s = .ok read t)
    (hitems : s.cursor.items = w ++ t.cursor.items) : s.cursor.Passes w t.cursor := by
  obtain ⟨v, new, hpasses, -, -⟩ := (expression_reads room _).ok hclosed rfl hrun
  have hsame : v = w := List.append_cancel_right (hpasses.items_eq.symm.trans hitems)
  rwa [hsame] at hpasses

end Parse

open Grammar Parse

/-- The parser of expressions is complete for the grammar without shapes. Take tokens which up to
    their first end of input, newlines apart, have the form of an expression without shapes, in
    whatever way. With nothing nested around it the parser then passes all of them and makes the
    tree of that form, places apart, or it fails because the nesting is too deep; and there is no
    other tree of which they have the form. -/
theorem expression_complete (tokens : List Token) (e : Expr) (hfree : Shapeless (written tokens))
    (hform : ExpressionForm (written tokens) e) :
    ((∃ read session, (Session.ofTokens tokens).run Parse.expression = (.ok read, session) ∧
          read.bare = e ∧ session.state.errors = [] ∧ session.state.cursor.kind = .endOfInput ∧
          (Cursor.ofTokens tokens).Passes (written tokens) session.state.cursor) ∨
        ∃ place session, (Session.ofTokens tokens).run Parse.expression =
          (.error (.rejected ⟨.tooDeep, place⟩), session)) ∧
      ∀ e', ExpressionForm (written tokens) e' → e' = e := by
  refine ⟨?_, fun e' hform' => expressionForm_unique hfree hform hform'⟩
  obtain ⟨next, later, hitems, hend⟩ := Cursor.items_eq_written tokens
  have hclosed := Cursor.closed_ofTokens tokens
  obtain ⟨read, t, hrun, ht, herrors, hread⟩ | ⟨-, hover⟩ :=
    expression_takes_form hfree hform maxDepth (.ofTokens tokens) next later hclosed hitems
      (Of.intro hend rfl)
  · refine .inl ⟨read, _, Session.run_of_ok hrun, hread, herrors, ?_, ?_⟩
    · have hcurrent : t.cursor.current = next := (List.cons.inj ht).1
      rw [Cursor.kind, hcurrent, hend]
    · exact passes_of_expression hclosed hrun (by rw [ht]; exact hitems)
  · cases hrun : Parse.expression maxDepth (.ofTokens tokens) with
    | ok read t =>
      rw [hrun] at hover
      exact absurd hover.1 Bool.false_ne_true
    | error failure t =>
      rw [hrun] at hover
      obtain ⟨place, rfl⟩ := hover.resolve_right fun h => Bool.false_ne_true h.1
      exact .inr ⟨place, _, Session.run_of_error hrun⟩

/-- A run that passes all tokens up to an end of input finds the form of its tree. -/
theorem expressionForm_of_run {tokens : List Token} {room : Nat} {read : Expr} {t : State}
    (hrun : Parse.expression room (.ofTokens tokens) = .ok read t)
    (hend : t.cursor.kind = .endOfInput) : ExpressionForm (written tokens) read.bare := by
  obtain ⟨w, new, hpasses, -, -, -, hform⟩ :=
    (expression_reads room _).ok (Cursor.closed_ofTokens tokens) rfl hrun
  have hw : w = written tokens :=
    (hpasses.eq_takeWhile hend).trans (Cursor.takeWhile_items_ofTokens tokens)
  rwa [hw] at hform

/-- A chain of each group, a comparison, redundant parentheses, and a call with two arguments and
    one with none. -/
theorem expression_complete_sample :
    let tokens := tokenize "((a) - 1) - f(2 * b, (g())) % 3\n<= \"s\" + #ff0000"
    ∃ e, Shapeless (written tokens) ∧ ExpressionForm (written tokens) e ∧
      (∃ read session, (Session.ofTokens tokens).run Parse.expression = (.ok read, session) ∧
        read.bare = e) ∧
      ∀ e', ExpressionForm (written tokens) e' → e' = e := by
  intro tokens
  have hall : (written tokens).all (fun item => !item.token.kind.opensShape) = true := by
    decide +kernel
  have hfree : Shapeless (written tokens) := by simpa [Shapeless] using hall
  have hends : ((Session.ofTokens tokens).run Parse.expression).1.toOption.isSome = true ∧
      ((Session.ofTokens tokens).run Parse.expression).2.state.cursor.kind = .endOfInput := by
    decide +kernel
  cases hrun : Parse.expression maxDepth (.ofTokens tokens) with
  | error failure t =>
    rw [Session.run_of_error hrun] at hends
    cases hends.1
  | ok read t =>
    rw [Session.run_of_ok hrun] at hends
    have hform := expressionForm_of_run hrun hends.2
    obtain ⟨hresult, hunique⟩ := expression_complete tokens read.bare hfree hform
    refine ⟨read.bare, hfree, hform, ?_, hunique⟩
    obtain ⟨read', session, hrun', hsame, -⟩ | ⟨place, session, hrun'⟩ := hresult
    · exact ⟨read', session, hrun', hsame⟩
    · rw [Session.run_of_ok hrun] at hrun'
      cases hrun'

end Storyboard
