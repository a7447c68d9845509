/-
  Storyboard.Proofs.Parse.ExprSound

  The parsers of expressions are sound for the grammar: what they pass has the
  form that the grammar gives it, with the tree they make, places apart. They add
  no errors, and they make native trees only.

  Each parser takes the parser for nested expressions as an argument, so each
  lemma here takes the soundness of that one as a hypothesis. The room is only
  looked at in `expression_reads`, where the induction on it closes the circle.
-/
import Storyboard.Proofs.Parse.Grammar
import Storyboard.Proofs.Parse.Reading

namespace Storyboard.Parse

open Grammar

-- ============================================================================
-- Lists between commas
-- ============================================================================

section Lists

variable {α : Type}

/-- One more item behind a comma, or nothing. -/
def BehindComma (G : List Item → α → Prop) : Post (Option α) := fun w _ new found =>
  new = [] ∧ match found with
    | some a => ∃ comma w', w = comma :: w' ∧ comma.token.kind = .comma ∧ G w' a
    | none => w = []

/-- Items behind commas, again and again, are the tail of a list. -/
theorem commaTail_of_repeats {G : List Item → α → Prop} {w : List Item} {next : Item}
    {new : List SyntaxError} {as : List α} (h : Repeats (BehindComma G) w next new as) :
    new = [] ∧ CommaTail G w as := by
  induction h with
  | stop hstop =>
    obtain ⟨rfl, rfl⟩ := hstop
    exact ⟨rfl, .done⟩
  | step hstep _ ih =>
    obtain ⟨rfl, comma, w', rfl, hcomma, hG⟩ := hstep
    obtain ⟨rfl, htail⟩ := ih
    exact ⟨rfl, .more hcomma hG htail⟩

/-- One run of the repetition takes a comma and an item behind it, or nothing. -/
theorem commaStep_reads {item : Parser α} {G : List Item → α → Prop}
    (h : Reads item (quietly G)) : Reads (commaStep item) (BehindComma G) := by
  refine Reads.weaken (Reads.accept_bind (by decide)
    (fun _ => h.bind_quiet fun a => Reads.pure (some a)) (Reads.pure none)) ?_
  rintro w next new found (⟨comma, w', rfl, hcomma, w₁, _, a, rfl, hG, rfl, rfl, rfl⟩ |
    ⟨_, rfl, rfl, rfl⟩)
  · exact ⟨rfl, comma, w₁, by simp, by simpa using hcomma, hG⟩
  · exact ⟨rfl, rfl⟩

/-- Any number of items between commas. -/
theorem separated_reads {item : Parser α} {G : List Item → α → Prop}
    (h : Reads item (quietly G)) : Reads (separated item) (quietly (Separated G)) := by
  have hmany := Reads.many (commaStep_reads h) (by
    rintro w next new a ⟨-, comma, w', rfl, -⟩
    exact List.cons_ne_nil comma w')
  rw [separated_eq]
  refine Reads.peek_bind fun start => ?_
  split
  · exact (ReadsAt.pure []).weaken fun _ ⟨hw, _, hnew, has⟩ => ⟨hnew, hw ▸ has ▸ .empty⟩
  · refine ReadsAt.weaken ((h start).bind_quiet fun first => hmany.bind fun others =>
      Reads.pure _) ?_
    rintro w next new as - ⟨w₁, _, first, rfl, hfirst, w₂, _, new₂, _, others, rfl, rfl, hothers,
      rfl, rfl, rfl⟩
    obtain ⟨rfl, htail⟩ := commaTail_of_repeats hothers
    exact ⟨rfl, by rw [List.append_nil]; exact .listed hfirst htail⟩

end Lists

-- ============================================================================
-- Primaries and shapes
-- ============================================================================

/-- The items have the given form with the given tree, places apart, and the tree is native. -/
def Makes (F : List Item → Expr → Prop) (w : List Item) (e : Expr) : Prop :=
  e.native = true ∧ F w e.bare

/-- The same for a point. -/
def MakesPoint (w : List Item) (point : Point Expr) : Prop :=
  point.native = true ∧ PointForm w point.bare

/-- The number of a token that was just passed. -/
theorem numberOf_readsAt {start : Item} (hkind : start.token.kind = .number) :
    ReadsAt start (advance >>= fun _ => numberOf start.token)
      (quietly (Makes PrimaryForm)) := by
  have hne : start.token.kind ≠ .endOfInput := by rw [hkind]; decide
  unfold numberOf
  cases hread : Numeral.read? start.token.text with
  | some value =>
    refine ReadsAt.weaken (ReadsAt.advance_bind hne (Reads.pure _)) ?_
    rintro w next new e - ⟨_, rfl, rfl, rfl, rfl⟩
    exact ⟨rfl, rfl, .number hkind hread⟩
  | none =>
    -- The token is passed before its text is looked at, so it is among the items passed.
    constructor
    · intro s t e hc hs hrun
      cases hrun
    · intro s t f hc hs hrun
      obtain hrun₁ | ⟨token, u, hrun₁, hrun₂⟩ := bind_eq_error hrun
      · cases hrun₁
      · obtain ⟨w, new, hpass, herr, _, rfl, _⟩ := (ReadsAt.advance hne).ok hc hs hrun₁
        cases hrun₂
        exact ⟨_, new, hpass, herr, .notNumber (List.mem_singleton_self start) hkind hread⟩

section WithNested

variable {nested : Parser Expr} (h : Reads nested (quietly (Makes ExpressionForm)))
include h

/-- Primaries. -/
theorem primaryWith_reads : Reads (primaryWith nested) (quietly (Makes PrimaryForm)) := by
  unfold primaryWith
  refine Reads.peek_bind fun start => ?_
  dsimp only
  split
  · rename_i hkind
    exact numberOf_readsAt hkind
  · -- A number alone can fail for its text; names, strings and colours are as they stand.
    rename_i hkind
    refine ReadsAt.weaken (ReadsAt.advance_bind (by rw [hkind]; decide) (Reads.pure _)) ?_
    rintro w next new e - ⟨_, rfl, rfl, rfl, rfl⟩
    exact ⟨rfl, rfl, .string hkind⟩
  · rename_i hkind
    refine ReadsAt.weaken (ReadsAt.advance_bind (by rw [hkind]; decide) (Reads.pure _)) ?_
    rintro w next new e - ⟨_, rfl, rfl, rfl, rfl⟩
    exact ⟨rfl, rfl, .color hkind⟩
  · rename_i hkind
    refine ReadsAt.weaken (ReadsAt.advance_bind (by rw [hkind]; decide) (Reads.pure _)) ?_
    rintro w next new e - ⟨_, rfl, rfl, rfl, rfl⟩
    exact ⟨rfl, rfl, .identifier hkind⟩
  · rename_i hkind
    refine ReadsAt.weaken (ReadsAt.advance_bind (by rw [hkind]; decide) (h.bind_quiet fun inner =>
      Reads.expect_bind (by decide) fun _ => Reads.pure inner)) ?_
    rintro w next new e - ⟨_, rfl, wi, _, inner, rfl, hinner, closing, _, rfl, hclosing,
      rfl, rfl, rfl⟩
    exact ⟨rfl, hinner.1, .parenthesized hkind hinner.2 hclosing⟩
  · exact Reads.unexpected _ start

/-- Points. -/
theorem pointWith_reads (what hint : String) :
    Reads (pointWith nested what hint) (quietly MakesPoint) := by
  unfold pointWith
  refine Reads.weaken (Reads.expect_bind (by decide) fun _ => h.bind_quiet fun x =>
    Reads.expect_bind (by decide) fun _ => h.bind_quiet fun y =>
    Reads.expect_bind (by decide) fun _ => Reads.pure _) ?_
  rintro w next new point ⟨opening, _, rfl, hopening, wx, _, x, rfl, hx, comma, _, rfl, hcomma,
    wy, _, y, rfl, hy, closing, _, rfl, hclosing, rfl, rfl, rfl⟩
  refine ⟨rfl, ?_, .mk hopening hx.2 hcomma hy.2 hclosing⟩
  simp [Point.native, hx.1, hy.1]

/-- Clauses of a shape: a keyword and an expression. -/
theorem clauseWith_reads {kind : Kind} (hkind : kind ≠ .endOfInput) (keyword hint : String) :
    Reads (clauseWith nested kind keyword hint) (quietly fun w e =>
      ∃ word w', w = word :: w' ∧ word.token.kind = kind ∧ Makes ExpressionForm w' e) := by
  unfold clauseWith
  refine Reads.weaken (Reads.expect_bind hkind fun _ => h) ?_
  rintro w next new e ⟨word, w', rfl, hword, rfl, he⟩
  exact ⟨rfl, word, w', rfl, hword, he⟩

/-- What follows the word `circle`. -/
theorem circleWith_reads (location : Location) :
    Reads (circleWith nested location) (quietly fun w e =>
      ∀ word : Item, word.token.kind = .keyword (.shape .circle) →
        Makes ShapeForm (word :: w) e) := by
  unfold circleWith colorWith
  refine Reads.weaken (Reads.expect_bind (by decide) fun _ =>
    (pointWith_reads h _ _).bind_quiet fun center =>
    (clauseWith_reads h (by decide) _ _).bind_quiet fun size =>
    (clauseWith_reads h (by decide) _ _).bind_quiet fun fill => Reads.pure _) ?_
  rintro w next new e ⟨place, _, rfl, hplace, wp, _, center, rfl, hcenter, _, _, size, rfl,
    ⟨size', ws, rfl, hsize', hsize⟩, _, _, fill, rfl, ⟨fill', wf, rfl, hfill', hfill⟩,
    rfl, rfl, rfl⟩
  refine ⟨rfl, fun word hword => ⟨?_, ?_⟩⟩
  · simp [hcenter.1, hsize.1, hfill.1]
  · simpa using ShapeForm.circle hword hplace hcenter.2 hsize' hsize.2 hfill' hfill.2

/-- What follows the word `rect`. -/
theorem rectWith_reads (location : Location) :
    Reads (rectWith nested location) (quietly fun w e =>
      ∀ word : Item, word.token.kind = .keyword (.shape .rect) →
        Makes ShapeForm (word :: w) e) := by
  unfold rectWith colorWith
  refine Reads.weaken (Reads.expect_bind (by decide) fun _ =>
    (pointWith_reads h _ _).bind_quiet fun center =>
    (clauseWith_reads h (by decide) _ _).bind_quiet fun width =>
    (clauseWith_reads h (by decide) _ _).bind_quiet fun height =>
    (clauseWith_reads h (by decide) _ _).bind_quiet fun fill => Reads.pure _) ?_
  rintro w next new e ⟨place, _, rfl, hplace, wp, _, center, rfl, hcenter, _, _, width, rfl,
    ⟨width', ww, rfl, hwidth', hwidth⟩, _, _, height, rfl, ⟨height', wh, rfl, hheight', hheight⟩,
    _, _, fill, rfl, ⟨fill', wf, rfl, hfill', hfill⟩, rfl, rfl, rfl⟩
  refine ⟨rfl, fun word hword => ⟨?_, ?_⟩⟩
  · simp [hcenter.1, hwidth.1, hheight.1, hfill.1]
  · simpa using ShapeForm.rect hword hplace hcenter.2 hwidth' hwidth.2 hheight' hheight.2
      hfill' hfill.2

/-- What follows the word `line`. -/
theorem lineWith_reads (location : Location) :
    Reads (lineWith nested location) (quietly fun w e =>
      ∀ word : Item, word.token.kind = .keyword (.shape .line) →
        Makes ShapeForm (word :: w) e) := by
  unfold lineWith colorWith
  refine Reads.weaken ((pointWith_reads h _ _).bind_quiet fun start =>
    (pointWith_reads h _ _).bind_quiet fun stop =>
    (clauseWith_reads h (by decide) _ _).bind_quiet fun fill => Reads.pure _) ?_
  rintro w next new e ⟨w₁, _, start, rfl, hstart, w₂, _, stop, rfl, hstop, _, _, fill, rfl,
    ⟨fill', wf, rfl, hfill', hfill⟩, rfl, rfl, rfl⟩
  refine ⟨rfl, fun word hword => ⟨?_, ?_⟩⟩
  · simp [hstart.1, hstop.1, hfill.1]
  · simpa using ShapeForm.line hword hstart.2 hstop.2 hfill' hfill.2

/-- What follows the word `triangle`. -/
theorem triangleWith_reads (location : Location) :
    Reads (triangleWith nested location) (quietly fun w e =>
      ∀ word : Item, word.token.kind = .keyword (.shape .triangle) →
        Makes ShapeForm (word :: w) e) := by
  unfold triangleWith colorWith
  refine Reads.weaken ((pointWith_reads h _ _).bind_quiet fun first =>
    (pointWith_reads h _ _).bind_quiet fun second =>
    (pointWith_reads h _ _).bind_quiet fun third =>
    (clauseWith_reads h (by decide) _ _).bind_quiet fun fill => Reads.pure _) ?_
  rintro w next new e ⟨w₁, _, first, rfl, hfirst, w₂, _, second, rfl, hsecond, w₃, _, third, rfl,
    hthird, _, _, fill, rfl, ⟨fill', wf, rfl, hfill', hfill⟩, rfl, rfl, rfl⟩
  refine ⟨rfl, fun word hword => ⟨?_, ?_⟩⟩
  · simp [hfirst.1, hsecond.1, hthird.1, hfill.1]
  · simpa using ShapeForm.triangle hword hfirst.2 hsecond.2 hthird.2 hfill' hfill.2

/-- Shapes. -/
theorem shapeWith_reads : Reads (shapeWith nested) (quietly (Makes ShapeForm)) := by
  -- What follows a shape's word reads the rest of that shape.
  have hshape : ∀ {start : Item} {word : ShapeWord} {p : Parser Expr},
      start.token.kind = .keyword (.shape word) →
      Reads p (quietly fun w e => ∀ first : Item, first.token.kind = .keyword (.shape word) →
        Makes ShapeForm (first :: w) e) →
      ReadsAt start (advance >>= fun _ => p) (quietly (Makes ShapeForm)) := by
    intro start word p hstart hp
    refine ReadsAt.weaken (ReadsAt.advance_bind (by rw [hstart]; simp) hp) ?_
    rintro w next new e - ⟨w', rfl, rfl, hmakes⟩
    exact ⟨rfl, hmakes start hstart⟩
  unfold shapeWith
  refine Reads.peek_bind fun start => ?_
  dsimp only
  split
  · rename_i word hword
    cases word with
    | circle => exact hshape hword (circleWith_reads h _)
    | rect => exact hshape hword (rectWith_reads h _)
    | line => exact hshape hword (lineWith_reads h _)
    | triangle => exact hshape hword (triangleWith_reads h _)
  · refine ReadsAt.weaken (primaryWith_reads h start) ?_
    rintro w next new e - ⟨rfl, hmakes⟩
    exact ⟨rfl, hmakes.1, .primary hmakes.2⟩

/-- Calls. -/
theorem callWith_reads : Reads (callWith nested) (quietly (Makes CallForm)) := by
  unfold callWith
  refine Reads.weaken ((shapeWith_reads h).bind_quiet fun callee =>
    Reads.accept_bind (by decide)
      (fun _ => (separated_reads h).bind_quiet fun arguments =>
        Reads.expect_bind (by decide) fun _ => Reads.pure _)
      (Reads.pure callee)) ?_
  rintro w next new e ⟨w₁, _, callee, rfl, hcallee, ⟨opening, _, rfl, hopening, w₂, _, arguments,
    rfl, harguments, closing, _, rfl, hclosing, rfl, rfl, rfl⟩ | ⟨_, rfl, rfl, rfl⟩⟩
  · have hnative : arguments.all Expr.native = true :=
      List.all_eq_true.mpr (harguments.forall fun hmakes => hmakes.1)
    refine ⟨rfl, ?_, ?_⟩
    · rw [Expr.native_call, hcallee.1, hnative, Bool.and_self]
    · rw [Expr.bare_call]
      exact .applied hcallee.2 (by simpa using hopening) (harguments.map fun hmakes => hmakes.2)
        hclosing
  · refine ⟨rfl, hcallee.1, ?_⟩
    simpa using CallForm.plain hcallee.2

end WithNested

-- ============================================================================
-- Operators
-- ============================================================================

/-- Operators and operands after a left side, for a parser of operands that is sound at every
    number of levels. The induction is on the room, which every operator lessens. -/
theorem chainFrom_reads {joins : Kind → Bool} (hjoins : joins .endOfInput = false)
    {F : List Item → Expr → Prop} (room : Nat) (operand : UpTo room)
    (h : ∀ levels hlevels, Reads (operand levels hlevels) (quietly (Makes F))) (left : Expr) :
    Reads (chainFrom joins room operand left) (quietly fun w e =>
      (left.native = true → e.native = true) ∧ JoinedTail joins F left.bare w e.bare) := by
  induction room generalizing left with
  | zero =>
    unfold chainFrom
    refine Reads.weaken (Reads.accept_bind (Q := fun _ _ _ _ _ => False) hjoins
      (fun _ => Reads.reject _ _) (Reads.pure left)) ?_
    rintro w next new e (⟨_, _, _, _, hfalse⟩ | ⟨_, rfl, rfl, rfl⟩)
    · exact hfalse.elim
    · exact ⟨rfl, id, .done⟩
  | succ room ih =>
    unfold chainFrom
    refine Reads.weaken (Reads.accept_bind hjoins
      (fun operator => (h room (Nat.le_succ room)).bind_quiet fun right =>
        ih (operand.restrict (Nat.le_succ room)) (fun _ _ => h _ _)
          (.binary operator.text left right operator.location))
      (Reads.pure left)) ?_
    rintro w next new e (⟨operator, _, rfl, hoperator, w₁, w₂, right, rfl, hright, rfl, hnative,
      htail⟩ | ⟨_, rfl, rfl, rfl⟩)
    · refine ⟨rfl, fun hleft => hnative ?_, .more hoperator hright.2 htail⟩
      rw [Expr.native_binary, hleft, hright.1, Bool.and_self]
    · exact ⟨rfl, id, .done⟩

/-- Operands joined by operators of one group. -/
theorem chain_reads {joins : Kind → Bool} (hjoins : joins .endOfInput = false)
    {F : List Item → Expr → Prop} (room : Nat) (operand : UpTo room)
    (h : ∀ levels hlevels, Reads (operand levels hlevels) (quietly (Makes F))) :
    Reads (chain joins room operand) (quietly (Makes (Joined joins F))) := by
  unfold chain
  refine Reads.weaken ((h room (Nat.le_refl room)).bind_quiet fun first =>
    chainFrom_reads hjoins room operand h first) ?_
  rintro w next new e ⟨w₁, w₂, first, rfl, hfirst, rfl, hnative, htail⟩
  exact ⟨rfl, hnative hfirst.1, .mk hfirst.2 htail⟩

/-- Products. -/
theorem productWith_reads {room : Nat} {nested : UpTo room}
    (h : ∀ levels hlevels, Reads (nested levels hlevels) (quietly (Makes ExpressionForm))) :
    Reads (productWith room nested) (quietly (Makes ProductForm)) :=
  chain_reads rfl room _ fun levels hlevels => callWith_reads (h levels hlevels)

/-- Sums. -/
theorem sumWith_reads {room : Nat} {nested : UpTo room}
    (h : ∀ levels hlevels, Reads (nested levels hlevels) (quietly (Makes ExpressionForm))) :
    Reads (sumWith room nested) (quietly (Makes SumForm)) :=
  chain_reads rfl room _ fun _ _ => productWith_reads fun levels _ => h levels _

/-- Comparisons. -/
theorem comparisonWith_reads {room : Nat} {nested : UpTo room}
    (h : ∀ levels hlevels, Reads (nested levels hlevels) (quietly (Makes ExpressionForm))) :
    Reads (comparisonWith room nested) (quietly (Makes ExpressionForm)) := by
  unfold comparisonWith
  -- Without room an operator is still taken, but nothing can follow it.
  cases room with
  | zero =>
    refine Reads.weaken ((sumWith_reads h).bind_quiet fun left =>
      Reads.accept_bind (Q := fun _ _ _ _ _ => False) rfl (fun _ => Reads.reject _ _)
        (Reads.pure left)) ?_
    rintro w next new e ⟨w₁, w₂, left, rfl, hleft, ⟨_, _, _, _, hfalse⟩ | ⟨_, rfl, rfl, rfl⟩⟩
    · exact hfalse.elim
    · refine ⟨rfl, hleft.1, ?_⟩
      simpa using ExpressionForm.plain hleft.2
  | succ below =>
    refine Reads.weaken ((sumWith_reads h).bind_quiet fun left =>
      Reads.accept_bind rfl
        (fun operator => (sumWith_reads fun levels _ => h levels _).bind_quiet fun right =>
          Reads.pure _)
        (Reads.pure left)) ?_
    rintro w next new e ⟨w₁, _, left, rfl, hleft, ⟨operator, _, rfl, hoperator, w₂, _, right, rfl,
      hright, rfl, rfl, rfl⟩ | ⟨_, rfl, rfl, rfl⟩⟩
    · refine ⟨rfl, ?_, ?_⟩
      · rw [Expr.native_binary, hleft.1, hright.1, Bool.and_self]
      · simpa using ExpressionForm.compared hleft.2 hoperator hright.2
    · refine ⟨rfl, hleft.1, ?_⟩
      simpa using ExpressionForm.plain hleft.2

-- ============================================================================
-- Expressions
-- ============================================================================

/-- Expressions are read as the grammar has them, at every room. -/
theorem expression_reads (room : Nat) :
    Reads (expression room) (quietly (Makes ExpressionForm)) := by
  induction room using Nat.strongRecOn with
  | ind room ih =>
    unfold expression
    cases room with
    | zero => exact Reads.reject _ _
    | succ below =>
      exact comparisonWith_reads fun levels hlevels => ih levels (Nat.lt_succ_of_le hlevels)

end Storyboard.Parse
