/-
  Storyboard.Proofs.Parse.ExprLocal

  Expressions are read in the same way in front of all barriers. No part of an
  expression begins with a barrier, continues with one or asks for one, so each of the
  parsers of the grammar is put together from parts that stop at a barrier with the
  same complaint.
-/
import Storyboard.Proofs.Parse.Barrier

namespace Storyboard.Parse

variable {K : Barrier}

/-- The kinds of barriers. -/
theorem eq_of_bars {kind : Kind} (h : bars kind = true) :
    kind = .endOfInput ∨ kind = .rightBrace ∨ ∃ word, kind = .keyword (.statement word) := by
  cases kind with
  | endOfInput => exact .inl rfl
  | rightBrace => exact .inr (.inl rfl)
  | keyword word =>
    cases word with
    | statement word => exact .inr (.inr ⟨word, rfl⟩)
    | _ => cases h
  | _ => cases h

/-- No barrier passes a test that none of their kinds passes. -/
theorem eq_false_of_bars {test : Kind → Bool} (hend : test .endOfInput = false)
    (hbrace : test .rightBrace = false)
    (hword : ∀ word, test (.keyword (.statement word)) = false) :
    ∀ kind, bars kind = true → test kind = false := by
  intro kind hkind
  obtain rfl | rfl | ⟨word, rfl⟩ := eq_of_bars hkind
  · exact hend
  · exact hbrace
  · exact hword word

-- ============================================================================
-- Primaries and shapes
-- ============================================================================

theorem numberOf_uniform (token : Token) (w : List Item) : Uniform K w (numberOf token) := by
  unfold numberOf
  cases Numeral.read? token.text with
  | some value => exact .gives (.pure K w _)
  | none =>
    have hbreaks : Breaks K w (throw (Failure.notNumber token.text) : Parser Expr)
        (.notNumber token.text) w [] :=
      ⟨List.suffix_refl w, fun {s e} hs => ⟨s, rfl, hs, (List.append_nil _).symm⟩⟩
    exact .breaks hbreaks

section WithNested

variable {nested : Parser Expr} (h : Local K .never nested)
include h

theorem primaryWith_local : Local K .never (primaryWith nested) := by
  unfold primaryWith
  refine Local.peek_bind (g := unexpected) ?_ ?_ (Uniform.unexpected K [])
  · intro x w
    dsimp only
    split
    · exact .advance_bind (.inl (numberOf_uniform _ w))
    · exact .advance_bind (.inl (.gives (.pure K w _)))
    · exact .advance_bind (.inl (.gives (.pure K w _)))
    · exact .advance_bind (.inl (.gives (.pure K w _)))
    · refine .advance_bind ?_
      exact h.bind (fun _ => .expect_bind (by decide) fun _ => .pure _) w
    · exact .inl (Uniform.unexpected K _)
  · intro item hitem
    obtain hkind | hkind | ⟨word, hkind⟩ := eq_of_bars (K.bars hitem)
    all_goals simp only [hkind]

theorem pointWith_local (what hint : String) : Local K .never (pointWith nested what hint) :=
  .expect_bind (by decide) fun _ => h.bind fun _ => .expect_bind (by decide) fun _ =>
    h.bind fun _ => .expect_bind (by decide) fun _ => .pure _

theorem clauseWith_local {word : ClauseWord} (keyword hint : String) :
    Local K .never (clauseWith nested (.keyword (.clause word)) keyword hint) :=
  .expect_bind rfl fun _ => h

theorem circleWith_local (location : Location) : Local K .never (circleWith nested location) :=
  .expect_bind (by decide) fun _ => (pointWith_local h _ _).bind fun _ =>
    (clauseWith_local h _ _).bind fun _ => (clauseWith_local h _ _).bind fun _ => .pure _

theorem rectWith_local (location : Location) : Local K .never (rectWith nested location) :=
  .expect_bind (by decide) fun _ => (pointWith_local h _ _).bind fun _ =>
    (clauseWith_local h _ _).bind fun _ => (clauseWith_local h _ _).bind fun _ =>
      (clauseWith_local h _ _).bind fun _ => .pure _

theorem lineWith_local (location : Location) : Local K .never (lineWith nested location) :=
  (pointWith_local h _ _).bind fun _ => (pointWith_local h _ _).bind fun _ =>
    (clauseWith_local h _ _).bind fun _ => .pure _

theorem triangleWith_local (location : Location) : Local K .never (triangleWith nested location) :=
  (pointWith_local h _ _).bind fun _ => (pointWith_local h _ _).bind fun _ =>
    (pointWith_local h _ _).bind fun _ => (clauseWith_local h _ _).bind fun _ => .pure _

theorem shapeWith_local : Local K .never (shapeWith nested) := by
  unfold shapeWith
  refine Local.peek_bind (g := primaryWith nested) ?_ ?_ ((primaryWith_local h).uniform [])
  · intro x w
    dsimp only
    split
    · rename_i word _
      refine .advance_bind ?_
      cases word with
      | circle => exact circleWith_local h _ w
      | rect => exact rectWith_local h _ w
      | line => exact lineWith_local h _ w
      | triangle => exact triangleWith_local h _ w
    · exact primaryWith_local h _
  · intro item hitem
    dsimp only
    split
    · rename_i word hword
      have hbars := K.bars hitem
      rw [hword] at hbars
      cases hbars
    · rfl

end WithNested

-- ============================================================================
-- Lists and operators
-- ============================================================================

/-- Lists between commas. -/
theorem separated_local {α : Type} {item : Parser α} (h : Local K .never item) :
    Local K .never (separated item) := by
  have hcomma : ∀ kind, bars kind = true → decide (kind = .comma) = false :=
    eq_false_of_bars rfl rfl fun _ => rfl
  have hstep : Local K .never (commaStep item) :=
    .accept_bind hcomma (fun _ => h.bind fun _ => .pure _) (.pure _)
  -- At a barrier there is no comma, so the loop ends there without looking further.
  have hnone : ∀ {s : State}, bars s.cursor.kind = true → commaStep item s = .ok none s := by
    intro s hs
    rw [commaStep, bind_of_ok (show accept (· = .comma) s = .ok none s by
      rw [accept_apply, hcomma _ hs]; rfl)]
    rfl
  have hothers : Local K .never (many (commaStep item)) := by
    refine .of_uniform (uniform_many (fun x w => hstep.uniform _) ?_ ?_)
    · intro s hs
      exact hnone (by rw [hs]; rfl)
    · intro s hs
      exact hnone (K.bars hs)
  have hfirst : Local K .never (do
      let first ← item
      let others ← many (commaStep item)
      return first :: others) := h.bind fun _ => hothers.bind fun _ => .pure _
  rw [separated_eq]
  refine Local.peek_bind (fun x w => ?_) (fun stop hstop => ?_) (hfirst.uniform [])
  · split
    · exact .inl (.gives (.pure K _ _))
    · exact hfirst _
  · -- A barrier is no closing parenthesis, so the list is not taken for an empty one.
    rw [if_neg]
    intro hparen
    have hbars := K.bars hstop
    rw [hparen] at hbars
    cases hbars

theorem callWith_local {nested : Parser Expr} (h : Local K .never nested) :
    Local K .never (callWith nested) := by
  refine (shapeWith_local h).bind fun callee =>
    .accept_bind (eq_false_of_bars rfl rfl fun _ => rfl) (fun _ => ?_) (.pure _)
  exact (separated_local h).bind fun _ => .expect_bind (by decide) fun _ => .pure _

/-- Operators joined to what was read, if no barrier is an operator. -/
theorem chainFrom_local {joins : Kind → Bool}
    (hjoins : ∀ kind, bars kind = true → joins kind = false) {room : Nat} {operand : UpTo room}
    (h : ∀ levels hl, Local K .never (operand levels hl)) (left : Expr) :
    Local K .never (chainFrom joins room operand left) := by
  induction room generalizing left with
  | zero => exact .accept_bind hjoins (fun _ => .tooDeep) (.pure left)
  | succ room ih =>
    refine .accept_bind hjoins (fun _ => ?_) (.pure left)
    exact (h _ _).bind fun _ => ih (fun levels hl => h _ _) _

theorem chain_local {joins : Kind → Bool}
    (hjoins : ∀ kind, bars kind = true → joins kind = false) {room : Nat} {operand : UpTo room}
    (h : ∀ levels hl, Local K .never (operand levels hl)) :
    Local K .never (chain joins room operand) :=
  (h _ _).bind fun left => chainFrom_local hjoins h left

theorem sumWith_local {room : Nat} {nested : UpTo room}
    (h : ∀ levels hl, Local K .never (nested levels hl)) : Local K .never (sumWith room nested) :=
  chain_local (eq_false_of_bars rfl rfl fun _ => rfl) fun _ _ =>
    chain_local (eq_false_of_bars rfl rfl fun _ => rfl) fun _ _ => callWith_local (h _ _)

theorem comparisonWith_local {room : Nat} {nested : UpTo room}
    (h : ∀ levels hl, Local K .never (nested levels hl)) :
    Local K .never (comparisonWith room nested) := by
  refine (sumWith_local h).bind fun left =>
    .accept_bind (eq_false_of_bars rfl rfl fun _ => rfl) (fun operator => ?_) (.pure left)
  cases room with
  | zero => exact .tooDeep
  | succ below => exact (sumWith_local fun levels hl => h _ _).bind fun _ => .pure _

-- ============================================================================
-- Expressions
-- ============================================================================

/-- Expressions are read in the same way in front of all barriers. -/
theorem expression_local (room : Nat) : Local K .never (expression room) := by
  induction room using Nat.strongRecOn with
  | ind room ih =>
    unfold expression
    cases room with
    | zero => exact .tooDeep
    | succ below => exact comparisonWith_local fun levels hl => ih levels (Nat.lt_succ_of_le hl)

end Storyboard.Parse
