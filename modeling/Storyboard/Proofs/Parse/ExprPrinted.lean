/-
  Storyboard.Proofs.Parse.ExprPrinted

  A printed expression is read back. `expression_takes` says: given the items of
  a printed expression, and behind them an item that cannot continue it, the
  parser takes exactly these items and makes the same tree, places apart, unless
  the levels of nesting run out; twice the height and one more are enough.

  The grammar has one level for each group of operators, and a tree is read at
  the level of its topmost operator. So there is, for each level, a lemma that
  passes through it and one that stops at it; what may not stand behind the
  expression grows from level to level.
-/
import Storyboard.Proofs.Parse.Grammar
import Storyboard.Proofs.Parse.Printed
import Storyboard.Proofs.Parse.Taking
import Storyboard.Proofs.Tree.Bare

namespace Storyboard.Parse

/-- The token of an item without its place. -/
def Item.word (item : Item) : Word := item.token.word

theorem Item.kind_of_word {item : Item} {word : Word} (h : item.word = word) :
    item.token.kind = word.kind := congrArg Word.kind h

theorem Item.text_of_word {item : Item} {word : Word} (h : item.word = word) :
    item.token.text = word.text := congrArg Word.text h

-- ============================================================================
-- What may stand behind an expression
-- ============================================================================

/-- Kinds that do not continue a call. -/
def endsCall (kind : Kind) : Bool := kind ≠ .leftParen

/-- Kinds that do not continue a product. -/
def endsProduct (kind : Kind) : Bool := endsCall kind && !kind.isMultiplicative

/-- Kinds that do not continue a sum. -/
def endsSum (kind : Kind) : Bool := endsProduct kind && !kind.isAdditive

/-- Kinds that do not continue an expression. -/
def endsExpression (kind : Kind) : Bool := endsSum kind && !kind.isComparison

/-- An item of one of the given kinds. -/
def Of (kinds : Kind → Bool) (item : Item) : Prop := kinds item.token.kind = true

theorem Of.intro {kinds : Kind → Bool} {item : Item} {kind : Kind}
    (h : item.token.kind = kind) (hkind : kinds kind = true) : Of kinds item := by
  rw [Of, h]
  exact hkind

theorem Of.endsSum {item : Item} (h : Of endsExpression item) : Of endsSum item := by
  simp only [Of, endsExpression, Bool.and_eq_true] at h
  exact h.1

theorem Of.endsProduct {item : Item} (h : Of Parse.endsSum item) : Of endsProduct item := by
  simp only [Of, Parse.endsSum, Bool.and_eq_true] at h
  exact h.1

theorem Of.endsCall {item : Item} (h : Of Parse.endsProduct item) : Of endsCall item := by
  simp only [Of, Parse.endsProduct, Bool.and_eq_true] at h
  exact h.1

theorem Of.not_comparison {item : Item} (h : Of endsExpression item) :
    item.token.kind.isComparison = false := by
  simp only [Of, endsExpression, Bool.and_eq_true, Bool.not_eq_true'] at h
  exact h.2

theorem Of.not_additive {item : Item} (h : Of Parse.endsSum item) :
    item.token.kind.isAdditive = false := by
  simp only [Of, Parse.endsSum, Bool.and_eq_true, Bool.not_eq_true'] at h
  exact h.2

theorem Of.not_multiplicative {item : Item} (h : Of Parse.endsProduct item) :
    item.token.kind.isMultiplicative = false := by
  simp only [Of, Parse.endsProduct, Bool.and_eq_true, Bool.not_eq_true'] at h
  exact h.2

-- ============================================================================
-- Through the levels
-- ============================================================================

section Levels

variable {kept : Bool} {roomy : Prop} {w w₁ w₂ : List Item} {stop stop₁ : Item → Prop}
  {good : Expr → Prop} {left right : Expr}

/-- A primary is read as a shape. -/
theorem shapeWith_takes {nested : Parser Expr} {first : Item}
    (h : Takes kept roomy (first :: w) stop (primaryWith nested) good)
    (hfirst : ∀ word, first.token.kind ≠ .keyword (.shape word)) :
    Takes kept roomy (first :: w) stop (shapeWith nested) good := by
  unfold shapeWith
  refine Takes.peek_bind ?_
  dsimp only
  split
  · rename_i word hword
    exact absurd hword (hfirst word)
  · exact h

/-- A shape is read as a call if no parenthesis follows. -/
theorem callWith_takes {nested : Parser Expr}
    (h : Takes false roomy w stop (shapeWith nested) good)
    (hstop : ∀ next, stop next → Of endsCall next) :
    Takes false roomy w stop (callWith nested) good := by
  unfold callWith
  refine h.bind_nil fun callee hcallee => Takes.accept_bind_none ?_ (Takes.pure hcallee)
  intro next hnext
  simpa [Of, endsCall] using hstop next hnext

/-- A chain without a further operator is what it has so far. -/
theorem chainFrom_takes {joins : Kind → Bool} {room : Nat} {operand : UpTo room}
    (hleft : good left) (hstop : ∀ next, stop next → joins next.token.kind = false) :
    Takes kept roomy [] stop (chainFrom joins room operand left) good := by
  cases room with
  | zero => exact Takes.accept_bind_none hstop (Takes.pure hleft)
  | succ room => exact Takes.accept_bind_none hstop (Takes.pure hleft)

/-- An operand is read as a chain if no operator of its group follows. -/
theorem chain_takes {joins : Kind → Bool} {room : Nat} {operand : UpTo room}
    (h : Takes false roomy w stop (operand room (Nat.le_refl room)) good)
    (hstop : ∀ next, stop next → joins next.token.kind = false) :
    Takes false roomy w stop (chain joins room operand) good :=
  h.bind_nil fun _ he => chainFrom_takes he hstop

/-- Two operands and an operator of their group are read as a chain. -/
theorem chain_takes_binary {joins : Kind → Bool} {room : Nat} {operand : UpTo room}
    {operator : Item} (hoperator : joins operator.token.kind = true) (hroom : roomy → room ≠ 0)
    (hleft : Takes false roomy w₁ stop₁ (operand room (Nat.le_refl room))
      fun e => e.bare = left.bare)
    (hright : ∀ below (h : below + 1 = room), Takes false roomy w₂ stop
      (operand below (h ▸ Nat.le_succ below)) fun e => e.bare = right.bare)
    (hstop₁ : stop₁ operator) (hstop : ∀ next, stop next → joins next.token.kind = false)
    (place : Location) :
    Takes false roomy (w₁ ++ operator :: w₂) stop (chain joins room operand) fun e =>
      e.bare = (Expr.binary operator.token.text left right place).bare := by
  refine hleft.bind (fun e he => ?_) fun _ _ => hstop₁
  cases room with
  | zero =>
    refine Takes.accept_bind_some hoperator (Takes.tooDeep fun hroomy => ?_)
    exact hroom hroomy rfl
  | succ below =>
    refine Takes.accept_bind_some hoperator ?_
    refine (hright below rfl).bind_nil fun e' he' => chainFrom_takes ?_ hstop
    rw [Expr.bare_binary, Expr.bare_binary, he, he']

/-- A sum is read as an expression if no comparison follows. -/
theorem comparisonWith_takes {room : Nat} {nested : UpTo room}
    (h : Takes false roomy w stop (sumWith room nested) good)
    (hstop : ∀ next, stop next → next.token.kind.isComparison = false) :
    Takes false roomy w stop (comparisonWith room nested) good :=
  h.bind_nil fun _ he => Takes.accept_bind_none hstop (Takes.pure he)

/-- Two sums and a comparison between them are read as an expression. -/
theorem comparisonWith_takes_binary {room : Nat} {nested : UpTo room} {operator : Item}
    (hoperator : operator.token.kind.isComparison = true) (hroom : roomy → room ≠ 0)
    (hleft : Takes false roomy w₁ stop₁ (sumWith room nested) fun e => e.bare = left.bare)
    (hright : ∀ below (h : below + 1 = room), Takes false roomy w₂ stop
      (sumWith below (nested.restrict (h ▸ Nat.le_succ below))) fun e => e.bare = right.bare)
    (hstop₁ : stop₁ operator) (place : Location) :
    Takes false roomy (w₁ ++ operator :: w₂) stop (comparisonWith room nested) fun e =>
      e.bare = (Expr.binary operator.token.text left right place).bare := by
  refine hleft.bind (fun e he => ?_) fun _ _ => hstop₁
  refine Takes.accept_bind_some hoperator ?_
  cases room with
  | zero => exact Takes.tooDeep fun hroomy => hroom hroomy rfl
  | succ below =>
    refine (hright below rfl).bind_nil fun e' he' => Takes.pure ?_
    rw [Expr.bare_binary, Expr.bare_binary, he, he']

end Levels

-- ============================================================================
-- Parts of expressions
-- ============================================================================

/-- A parser reads an expression back from its printed form. -/
def ReadsBack (spell : Binary64 → String) (roomy : Prop) (p : Parser Expr) (e : Expr) : Prop :=
  ∀ w : List Item, w.map Item.word = e.words spell →
    Takes false roomy w (Of endsExpression) p fun read => read.bare = e.bare

section Parts

variable {spell : Binary64 → String} {roomy : Prop} {nested : Parser Expr} {w : List Item}

/-- Literals and names are primaries. -/
theorem primaryWith_takes_atomic {e : Expr} (hatomic : e.atomic = true)
    (hprint : e.printable spell = true) (hw : w.map Item.word = e.words spell) :
    Takes false roomy w anywhere (primaryWith nested) fun read => read.bare = e.bare := by
  -- One item, whose kind decides how it is read.
  have hone : ∀ {word : Word}, e.words spell = [word] →
      (∀ item : Item, item.word = word → Takes false roomy [item] anywhere (primaryWith nested)
        fun read => read.bare = e.bare) →
      Takes false roomy w anywhere (primaryWith nested) fun read => read.bare = e.bare := by
    intro word hword hitem
    rw [hword, List.map_eq_singleton_iff] at hw
    obtain ⟨item, rfl, hitem'⟩ := hw
    exact hitem item hitem'
  cases e with
  | identifier id =>
    refine hone rfl fun item hitem => Takes.peek_bind ?_
    simp only [Item.kind_of_word hitem, Word.name]
    refine Takes.advance_bind (Takes.pure ?_)
    rw [Item.text_of_word hitem]
    rfl
  | number value place =>
    refine hone rfl fun item hitem => Takes.peek_bind ?_
    simp only [Item.kind_of_word hitem]
    simp only [Expr.printable, decide_eq_true_eq] at hprint
    refine Takes.advance_bind ?_
    rw [numberOf, Item.text_of_word hitem, hprint]
    exact Takes.pure rfl
  | string value place | color value place =>
    refine hone rfl fun item hitem => Takes.peek_bind ?_
    simp only [Item.kind_of_word hitem]
    refine Takes.advance_bind (Takes.pure ?_)
    rw [Item.text_of_word hitem]
    rfl
  | binary | call | circle | rect | line | triangle | foreign => cases hatomic

/-- Operands are primaries. -/
theorem primaryWith_takes_operand {e : Expr} (he : ReadsBack spell roomy nested e)
    (hprint : e.printable spell = true) (hw : w.map Item.word = e.operandWords spell) :
    Takes false roomy w anywhere (primaryWith nested) fun read => read.bare = e.bare := by
  unfold Expr.operandWords at hw
  split at hw
  · rename_i hatomic
    exact primaryWith_takes_atomic hatomic hprint hw
  · simp only [Word.parenthesized, List.map_eq_cons_iff, List.map_eq_append_iff,
      List.map_eq_nil_iff] at hw
    obtain ⟨opening, _, rfl, hopening, wi, _, rfl, hwi, closing, _, rfl, hclosing, rfl⟩ := hw
    refine Takes.peek_bind ?_
    simp only [Item.kind_of_word hopening, Word.openParen]
    refine Takes.advance_bind ((he wi hwi).bind (fun inner hinner => ?_) fun _ _ => ?_)
    · exact Takes.expect_bind (Item.kind_of_word hclosing) (Takes.pure hinner)
    · exact Of.intro (Item.kind_of_word hclosing) rfl

/-- Two coordinates in parentheses. -/
theorem pointWith_takes {x y : Expr} (hx : ReadsBack spell roomy nested x)
    (hy : ReadsBack spell roomy nested y) {what hint : String}
    (hw : w.map Item.word = Word.point (x.words spell) (y.words spell)) :
    Takes false roomy w anywhere (pointWith nested what hint) fun read =>
      read.bare = Point.bare ⟨x, y⟩ := by
  simp only [Word.point, List.map_eq_cons_iff, List.map_eq_append_iff, List.map_eq_nil_iff] at hw
  obtain ⟨opening, _, rfl, hopening, wx, _, rfl, hwx, comma, _, rfl, hcomma, wy, _, rfl, hwy,
    closing, _, rfl, hclosing, rfl⟩ := hw
  refine Takes.expect_bind (Item.kind_of_word hopening) ((hx wx hwx).bind (fun rx hrx => ?_)
    fun _ _ => Of.intro (Item.kind_of_word hcomma) rfl)
  refine Takes.expect_bind (Item.kind_of_word hcomma) ((hy wy hwy).bind (fun ry hry => ?_)
    fun _ _ => Of.intro (Item.kind_of_word hclosing) rfl)
  refine Takes.expect_bind (Item.kind_of_word hclosing) (Takes.pure ?_)
  simp only [Point.bare, hrx, hry]

/-- A keyword and the expression after it. -/
theorem clauseWith_takes {e : Expr} (he : ReadsBack spell roomy nested e) {word : Keyword}
    {keyword : Item} (hkeyword : keyword.word = .keyword word) {text hint : String}
    (hw : w.map Item.word = e.words spell) :
    Takes false roomy (keyword :: w) (Of endsExpression)
      (clauseWith nested (.keyword word) text hint) fun read => read.bare = e.bare :=
  Takes.expect_bind (Item.kind_of_word hkeyword) (he w hw)

/-- A circle is read back if its parts are. -/
theorem shapeWith_takes_circle {x y size fill : Expr} {place : Location}
    (hx : ReadsBack spell roomy nested x) (hy : ReadsBack spell roomy nested y)
    (hsize : ReadsBack spell roomy nested size) (hfill : ReadsBack spell roomy nested fill)
    (hw : w.map Item.word = (Expr.circle ⟨x, y⟩ size fill place).words spell) :
    Takes false roomy w (Of endsExpression) (shapeWith nested) fun read =>
      read.bare = (Expr.circle ⟨x, y⟩ size fill place).bare := by
  simp only [Expr.words, List.map_eq_cons_iff, List.map_eq_append_iff] at hw
  obtain ⟨word, _, rfl, hword, atWord, _, rfl, hat, wp, _, rfl, hwp, sizeWord, _, rfl, hsizeWord,
    ws, _, rfl, hws, colorWord, wf, rfl, hcolorWord, hwf⟩ := hw
  refine Takes.peek_bind ?_
  simp only [Item.kind_of_word hword, Word.keyword]
  refine Takes.advance_bind (Takes.expect_bind (Item.kind_of_word hat) ?_)
  refine (pointWith_takes hx hy hwp).bind (fun center hcenter => ?_) fun _ _ => trivial
  refine (clauseWith_takes hsize hsizeWord hws).bind (fun read hread => ?_)
    fun _ _ => Of.intro (Item.kind_of_word hcolorWord) rfl
  refine (clauseWith_takes hfill hcolorWord hwf).bind_nil fun color hcolor => Takes.pure ?_
  rw [Expr.bare_circle, Expr.bare_circle, hcenter, hread, hcolor]

/-- A rectangle is read back if its parts are. -/
theorem shapeWith_takes_rect {x y width height fill : Expr} {place : Location}
    (hx : ReadsBack spell roomy nested x) (hy : ReadsBack spell roomy nested y)
    (hwidth : ReadsBack spell roomy nested width) (hheight : ReadsBack spell roomy nested height)
    (hfill : ReadsBack spell roomy nested fill)
    (hw : w.map Item.word = (Expr.rect ⟨x, y⟩ width height fill place).words spell) :
    Takes false roomy w (Of endsExpression) (shapeWith nested) fun read =>
      read.bare = (Expr.rect ⟨x, y⟩ width height fill place).bare := by
  simp only [Expr.words, List.map_eq_cons_iff, List.map_eq_append_iff] at hw
  obtain ⟨word, _, rfl, hword, atWord, _, rfl, hat, wp, _, rfl, hwp, widthWord, _, rfl, hwidthWord,
    ww, _, rfl, hww, heightWord, _, rfl, hheightWord, wh, _, rfl, hwh, colorWord, wf, rfl,
    hcolorWord, hwf⟩ := hw
  refine Takes.peek_bind ?_
  simp only [Item.kind_of_word hword, Word.keyword]
  refine Takes.advance_bind (Takes.expect_bind (Item.kind_of_word hat) ?_)
  refine (pointWith_takes hx hy hwp).bind (fun center hcenter => ?_) fun _ _ => trivial
  refine (clauseWith_takes hwidth hwidthWord hww).bind (fun read₁ hread₁ => ?_)
    fun _ _ => Of.intro (Item.kind_of_word hheightWord) rfl
  refine (clauseWith_takes hheight hheightWord hwh).bind (fun read₂ hread₂ => ?_)
    fun _ _ => Of.intro (Item.kind_of_word hcolorWord) rfl
  refine (clauseWith_takes hfill hcolorWord hwf).bind_nil fun color hcolor => Takes.pure ?_
  rw [Expr.bare_rect, Expr.bare_rect, hcenter, hread₁, hread₂, hcolor]

/-- A line is read back if its parts are. -/
theorem shapeWith_takes_line {x₁ y₁ x₂ y₂ fill : Expr} {place : Location}
    (hx₁ : ReadsBack spell roomy nested x₁) (hy₁ : ReadsBack spell roomy nested y₁)
    (hx₂ : ReadsBack spell roomy nested x₂) (hy₂ : ReadsBack spell roomy nested y₂)
    (hfill : ReadsBack spell roomy nested fill)
    (hw : w.map Item.word = (Expr.line ⟨x₁, y₁⟩ ⟨x₂, y₂⟩ fill place).words spell) :
    Takes false roomy w (Of endsExpression) (shapeWith nested) fun read =>
      read.bare = (Expr.line ⟨x₁, y₁⟩ ⟨x₂, y₂⟩ fill place).bare := by
  simp only [Expr.words, List.map_eq_cons_iff, List.map_eq_append_iff] at hw
  obtain ⟨word, _, rfl, hword, wp₁, _, rfl, hwp₁, wp₂, _, rfl, hwp₂, colorWord, wf, rfl,
    hcolorWord, hwf⟩ := hw
  refine Takes.peek_bind ?_
  simp only [Item.kind_of_word hword, Word.keyword]
  refine Takes.advance_bind ?_
  refine (pointWith_takes hx₁ hy₁ hwp₁).bind (fun start hstart => ?_) fun _ _ => trivial
  refine (pointWith_takes hx₂ hy₂ hwp₂).bind (fun stop hstop => ?_) fun _ _ => trivial
  refine (clauseWith_takes hfill hcolorWord hwf).bind_nil fun color hcolor => Takes.pure ?_
  rw [Expr.bare_line, Expr.bare_line, hstart, hstop, hcolor]

/-- A triangle is read back if its parts are. -/
theorem shapeWith_takes_triangle {first second third : Point Expr} {fill : Expr} {place : Location}
    (hcorners : ∀ point ∈ [first, second, third],
      ReadsBack spell roomy nested point.x ∧ ReadsBack spell roomy nested point.y)
    (hfill : ReadsBack spell roomy nested fill)
    (hw : w.map Item.word = (Expr.triangle [first, second, third] fill place).words spell) :
    Takes false roomy w (Of endsExpression) (shapeWith nested) fun read =>
      read.bare = (Expr.triangle [first, second, third] fill place).bare := by
  simp only [Expr.words, Expr.cornerWords, List.append_assoc, List.nil_append,
    List.map_eq_cons_iff, List.map_eq_append_iff] at hw
  obtain ⟨word, _, rfl, hword, wp₁, _, rfl, hwp₁, wp₂, _, rfl, hwp₂, wp₃, _, rfl, hwp₃, colorWord,
    wf, rfl, hcolorWord, hwf⟩ := hw
  simp only [List.forall_mem_cons, List.not_mem_nil, false_implies, implies_true, and_true]
    at hcorners
  obtain ⟨⟨hx₁, hy₁⟩, ⟨hx₂, hy₂⟩, hx₃, hy₃⟩ := hcorners
  refine Takes.peek_bind ?_
  simp only [Item.kind_of_word hword, Word.keyword]
  refine Takes.advance_bind ?_
  refine (pointWith_takes hx₁ hy₁ hwp₁).bind (fun read₁ hread₁ => ?_) fun _ _ => trivial
  refine (pointWith_takes hx₂ hy₂ hwp₂).bind (fun read₂ hread₂ => ?_) fun _ _ => trivial
  refine (pointWith_takes hx₃ hy₃ hwp₃).bind (fun read₃ hread₃ => ?_) fun _ _ => trivial
  refine (clauseWith_takes hfill hcolorWord hwf).bind_nil fun color hcolor => Takes.pure ?_
  simp only [Expr.bare_triangle, List.map_cons, List.map_nil, hread₁, hread₂, hread₃, hcolor]

end Parts

section Lists

open Grammar

-- `G` is the form of a part, `view` is what is compared of it, and `stop` is where it may end.
variable {α γ : Type} {roomy : Prop} {one : Parser α} {view : α → γ} {stop : Item → Prop}
  {w : List Item}

section Forms

variable {G : List Item → γ → Prop} {parts : List γ}

/-- What follows a part is a comma or the closing parenthesis. -/
theorem stop_of_commaTail (hcomma : ∀ next : Item, next.token.kind = .comma → stop next)
    (hclosing : ∀ next : Item, next.token.kind = .rightParen → stop next)
    (hw : CommaTail G w parts) (next : Item) (hnext : next.token.kind = .rightParen) :
    stop (w.headD next) := by
  cases hw with
  | done => exact hclosing next hnext
  | more hkind => exact hcomma _ hkind

/-- Parts with a comma in front of each, up to a closing parenthesis. -/
theorem many_commaStep_takes (hw : CommaTail G w parts)
    (hone : ∀ {v a}, v <:+: w → G v a → Takes false roomy v stop one fun read => view read = a)
    (hcomma : ∀ next : Item, next.token.kind = .comma → stop next)
    (hclosing : ∀ next : Item, next.token.kind = .rightParen → stop next) :
    Takes false roomy w (fun next => next.token.kind = .rightParen) (many (commaStep one))
      fun read => read.map view = parts := by
  induction hw with
  | done =>
    refine Takes.mono (Takes.many_nil (Takes.accept_bind_none ?_ (Takes.pure rfl))) id id ?_
    · intro next hnext
      simp [hnext]
    · rintro _ rfl
      rfl
  | @more comma v rest a as hkind ha htail ih =>
    -- Both parts stand inside the whole, where the parts are known to be read back.
    have hfirst : v <:+: comma :: (v ++ rest) :=
      (List.prefix_append v rest).isInfix.trans (List.suffix_cons comma _).isInfix
    have hrest : rest <:+: comma :: (v ++ rest) :=
      ((List.suffix_append v rest).trans (List.suffix_cons comma _)).isInfix
    have hstep : Takes false roomy (comma :: v) stop (commaStep one) fun read? =>
        ∃ read, read? = some read ∧ view read = a := by
      apply Takes.accept_bind_some
      · simp [hkind]
      · exact (hone hfirst ha).bind_nil fun read hread => Takes.pure ⟨read, rfl, hread⟩
    refine Takes.mono (Takes.many_cons hstep (List.cons_ne_nil comma v)
      (ih fun hv => hone (hv.trans hrest)) (stop_of_commaTail hcomma hclosing htail)
      fun hkept => absurd hkept Bool.false_ne_true) id id ?_
    rintro _ ⟨read, reads, rfl, hread, hreads⟩
    rw [List.map_cons, hread, hreads]

/-- Parts with commas between them, up to a closing parenthesis. -/
theorem separated_takes_forms (hw : Separated G w parts)
    (hone : ∀ {v a}, v <:+: w → G v a → Takes false roomy v stop one fun read => view read = a)
    (hfirst : ∀ {v a}, G v a → ∃ first others, v = first :: others ∧
      first.token.kind ≠ .rightParen)
    (hcomma : ∀ next : Item, next.token.kind = .comma → stop next)
    (hclosing : ∀ next : Item, next.token.kind = .rightParen → stop next) :
    Takes false roomy w (fun next => next.token.kind = .rightParen) (separated one) fun read =>
      read.map view = parts := by
  rw [separated_eq]
  cases hw with
  | empty =>
    refine Takes.peek_bind_next fun next hnext => ?_
    rw [if_pos hnext]
    exact Takes.pure rfl
  | @listed v rest a as ha htail =>
    have htaken := hone (List.prefix_append v rest).isInfix ha
    obtain ⟨first, others, rfl, hkind⟩ := hfirst ha
    apply Takes.peek_bind
    rw [if_neg hkind]
    refine htaken.bind (fun read hread => ?_) (stop_of_commaTail hcomma hclosing htail)
    refine (many_commaStep_takes htail (fun hv => hone (hv.trans (List.suffix_append _ _).isInfix))
      hcomma hclosing).bind_nil fun reads hreads => Takes.pure ?_
    rw [List.map_cons, hread, hreads]

end Forms

variable {words : α → List Word} {parts : List α}

/-- The items of a part that is printed. -/
def Prints (words : α → List Word) (view : α → γ) (parts : List α) (w : List Item) (c : γ) : Prop :=
  ∃ a ∈ parts, w.map Item.word = words a ∧ view a = c

/-- Printed parts with a comma in front of each. -/
theorem commaTail_of_words {all : List α} (hparts : ∀ a ∈ parts, a ∈ all)
    (hw : w.map Item.word = parts.flatMap (fun a => Word.comma :: words a)) :
    CommaTail (Prints words view all) w (parts.map view) := by
  induction parts generalizing w with
  | nil =>
    obtain rfl := List.map_eq_nil_iff.mp hw
    exact .done
  | cons a others ih =>
    obtain ⟨ha, hothers⟩ := List.forall_mem_cons.mp hparts
    simp only [List.flatMap_cons, List.cons_append, List.map_eq_cons_iff,
      List.map_eq_append_iff] at hw
    obtain ⟨comma, _, rfl, hkind, wa, wo, rfl, hwa, hwo⟩ := hw
    exact .more (Item.kind_of_word hkind) ⟨a, ha, hwa, rfl⟩ (ih hothers hwo)

/-- Printed parts with commas between them. -/
theorem separated_of_words (hw : w.map Item.word = Word.separated (parts.map words)) :
    Separated (Prints words view parts) w (parts.map view) := by
  cases parts with
  | nil =>
    obtain rfl := List.map_eq_nil_iff.mp hw
    exact .empty
  | cons a others =>
    simp only [List.map_cons, Word.separated, List.flatMap_map, List.map_eq_append_iff] at hw
    obtain ⟨wa, wo, rfl, hwa, hwo⟩ := hw
    exact .listed ⟨a, List.mem_cons_self, hwa, rfl⟩
      (commaTail_of_words (fun _ hmem => List.mem_cons_of_mem a hmem) hwo)

/-- Printed parts with commas between them are read back if each of them is. -/
theorem separated_takes
    (hone : ∀ a ∈ parts, ∀ w : List Item, w.map Item.word = words a →
      Takes false roomy w stop one fun read => view read = view a)
    (hfirst : ∀ a ∈ parts, ∃ first others, words a = first :: others ∧ first.kind ≠ .rightParen)
    (hcomma : ∀ next : Item, next.token.kind = .comma → stop next)
    (hclosing : ∀ next : Item, next.token.kind = .rightParen → stop next)
    (hw : w.map Item.word = Word.separated (parts.map words)) :
    Takes false roomy w (fun next => next.token.kind = .rightParen) (separated one) fun read =>
      read.map view = parts.map view := by
  refine separated_takes_forms (separated_of_words hw) ?_ ?_ hcomma hclosing
  · rintro v _ - ⟨a, ha, hv, rfl⟩
    exact hone a ha v hv
  · rintro v _ ⟨a, ha, hv, -⟩
    obtain ⟨first, others, hwords, hkind⟩ := hfirst a ha
    obtain ⟨item, wr, rfl, hitem, -⟩ := List.map_eq_cons_iff.mp (hv.trans hwords)
    exact ⟨item, wr, rfl, by rw [Item.kind_of_word hitem]; exact hkind⟩

end Lists

-- ============================================================================
-- Expressions
-- ============================================================================

section Printed

variable {spell : Binary64 → String} {roomy roomy' : Prop} {room : Nat} {e : Expr} {w : List Item}

/-- Reading back under a stronger condition on the room. -/
theorem ReadsBack.mono {p : Parser Expr} (h : ReadsBack spell roomy p e)
    (hroomy : roomy' → roomy) : ReadsBack spell roomy' p e :=
  fun w hw => (h w hw).mono hroomy id id

/-- Operands are calls. -/
theorem callWith_takes_operand (he : ReadsBack spell roomy (expression room) e)
    (hprint : e.printable spell = true) (hw : w.map Item.word = e.operandWords spell) :
    Takes false roomy w (Of endsCall) (callWith (expression room)) fun read =>
      read.bare = e.bare := by
  obtain ⟨first, others, hwords, hfirst⟩ := Expr.operandWords_eq_cons spell e
  obtain ⟨item, wr, rfl, hitem, -⟩ := List.map_eq_cons_iff.mp (hw.trans hwords)
  refine callWith_takes (shapeWith_takes ?_ fun word => ?_) fun _ hnext => hnext
  · exact (primaryWith_takes_operand he hprint hw).mono id (fun _ => trivial) id
  · rw [Item.kind_of_word hitem]
    exact hfirst word

/-- Operands are products. -/
theorem productWith_takes_operand (he : ReadsBack spell roomy (expression room) e)
    (hprint : e.printable spell = true) (hw : w.map Item.word = e.operandWords spell) :
    Takes false roomy w (Of endsProduct) (productWith room (expressions room)) fun read =>
      read.bare = e.bare := by
  refine chain_takes ((callWith_takes_operand he hprint hw).mono id Of.endsCall id) ?_
  exact fun _ hnext => hnext.not_multiplicative

/-- Operands are sums. -/
theorem sumWith_takes_operand (he : ReadsBack spell roomy (expression room) e)
    (hprint : e.printable spell = true) (hw : w.map Item.word = e.operandWords spell) :
    Takes false roomy w (Of endsSum) (sumWith room (expressions room)) fun read =>
      read.bare = e.bare := by
  refine chain_takes ((productWith_takes_operand he hprint hw).mono id Of.endsProduct id) ?_
  exact fun _ hnext => hnext.not_additive

/-- What is read as a call is read as an expression with one level more. -/
theorem expression_takes_of_call {good : Expr → Prop} (hroom : roomy → room ≠ 0)
    (h : ∀ below, room = below + 1 →
      Takes false roomy w (Of endsExpression) (callWith (expression below)) good) :
    Takes false roomy w (Of endsExpression) (expression room) good := by
  cases room with
  | zero =>
    rw [expression]
    exact Takes.tooDeep fun hroomy => hroom hroomy rfl
  | succ below =>
    rw [expression]
    exact comparisonWith_takes (chain_takes (chain_takes (h below rfl)
      fun _ hnext => hnext.endsSum.endsProduct.not_multiplicative) fun _ hnext => hnext.endsSum.not_additive)
      fun _ hnext => hnext.not_comparison

/-- What is read as a shape is read as an expression with one level more. -/
theorem expression_takes_of_shape {good : Expr → Prop} (hroom : roomy → room ≠ 0)
    (h : ∀ below, room = below + 1 →
      Takes false roomy w (Of endsExpression) (shapeWith (expression below)) good) :
    Takes false roomy w (Of endsExpression) (expression room) good :=
  expression_takes_of_call hroom fun below hbelow =>
    callWith_takes (h below hbelow) fun _ hnext => hnext.endsSum.endsProduct.endsCall

/-- Literals and names are read back. -/
theorem expression_takes_atomic (hatomic : e.atomic = true) (hprint : e.printable spell = true)
    (hroom : roomy → room ≠ 0) : ReadsBack spell roomy (expression room) e := by
  intro w hw
  obtain ⟨first, others, hwords, hfirst⟩ := Expr.operandWords_eq_cons spell e
  rw [Expr.operandWords, if_pos hatomic] at hwords
  obtain ⟨item, wr, rfl, hitem, -⟩ := List.map_eq_cons_iff.mp (hw.trans hwords)
  refine expression_takes_of_shape hroom fun below _ => shapeWith_takes ?_ fun word => ?_
  · exact (primaryWith_takes_atomic hatomic hprint hw).mono id (fun _ => trivial) id
  · rw [Item.kind_of_word hitem]
    exact hfirst word

/-- Operators are read back if their operands are: the left one with one level less than there
    is, the right one with two less. -/
theorem expression_takes_binary {operator : String} {left right : Expr} {place : Location}
    (hprint : (Expr.binary operator left right place).printable spell = true)
    (hroom : roomy → 2 ≤ room)
    (hleft : ∀ below, room = below + 1 → ReadsBack spell roomy (expression below) left)
    (hright : ∀ below, room = below + 2 → ReadsBack spell roomy (expression below) right) :
    ReadsBack spell roomy (expression room) (.binary operator left right place) := by
  intro w hw
  simp only [Expr.printable, Bool.and_eq_true] at hprint
  obtain ⟨⟨hoperator, hpl⟩, hpr⟩ := hprint
  change w.map Item.word = left.operandWords spell ++ .operator operator ::
    right.operandWords spell at hw
  simp only [List.map_eq_append_iff, List.map_eq_cons_iff] at hw
  obtain ⟨wl, _, rfl, hwl, item, wr, rfl, hitem, hwr⟩ := hw
  have htext : operator = item.token.text := (Item.text_of_word hitem).symm
  rw [htext]
  cases room with
  | zero =>
    rw [expression]
    exact Takes.tooDeep fun hroomy => absurd (hroom hroomy) (by omega)
  | succ room =>
    rw [expression]
    have hne : roomy → room ≠ 0 := fun hroomy => by have := hroom hroomy; omega
    have hleft := hleft room rfl
    -- The kind of the operator says at which level the two operands are joined.
    obtain ⟨kind, hlookup⟩ := Option.isSome_iff_exists.mp hoperator
    have hkind : item.token.kind = kind := by
      rw [Item.kind_of_word hitem, Word.operator, hlookup, Option.getD_some]
    obtain ⟨c, rfl⟩ | ⟨a, rfl⟩ | ⟨m, rfl⟩ := operators_lookup_mem hlookup
    · refine comparisonWith_takes_binary (by rw [hkind]; rfl) hne
        (sumWith_takes_operand hleft hpl hwl) ?_ (Of.intro hkind rfl) place
      rintro below rfl
      exact (sumWith_takes_operand (hright below rfl) hpr hwr).mono id Of.endsSum id
    · refine comparisonWith_takes (chain_takes_binary (by rw [hkind]; rfl) hne
        (productWith_takes_operand hleft hpl hwl) ?_ (Of.intro hkind rfl) ?_ place) ?_
      · rintro below rfl
        exact (productWith_takes_operand (hright below rfl) hpr hwr).mono id
          (fun hnext => hnext.endsSum.endsProduct) id
      · exact fun next hnext => hnext.endsSum.not_additive
      · exact fun next hnext => hnext.not_comparison
    · refine comparisonWith_takes (chain_takes (chain_takes_binary (by rw [hkind]; rfl) hne
        (callWith_takes_operand hleft hpl hwl) ?_ (Of.intro hkind rfl) ?_ place) ?_) ?_
      · rintro below rfl
        exact (callWith_takes_operand (hright below rfl) hpr hwr).mono id
          (fun hnext => hnext.endsSum.endsProduct.endsCall) id
      · exact fun next hnext => hnext.endsSum.endsProduct.not_multiplicative
      · exact fun next hnext => hnext.endsSum.not_additive
      · exact fun next hnext => hnext.not_comparison

/-- Calls are read back if the callee and the arguments are. -/
theorem expression_takes_call {callee : Expr} {arguments : List Expr} {place : Location}
    (hprint : (Expr.call callee arguments place).printable spell = true)
    (hroom : roomy → room ≠ 0)
    (hcallee : ∀ below, room = below + 1 → ReadsBack spell roomy (expression below) callee)
    (harguments : ∀ below, room = below + 1 → ∀ e ∈ arguments,
      ReadsBack spell roomy (expression below) e) :
    ReadsBack spell roomy (expression room) (.call callee arguments place) := by
  intro w hw
  simp only [Expr.printable, Bool.and_eq_true, Expr.allPrintable_iff] at hprint
  change w.map Item.word = callee.operandWords spell ++
    Word.parenthesized (Word.separated (Expr.allWords spell arguments)) at hw
  simp only [Expr.allWords_eq_map, Word.parenthesized, List.map_eq_append_iff,
    List.map_eq_cons_iff, List.map_eq_nil_iff] at hw
  obtain ⟨wf, _, rfl, hwf, opening, _, rfl, hopening, wa, _, rfl, hwa, closing, _, rfl, hclosing,
    rfl⟩ := hw
  obtain ⟨first, others, hwords, hfirst⟩ := Expr.operandWords_eq_cons spell callee
  refine expression_takes_of_call hroom fun below hbelow => ?_
  -- The callee is printed as an operand, so no word of a shape begins it.
  have hshape : Takes false roomy wf anywhere (shapeWith (expression below)) fun read =>
      read.bare = callee.bare := by
    obtain ⟨item, wr, rfl, hitem, -⟩ := List.map_eq_cons_iff.mp (hwf.trans hwords)
    refine shapeWith_takes (primaryWith_takes_operand (hcallee below hbelow) hprint.1 hwf) ?_
    intro word
    rw [Item.kind_of_word hitem]
    exact hfirst word
  have hseparated : Takes false roomy wa (fun next => next.token.kind = .rightParen)
      (separated (expression below)) fun reads =>
        reads.map Expr.bare = arguments.map Expr.bare := by
    refine separated_takes (harguments below hbelow) (fun e he => ?_)
      (fun _ hkind => Of.intro hkind rfl) (fun _ hkind => Of.intro hkind rfl) hwa
    obtain ⟨first, others, hwords, hstarts⟩ := Expr.words_eq_cons (hprint.2 e he)
    refine ⟨first, others, hwords, ?_⟩
    intro hkind
    rw [hkind] at hstarts
    cases hstarts
  refine hshape.bind (fun read hread => ?_) fun _ _ => trivial
  refine Takes.accept_bind_some (by simp [Item.kind_of_word hopening, Word.openParen]) ?_
  refine hseparated.bind (fun reads hreads => ?_) fun _ _ => Item.kind_of_word hclosing
  refine Takes.expect_bind (Item.kind_of_word hclosing) (Takes.pure ?_)
  rw [Expr.bare_call, Expr.bare_call, hread, hreads]

/-- The corners of a triangle. -/
theorem exists_corners_of_length {corners : List (Point Expr)} (h : corners.length = 3) :
    ∃ first second third, corners = [first, second, third] := by
  rcases corners with _ | ⟨first, _ | ⟨second, _ | ⟨third, _ | ⟨fourth, others⟩⟩⟩⟩
  · cases h
  · cases h
  · cases h
  · exact ⟨first, second, third, rfl⟩
  · simp at h

/-- Every expression that can be printed is read back, unless the levels of nesting run out;
    twice its height and one more are enough. -/
theorem expression_takes (hprint : e.printable spell = true) (room : Nat) :
    ReadsBack spell (2 * e.height + 1 ≤ room) (expression room) e := by
  -- A right operand takes two levels, one behind its operator and one in its parentheses; that is
  -- why the height counts twice.
  induction e using Expr.induction generalizing room with
  | identifier | number | string | color =>
    exact expression_takes_atomic rfl hprint fun hroomy => by omega
  | binary operator left right place hleft hright =>
    have hparts := hprint
    simp only [Expr.printable, Bool.and_eq_true] at hparts
    simp only [Expr.height]
    refine expression_takes_binary hprint (fun hroomy => by omega) ?_ ?_
    · rintro below rfl
      exact (hleft hparts.1.2 below).mono fun hroomy => by omega
    · rintro below rfl
      exact (hright hparts.2 below).mono fun hroomy => by omega
  | call callee arguments place hcallee harguments =>
    have hparts := hprint
    simp only [Expr.printable, Bool.and_eq_true, Expr.allPrintable_iff] at hparts
    simp only [Expr.height]
    refine expression_takes_call hprint (fun hroomy => by omega) ?_ ?_
    · rintro below rfl
      exact (hcallee hparts.1 below).mono fun hroomy => by omega
    · rintro below rfl e he
      have hless := Expr.height_lt_allHeight he
      exact (harguments e he (hparts.2 e he) below).mono fun hroomy => by omega
  | circle x y size fill place hx hy hsize hfill =>
    simp only [Expr.printable, Bool.and_eq_true] at hprint
    simp only [Expr.height]
    intro w hw
    refine expression_takes_of_shape (fun hroomy => by omega) ?_
    rintro below rfl
    exact shapeWith_takes_circle ((hx hprint.1.1.1 below).mono fun hroomy => by omega)
      ((hy hprint.1.1.2 below).mono fun hroomy => by omega)
      ((hsize hprint.1.2 below).mono fun hroomy => by omega)
      ((hfill hprint.2 below).mono fun hroomy => by omega) hw
  | rect x y width height fill place hx hy hwidth hheight hfill =>
    simp only [Expr.printable, Bool.and_eq_true] at hprint
    simp only [Expr.height]
    intro w hw
    refine expression_takes_of_shape (fun hroomy => by omega) ?_
    rintro below rfl
    exact shapeWith_takes_rect ((hx hprint.1.1.1.1 below).mono fun hroomy => by omega)
      ((hy hprint.1.1.1.2 below).mono fun hroomy => by omega)
      ((hwidth hprint.1.1.2 below).mono fun hroomy => by omega)
      ((hheight hprint.1.2 below).mono fun hroomy => by omega)
      ((hfill hprint.2 below).mono fun hroomy => by omega) hw
  | line x₁ y₁ x₂ y₂ fill place hx₁ hy₁ hx₂ hy₂ hfill =>
    simp only [Expr.printable, Bool.and_eq_true] at hprint
    simp only [Expr.height]
    intro w hw
    refine expression_takes_of_shape (fun hroomy => by omega) ?_
    rintro below rfl
    exact shapeWith_takes_line ((hx₁ hprint.1.1.1.1 below).mono fun hroomy => by omega)
      ((hy₁ hprint.1.1.1.2 below).mono fun hroomy => by omega)
      ((hx₂ hprint.1.1.2 below).mono fun hroomy => by omega)
      ((hy₂ hprint.1.2 below).mono fun hroomy => by omega)
      ((hfill hprint.2 below).mono fun hroomy => by omega) hw
  | triangle corners fill place hcorners hfill =>
    simp only [Expr.printable, Bool.and_eq_true, decide_eq_true_eq,
      Expr.cornersPrintable_iff] at hprint
    obtain ⟨⟨hlength, hprintCorners⟩, hprintFill⟩ := hprint
    -- Only a triangle with three corners can be printed.
    obtain ⟨first, second, third, rfl⟩ := exists_corners_of_length hlength
    simp only [Expr.height]
    intro w hw
    refine expression_takes_of_shape (fun hroomy => by omega) ?_
    rintro below rfl
    refine shapeWith_takes_triangle (fun point hpoint => ?_)
      ((hfill hprintFill below).mono fun hroomy => by omega) hw
    have hless := Expr.height_lt_cornersHeight hpoint
    have hprint := hprintCorners point hpoint
    exact ⟨((hcorners point hpoint).1 hprint.1 below).mono fun hroomy => by omega,
      ((hcorners point hpoint).2 hprint.2 below).mono fun hroomy => by omega⟩
  | foreign => simp [Expr.printable] at hprint

end Printed

end Storyboard.Parse
