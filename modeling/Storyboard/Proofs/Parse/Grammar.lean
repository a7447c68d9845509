/-
  Storyboard.Proofs.Parse.Grammar

  The grammar as a relation between items and trees, one constructor for each
  form of each rule:

    program    ::= statement*
    statement  ::= 'let' IDENTIFIER '=' expression
                 | 'fn' IDENTIFIER '(' [IDENTIFIER (',' IDENTIFIER)*] ')' block
                 | 'return' [expression] | branch | 'repeat' expression block
                 | 'animate' '{' command* '}' | 'scene' IDENTIFIER block | expression
    branch     ::= 'if' expression block ['else' (block | branch)]
    block      ::= '{' statement* '}'
    command    ::= 'move' primary [direction] | ('rotate' | 'scale' | 'fade') primary
    expression ::= sum [('==' | '!=' | '<' | '>' | '<=' | '>=') sum]
    sum        ::= product (('+' | '-') product)*
    product    ::= call (('*' | '/' | '%') call)*
    call       ::= shape ['(' [expression (',' expression)*] ')']
    shape      ::= circle | rect | line | triangle | primary
    point      ::= '(' expression ',' expression ')'
    primary    ::= NUMBER | STRING | COLOR | IDENTIFIER | '(' expression ')'

  A form relates the items that are written, all of them and each of them once,
  to a bare tree. The relation does not mention the parser, its limit on nesting
  or its recovery from errors. Three readings are fixed here and not by the
  rules above: operators of one group are taken from left to right; whether a
  `return` has a value is decided by the item behind it; and between the commands
  of an `animate` block other items may stand that mean nothing.
-/
import Storyboard.Number.Numeral
import Storyboard.Parse.Cursor
import Storyboard.Proofs.Tree.Bare

namespace Storyboard.Grammar

open Parse (Item)

/-! ## Repetition -/

section Repetition

variable {α : Type}

/-- What follows the first of several forms: each of them behind a comma. -/
inductive CommaTail (G : List Item → α → Prop) : List Item → List α → Prop where
  | done : CommaTail G [] []
  | more {comma : Item} {w rest : List Item} {a : α} {as : List α} :
      comma.token.kind = .comma → G w a → CommaTail G rest as →
      CommaTail G (comma :: (w ++ rest)) (a :: as)

/-- Any number of forms between commas. -/
inductive Separated (G : List Item → α → Prop) : List Item → List α → Prop where
  | empty : Separated G [] []
  | listed {w rest : List Item} {a : α} {as : List α} :
      G w a → CommaTail G rest as → Separated G (w ++ rest) (a :: as)

section Lists

variable {β : Type} {G : List Item → α → Prop} {w : List Item} {as : List α}

/-- A tail whose forms are also of another kind, with other trees. -/
theorem CommaTail.map {H : List Item → β → Prop} {f : α → β}
    (hGH : ∀ {w a}, G w a → H w (f a)) (h : CommaTail G w as) : CommaTail H w (as.map f) := by
  induction h with
  | done => exact .done
  | more hcomma hG _ ih => exact .more hcomma (hGH hG) ih

/-- A list whose forms are also of another kind, with other trees. -/
theorem Separated.map {H : List Item → β → Prop} {f : α → β}
    (hGH : ∀ {w a}, G w a → H w (f a)) (h : Separated G w as) : Separated H w (as.map f) := by
  cases h with
  | empty => exact .empty
  | listed hG htail => exact .listed (hGH hG) (htail.map hGH)

/-- What holds of every form holds of every member of a tail. -/
theorem CommaTail.forall {P : α → Prop} (hGP : ∀ {w a}, G w a → P a) (h : CommaTail G w as) :
    ∀ a ∈ as, P a := by
  induction h with
  | done => simp
  | more _ hG _ ih => exact List.forall_mem_cons.mpr ⟨hGP hG, ih⟩

/-- What holds of every form holds of every member of a list. -/
theorem Separated.forall {P : α → Prop} (hGP : ∀ {w a}, G w a → P a) (h : Separated G w as) :
    ∀ a ∈ as, P a := by
  cases h with
  | empty => simp
  | listed hG htail => exact List.forall_mem_cons.mpr ⟨hGP hG, htail.forall hGP⟩

end Lists

/-- What operators and operands behind a left side make of it. -/
inductive JoinedTail (joins : Kind → Bool) (G : List Item → Expr → Prop) :
    Expr → List Item → Expr → Prop where
  | done {left : Expr} : JoinedTail joins G left [] left
  | more {operator : Item} {w rest : List Item} {left right whole : Expr} :
      joins operator.token.kind = true → G w right →
      JoinedTail joins G (.binary operator.token.text left right .start) rest whole →
      JoinedTail joins G left (operator :: (w ++ rest)) whole

/-- Operands joined by operators, from left to right. -/
inductive Joined (joins : Kind → Bool) (G : List Item → Expr → Prop) :
    List Item → Expr → Prop where
  | mk {w rest : List Item} {first whole : Expr} :
      G w first → JoinedTail joins G first rest whole → Joined joins G (w ++ rest) whole

end Repetition

/-! ## Expressions -/

mutual

/-- A sum, or two sums compared. -/
inductive ExpressionForm : List Item → Expr → Prop where
  | plain {w : List Item} {e : Expr} :
      Joined Kind.isAdditive (Joined Kind.isMultiplicative CallForm) w e → ExpressionForm w e
  | compared {w₁ w₂ : List Item} {operator : Item} {left right : Expr} :
      Joined Kind.isAdditive (Joined Kind.isMultiplicative CallForm) w₁ left →
      operator.token.kind.isComparison = true →
      Joined Kind.isAdditive (Joined Kind.isMultiplicative CallForm) w₂ right →
      ExpressionForm (w₁ ++ operator :: w₂) (.binary operator.token.text left right .start)

/-- A shape or a primary, alone or with arguments. -/
inductive CallForm : List Item → Expr → Prop where
  | plain {w : List Item} {e : Expr} : ShapeForm w e → CallForm w e
  | applied {w₁ w₂ : List Item} {opening closing : Item} {callee : Expr} {arguments : List Expr} :
      ShapeForm w₁ callee → opening.token.kind = .leftParen →
      Separated ExpressionForm w₂ arguments → closing.token.kind = .rightParen →
      CallForm (w₁ ++ opening :: (w₂ ++ [closing])) (.call callee arguments .start)

/-- A shape with all its clauses, or a primary. -/
inductive ShapeForm : List Item → Expr → Prop where
  | circle {word place size fill : Item} {wp ws wf : List Item} {center : Point Expr}
      {sizeValue fillValue : Expr} :
      word.token.kind = .keyword (.shape .circle) →
      place.token.kind = .keyword (.clause .place) → PointForm wp center →
      size.token.kind = .keyword (.clause .size) → ExpressionForm ws sizeValue →
      fill.token.kind = .keyword (.clause .color) → ExpressionForm wf fillValue →
      ShapeForm (word :: place :: (wp ++ size :: (ws ++ fill :: wf)))
        (.circle center sizeValue fillValue .start)
  | rect {word place width height fill : Item} {wp ww wh wf : List Item} {center : Point Expr}
      {widthValue heightValue fillValue : Expr} :
      word.token.kind = .keyword (.shape .rect) →
      place.token.kind = .keyword (.clause .place) → PointForm wp center →
      width.token.kind = .keyword (.clause .width) → ExpressionForm ww widthValue →
      height.token.kind = .keyword (.clause .height) → ExpressionForm wh heightValue →
      fill.token.kind = .keyword (.clause .color) → ExpressionForm wf fillValue →
      ShapeForm (word :: place :: (wp ++ width :: (ww ++ height :: (wh ++ fill :: wf))))
        (.rect center widthValue heightValue fillValue .start)
  | line {word fill : Item} {w₁ w₂ wf : List Item} {start stop : Point Expr} {fillValue : Expr} :
      word.token.kind = .keyword (.shape .line) → PointForm w₁ start → PointForm w₂ stop →
      fill.token.kind = .keyword (.clause .color) → ExpressionForm wf fillValue →
      ShapeForm (word :: (w₁ ++ (w₂ ++ fill :: wf))) (.line start stop fillValue .start)
  | triangle {word fill : Item} {w₁ w₂ w₃ wf : List Item} {a b c : Point Expr}
      {fillValue : Expr} :
      word.token.kind = .keyword (.shape .triangle) →
      PointForm w₁ a → PointForm w₂ b → PointForm w₃ c →
      fill.token.kind = .keyword (.clause .color) → ExpressionForm wf fillValue →
      ShapeForm (word :: (w₁ ++ (w₂ ++ (w₃ ++ fill :: wf)))) (.triangle [a, b, c] fillValue .start)
  | primary {w : List Item} {e : Expr} : PrimaryForm w e → ShapeForm w e

/-- Two coordinates in parentheses. -/
inductive PointForm : List Item → Point Expr → Prop where
  | mk {opening comma closing : Item} {wx wy : List Item} {x y : Expr} :
      opening.token.kind = .leftParen → ExpressionForm wx x → comma.token.kind = .comma →
      ExpressionForm wy y → closing.token.kind = .rightParen →
      PointForm (opening :: (wx ++ comma :: (wy ++ [closing]))) ⟨x, y⟩

/-- A literal, a name, or an expression in parentheses, which is the expression inside. -/
inductive PrimaryForm : List Item → Expr → Prop where
  | number {item : Item} {value : Binary64} :
      item.token.kind = .number → Numeral.read? item.token.text = some value →
      PrimaryForm [item] (.number value .start)
  | string {item : Item} :
      item.token.kind = .string → PrimaryForm [item] (.string item.token.text .start)
  | color {item : Item} :
      item.token.kind = .color → PrimaryForm [item] (.color item.token.text .start)
  | identifier {item : Item} :
      item.token.kind = .identifier →
      PrimaryForm [item] (.identifier ⟨item.token.text, .start⟩)
  | parenthesized {opening closing : Item} {w : List Item} {e : Expr} :
      opening.token.kind = .leftParen → ExpressionForm w e →
      closing.token.kind = .rightParen → PrimaryForm (opening :: (w ++ [closing])) e

end

/-- Calls joined by multiplicative operators. -/
abbrev ProductForm : List Item → Expr → Prop := Joined Kind.isMultiplicative CallForm

/-- Products joined by additive operators. -/
abbrev SumForm : List Item → Expr → Prop := Joined Kind.isAdditive ProductForm

section NotEmpty

variable {w : List Item} {e : Expr}

/-- A primary is not empty. -/
theorem PrimaryForm.ne_nil (h : PrimaryForm w e) : w ≠ [] := by
  cases h <;> exact List.cons_ne_nil _ _

/-- A shape is not empty. -/
theorem ShapeForm.ne_nil (h : ShapeForm w e) : w ≠ [] := by
  cases h with
  | primary hprimary => exact hprimary.ne_nil
  | _ => exact List.cons_ne_nil _ _

/-- A call is not empty. -/
theorem CallForm.ne_nil (h : CallForm w e) : w ≠ [] := by
  cases h with
  | plain hshape => exact hshape.ne_nil
  | applied hshape => exact List.append_ne_nil_of_left_ne_nil hshape.ne_nil _

/-- Operands joined by operators are not empty if operands are not. -/
theorem Joined.ne_nil {joins : Kind → Bool} {G : List Item → Expr → Prop}
    (hG : ∀ {w e}, G w e → w ≠ []) (h : Joined joins G w e) : w ≠ [] := by
  obtain ⟨hfirst, _⟩ := h
  exact List.append_ne_nil_of_left_ne_nil (hG hfirst) _

/-- An expression is not empty. -/
theorem ExpressionForm.ne_nil (h : ExpressionForm w e) : w ≠ [] := by
  cases h with
  | plain hsum => exact hsum.ne_nil fun hproduct => hproduct.ne_nil CallForm.ne_nil
  | compared _ _ _ => exact List.append_ne_nil_of_right_ne_nil _ (List.cons_ne_nil _ _)

end NotEmpty

/-! ## Commands -/

/-- A command; without a direction, which then must not follow, a move goes right. -/
inductive CommandForm : List Item → Item → Command → Prop where
  | moveRight {word next : Item} {w : List Item} {amount : Expr} :
      word.token.kind = .keyword (.command .move) → PrimaryForm w amount →
      (∀ direction, next.token.kind ≠ .keyword (.direction direction)) →
      CommandForm (word :: w) next (.move amount .right .start)
  | move {word goal next : Item} {w : List Item} {amount : Expr} {direction : Direction} :
      word.token.kind = .keyword (.command .move) → PrimaryForm w amount →
      goal.token.kind = .keyword (.direction direction) →
      CommandForm (word :: (w ++ [goal])) next (.move amount direction .start)
  | rotate {word next : Item} {w : List Item} {angle : Expr} :
      word.token.kind = .keyword (.command .rotate) → PrimaryForm w angle →
      CommandForm (word :: w) next (.rotate angle .start)
  | scale {word next : Item} {w : List Item} {factor : Expr} :
      word.token.kind = .keyword (.command .scale) → PrimaryForm w factor →
      CommandForm (word :: w) next (.scale factor .start)
  | fade {word next : Item} {w : List Item} {amount : Expr} :
      word.token.kind = .keyword (.command .fade) → PrimaryForm w amount →
      CommandForm (word :: w) next (.fade amount .start)

/-- A command is not empty. -/
theorem CommandForm.ne_nil {w : List Item} {next : Item} {command : Command}
    (h : CommandForm w next command) : w ≠ [] := by
  cases h <;> exact List.cons_ne_nil _ _

/-- Commands, and between them items that neither open a command nor close the block. -/
inductive CommandsForm : List Item → Item → List Command → Prop where
  | done {next : Item} : CommandsForm [] next []
  | more {w rest : List Item} {next : Item} {command : Command} {commands : List Command} :
      CommandForm w (rest.headD next) command → CommandsForm rest next commands →
      CommandsForm (w ++ rest) next (command :: commands)
  | skipped {item next : Item} {rest : List Item} {commands : List Command} :
      item.token.kind ≠ .rightBrace → item.token.kind ≠ .endOfInput →
      (∀ word, item.token.kind ≠ .keyword (.command word)) →
      CommandsForm rest next commands → CommandsForm (item :: rest) next commands

/-! ## Statements -/

/-- Whether a `return` in front of this item has no value. -/
def EndsReturn (next : Item) : Prop :=
  next.token.kind = .rightBrace ∨ next.token.kind = .endOfInput ∨ next.startsLine = true

/-- A name that is introduced. -/
inductive NameForm : List Item → Identifier → Prop where
  | mk {item : Item} : item.token.kind = .identifier → NameForm [item] ⟨item.token.text, .start⟩

mutual

/-- A statement in front of the item `next`. -/
inductive StatementForm : List Item → Item → Stmt → Prop where
  | binding {word name equals next : Item} {w : List Item} {value : Expr} :
      word.token.kind = .keyword (.statement .letWord) → name.token.kind = .identifier →
      equals.token.kind = .assign → ExpressionForm w value →
      StatementForm (word :: name :: equals :: w) next
        (.binding ⟨name.token.text, .start⟩ value .start)
  | function {word name opening closing next : Item} {wp wb : List Item}
      {parameters : List Identifier} {body : List Stmt} :
      word.token.kind = .keyword (.statement .fnWord) → name.token.kind = .identifier →
      opening.token.kind = .leftParen → Separated NameForm wp parameters →
      closing.token.kind = .rightParen → BlockForm wb body →
      StatementForm (word :: name :: opening :: (wp ++ closing :: wb)) next
        (.function ⟨name.token.text, .start⟩ parameters body .start)
  | giveBackNothing {word next : Item} :
      word.token.kind = .keyword (.statement .returnWord) → EndsReturn next →
      StatementForm [word] next (.giveBack none .start)
  | giveBack {word next : Item} {w : List Item} {value : Expr} :
      word.token.kind = .keyword (.statement .returnWord) → ¬ EndsReturn (w.headD next) →
      ExpressionForm w value → StatementForm (word :: w) next (.giveBack (some value) .start)
  | branch {w : List Item} {next : Item} {s : Stmt} : BranchForm w s → StatementForm w next s
  | loop {word next : Item} {wt wb : List Item} {times : Expr} {body : List Stmt} :
      word.token.kind = .keyword (.statement .repeatWord) → ExpressionForm wt times →
      BlockForm wb body → StatementForm (word :: (wt ++ wb)) next (.loop times body .start)
  | animation {word opening closing next : Item} {w : List Item} {commands : List Command} :
      word.token.kind = .keyword (.statement .animateWord) → opening.token.kind = .leftBrace →
      CommandsForm w closing commands → closing.token.kind = .rightBrace →
      StatementForm (word :: opening :: (w ++ [closing])) next (.animation commands .start)
  | scene {word name next : Item} {wb : List Item} {body : List Stmt} :
      word.token.kind = .keyword (.statement .sceneWord) → name.token.kind = .identifier →
      BlockForm wb body →
      StatementForm (word :: name :: wb) next (.scene name.token.text body .start)
  | expression {w : List Item} {next : Item} {value : Expr} :
      ExpressionForm w value → StatementForm w next (.expression value .start)

/-- An `if`, with or without an `else`; a chained `if` is the only statement of its `else`. -/
inductive BranchForm : List Item → Stmt → Prop where
  | plain {word : Item} {wc wt : List Item} {condition : Expr} {thenBody : List Stmt} :
      word.token.kind = .keyword (.statement .ifWord) → ExpressionForm wc condition →
      BlockForm wt thenBody →
      BranchForm (word :: (wc ++ wt)) (.branch condition thenBody none .start)
  | otherwise {word other : Item} {wc wt we : List Item} {condition : Expr}
      {thenBody elseBody : List Stmt} :
      word.token.kind = .keyword (.statement .ifWord) → ExpressionForm wc condition →
      BlockForm wt thenBody → other.token.kind = .keyword .otherwise → BlockForm we elseBody →
      BranchForm (word :: (wc ++ (wt ++ other :: we)))
        (.branch condition thenBody (some elseBody) .start)
  | chained {word other : Item} {wc wt we : List Item} {condition : Expr}
      {thenBody : List Stmt} {chained : Stmt} :
      word.token.kind = .keyword (.statement .ifWord) → ExpressionForm wc condition →
      BlockForm wt thenBody → other.token.kind = .keyword .otherwise → BranchForm we chained →
      BranchForm (word :: (wc ++ (wt ++ other :: we)))
        (.branch condition thenBody (some [chained]) .start)

/-- Statements in braces. -/
inductive BlockForm : List Item → List Stmt → Prop where
  | mk {opening closing : Item} {w : List Item} {body : List Stmt} :
      opening.token.kind = .leftBrace → StatementsForm w closing body →
      closing.token.kind = .rightBrace → BlockForm (opening :: (w ++ [closing])) body

/-- Statements one after the other, the last of them in front of the item `next`. -/
inductive StatementsForm : List Item → Item → List Stmt → Prop where
  | done {next : Item} : StatementsForm [] next []
  | more {w rest : List Item} {next : Item} {s : Stmt} {others : List Stmt} :
      StatementForm w (rest.headD next) s → StatementsForm rest next others →
      StatementsForm (w ++ rest) next (s :: others)

end

/-- A program: statements up to an end of input. -/
def ProgramForm (w : List Item) (p : Program) : Prop :=
  ∃ stop : Item, stop.token.kind = .endOfInput ∧ StatementsForm w stop p.body

end Storyboard.Grammar
