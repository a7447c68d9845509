/-
  Storyboard.Proofs.Parse.Depth

  How deep the trees of the parser are. `depth` counts the nodes on the longest way
  from the root of a tree to a leaf, where points and names are nodes too.

  The limit on nesting does not limit the depth directly. The operators of a chain use
  up room one by one, but the operand in front of them was read with all of it, and so
  the chain comes on top of whatever that operand nests. An expression read with one
  more level of room can therefore be deeper by two chains, one for the products and one
  for the sums, and by the four nodes of a comparison, a call, a shape and its point.
  `reach` adds this up over all levels. Blocks add one node for each level, which is less
  than an expression would.
-/
import Storyboard.Proofs.Parse.Provenance

namespace Storyboard

-- ============================================================================
-- Depth
-- ============================================================================

mutual

/-- The number of nodes on the longest way down an expression; a point is a node. -/
def Expr.depth : Expr → Nat
  | .identifier _ | .number .. | .string .. | .color .. | .foreign _ => 1
  | .binary _ left right _ => 1 + max left.depth right.depth
  | .call callee arguments _ => 1 + max callee.depth (Expr.allDepth arguments)
  | .circle ⟨x, y⟩ size fill _ =>
    1 + max (1 + max x.depth y.depth) (max size.depth fill.depth)
  | .rect ⟨x, y⟩ width height fill _ =>
    1 + max (1 + max x.depth y.depth) (max (max width.depth height.depth) fill.depth)
  | .line ⟨x₁, y₁⟩ ⟨x₂, y₂⟩ fill _ =>
    1 + max (max (1 + max x₁.depth y₁.depth) (1 + max x₂.depth y₂.depth)) fill.depth
  | .triangle corners fill _ => 1 + max (Expr.cornersDepth corners) fill.depth
termination_by structural e => e

/-- The depth of the deepest of several expressions. -/
def Expr.allDepth : List Expr → Nat
  | [] => 0
  | e :: others => max e.depth (Expr.allDepth others)
termination_by structural es => es

/-- The depth of the deepest of several points. -/
def Expr.cornersDepth : List (Point Expr) → Nat
  | [] => 0
  | ⟨x, y⟩ :: others => max (1 + max x.depth y.depth) (Expr.cornersDepth others)
termination_by structural points => points

end

/-- The number of nodes on the longest way down a point, itself among them. -/
def Point.depth (point : Point Expr) : Nat := 1 + max point.x.depth point.y.depth

/-- The number of nodes on the longest way down a command. -/
def Command.depth : Command → Nat
  | .move amount _ _ => 1 + amount.depth
  | .rotate angle _ => 1 + angle.depth
  | .scale factor _ => 1 + factor.depth
  | .fade amount _ => 1 + amount.depth
  | .foreign _ => 1

/-- The depth of the deepest of several commands. -/
def Command.allDepth : List Command → Nat
  | [] => 0
  | command :: others => max command.depth (Command.allDepth others)

mutual

/-- The number of nodes on the longest way down a statement. The names that a statement declares
    are nodes below it. -/
def Stmt.depth : Stmt → Nat
  | .binding _ value _ => 1 + max 1 value.depth
  | .function _ _ body _ => 1 + max 1 (Stmt.bodyDepth body)
  | .giveBack none _ => 1
  | .giveBack (some value) _ => 1 + value.depth
  | .branch condition thenBody none _ => 1 + max condition.depth (Stmt.bodyDepth thenBody)
  | .branch condition thenBody (some elseBody) _ =>
    1 + max condition.depth (max (Stmt.bodyDepth thenBody) (Stmt.bodyDepth elseBody))
  | .loop times body _ => 1 + max times.depth (Stmt.bodyDepth body)
  | .animation commands _ => 1 + Command.allDepth commands
  | .scene _ body _ => 1 + Stmt.bodyDepth body
  | .expression value _ => 1 + value.depth
  | .foreign _ => 1
termination_by structural stmt => stmt

/-- The depth of the deepest of several statements. -/
def Stmt.bodyDepth : List Stmt → Nat
  | [] => 0
  | stmt :: others => max stmt.depth (Stmt.bodyDepth others)
termination_by structural body => body

end

/-- The number of nodes on the longest way down a program. -/
def Program.depth (p : Program) : Nat := 1 + Stmt.bodyDepth p.body

theorem Expr.allDepth_le {es : List Expr} {n : Nat} (h : ∀ e ∈ es, e.depth ≤ n) :
    Expr.allDepth es ≤ n := by
  induction es with
  | nil => exact Nat.zero_le n
  | cons e es ih =>
    obtain ⟨he, hes⟩ := List.forall_mem_cons.mp h
    exact Nat.max_le.mpr ⟨he, ih hes⟩

theorem Expr.cornersDepth_le {points : List (Point Expr)} {n : Nat}
    (h : ∀ point ∈ points, point.depth ≤ n) : Expr.cornersDepth points ≤ n := by
  induction points with
  | nil => exact Nat.zero_le n
  | cons point points ih =>
    obtain ⟨hpoint, hpoints⟩ := List.forall_mem_cons.mp h
    exact Nat.max_le.mpr ⟨hpoint, ih hpoints⟩

theorem Command.allDepth_le {commands : List Command} {n : Nat}
    (h : ∀ command ∈ commands, command.depth ≤ n) : Command.allDepth commands ≤ n := by
  induction commands with
  | nil => exact Nat.zero_le n
  | cons command commands ih =>
    obtain ⟨hcommand, hcommands⟩ := List.forall_mem_cons.mp h
    exact Nat.max_le.mpr ⟨hcommand, ih hcommands⟩

theorem Stmt.bodyDepth_le {body : List Stmt} {n : Nat} (h : ∀ stmt ∈ body, stmt.depth ≤ n) :
    Stmt.bodyDepth body ≤ n := by
  induction body with
  | nil => exact Nat.zero_le n
  | cons stmt body ih =>
    obtain ⟨hstmt, hbody⟩ := List.forall_mem_cons.mp h
    exact Nat.max_le.mpr ⟨hstmt, ih hbody⟩

namespace Parse

-- ============================================================================
-- Expressions
-- ============================================================================

/-- How deep an expression can be that is read with the given room: each level adds two chains of
    as many operators as there is room below it, and four more nodes. -/
def reach : Nat → Nat
  | 0 => 0
  | below + 1 => reach below + (2 * below + 4)

theorem reach_mono {m n : Nat} (h : m ≤ n) : reach m ≤ reach n := by
  induction h with
  | refl => exact Nat.le_refl _
  | step _ ih => exact Nat.le_trans ih (Nat.le_add_right _ _)

theorem reach_eq (room : Nat) : reach room = room * (room + 3) := by
  induction room with
  | zero => rfl
  | succ below ih =>
    rw [reach, ih, Nat.add_mul, Nat.mul_add, Nat.mul_add, Nat.mul_add, Nat.mul_add]
    omega

variable {T : Token → Prop}

section WithNested

variable {nested : Parser Expr} {n : Nat} (h : Draws T nested fun e => e.depth ≤ n)
include h

theorem primaryWith_depth : Draws T (primaryWith nested) fun e => e.depth ≤ n + 1 := by
  have hleaf : 1 ≤ n + 1 := Nat.le_add_left 1 n
  unfold primaryWith
  refine Draws.peek.bind fun start _ => ?_
  dsimp only
  split
  · refine Draws.advance.bind fun _ _ => ?_
    unfold numberOf
    split
    · exact .pure hleaf
    · exact .notNumber start.token.text
  · exact Draws.advance.bind fun _ _ => .pure hleaf
  · exact Draws.advance.bind fun _ _ => .pure hleaf
  · exact Draws.advance.bind fun _ _ => .pure hleaf
  · exact Draws.advance.bind fun _ _ => h.bind fun inner hinner =>
      (Draws.expect _ _ _).bind fun _ _ => .pure (Nat.le_succ_of_le hinner)
  · exact .unexpected

theorem pointWith_depth (what hint : String) :
    Draws T (pointWith nested what hint) fun point => point.depth ≤ n + 1 :=
  (Draws.expect _ _ _).bind fun _ _ => h.bind fun x hx => (Draws.expect _ _ _).bind fun _ _ =>
    h.bind fun y hy => (Draws.expect _ _ _).bind fun _ _ =>
      .pure (by simp only [Point.depth]; omega)

theorem clauseWith_depth (kind : Kind) (keyword hint : String) :
    Draws T (clauseWith nested kind keyword hint) fun e => e.depth ≤ n :=
  (Draws.expect _ _ _).bind fun _ _ => h

/-- A shape is a node, and its points are nodes below it. -/
theorem shapeWith_depth : Draws T (shapeWith nested) fun e => e.depth ≤ n + 2 := by
  have hpoint := pointWith_depth h
  have hclause := clauseWith_depth h
  unfold shapeWith
  refine Draws.peek.bind fun start _ => ?_
  dsimp only
  split
  · rename_i word _
    refine Draws.advance.bind fun _ _ => ?_
    cases word with
    | circle =>
      refine (Draws.expect _ _ _).bind fun _ _ => (hpoint _ _).bind fun center hcenter =>
        (hclause _ _ _).bind fun size hsize => (hclause _ _ _).bind fun fill hfill => .pure ?_
      simp only [Expr.depth, Point.depth] at hcenter ⊢
      omega
    | rect =>
      refine (Draws.expect _ _ _).bind fun _ _ => (hpoint _ _).bind fun center hcenter =>
        (hclause _ _ _).bind fun width hwidth => (hclause _ _ _).bind fun height hheight =>
          (hclause _ _ _).bind fun fill hfill => .pure ?_
      simp only [Expr.depth, Point.depth] at hcenter ⊢
      omega
    | line =>
      refine (hpoint _ _).bind fun first hfirst => (hpoint _ _).bind fun second hsecond =>
        (hclause _ _ _).bind fun fill hfill => .pure ?_
      simp only [Expr.depth, Point.depth] at hfirst hsecond ⊢
      omega
    | triangle =>
      refine (hpoint _ _).bind fun first hfirst => (hpoint _ _).bind fun second hsecond =>
        (hpoint _ _).bind fun third hthird => (hclause _ _ _).bind fun fill hfill => .pure ?_
      -- A corner is as deep as the center of a circle is; that there are three makes no difference.
      have hcorners : Expr.cornersDepth [first, second, third] ≤ n + 1 :=
        Expr.cornersDepth_le (by simp [hfirst, hsecond, hthird])
      simp only [Expr.depth]
      omega
  · exact (primaryWith_depth h).weaken fun _ he => Nat.le_succ_of_le he

theorem callWith_depth : Draws T (callWith nested) fun e => e.depth ≤ n + 3 :=
  (shapeWith_depth h).bind fun callee hcallee => .accept_bind
    (fun _ _ _ => (separated_draws h).bind fun arguments harguments =>
      (Draws.expect _ _ _).bind fun _ _ => .pure (by
        have hdepth := Expr.allDepth_le harguments
        simp only [Expr.depth]
        omega))
    (.pure (Nat.le_succ_of_le hcallee))

end WithNested

/-- Each operator of a chain is one more node above the first operand, and takes a level; so a
    chain is at most as much deeper than its operands as there is room. -/
theorem chainFrom_depth {joins : Kind → Bool} (room : Nat) (operand : UpTo room) {n : Nat}
    (h : ∀ levels hlevels, Draws T (operand levels hlevels) fun e => e.depth ≤ n) {left : Expr}
    (hleft : left.depth ≤ n) :
    Draws T (chainFrom joins room operand left) fun e => e.depth ≤ n + room := by
  induction room generalizing left n with
  | zero =>
    unfold chainFrom
    exact .accept_bind (fun _ _ _ => .reject _) (.pure hleft)
  | succ room ih =>
    unfold chainFrom
    refine .accept_bind (fun token _ _ => ?_) (.pure (Nat.le_add_right_of_le hleft))
    refine (h room (Nat.le_succ room)).bind fun right hright => ?_
    have hbinary : (Expr.binary token.text left right token.location).depth ≤ n + 1 := by
      simp only [Expr.depth]
      omega
    refine (ih (operand.restrict (Nat.le_succ room)) (n := n + 1) ?_ hbinary).weaken fun e he => by
      omega
    exact fun levels _ => (h levels _).weaken fun _ he => Nat.le_succ_of_le he

theorem chain_depth {joins : Kind → Bool} (room : Nat) (operand : UpTo room) {n : Nat}
    (h : ∀ levels hlevels, Draws T (operand levels hlevels) fun e => e.depth ≤ n) :
    Draws T (chain joins room operand) fun e => e.depth ≤ n + room :=
  (h room (Nat.le_refl room)).bind fun _ hfirst => chainFrom_depth room operand h hfirst

/-- A sum is a chain of chains of calls. -/
theorem sumWith_depth (room : Nat) (nested : UpTo room)
    (h : ∀ levels hlevels, Draws T (nested levels hlevels) fun e => e.depth ≤ reach levels) :
    Draws T (sumWith room nested) fun e => e.depth ≤ reach room + (2 * room + 3) := by
  have hproduct : ∀ levels hlevels, Draws T (productWith levels (nested.restrict hlevels))
      fun e => e.depth ≤ reach room + 3 + room := by
    intro levels hlevels
    refine (chain_depth levels _ fun lower hlower => callWith_depth ?_).weaken fun e he =>
      Nat.le_trans he (Nat.add_le_add_left hlevels _)
    exact (h lower _).weaken fun e he =>
      Nat.le_trans he (reach_mono (Nat.le_trans hlower hlevels))
  exact (chain_depth room _ hproduct).weaken fun e he => by omega

/-- An expression is as deep as its room lets it be. The induction is on the room. -/
theorem expression_depth (room : Nat) :
    Draws T (expression room) fun e => e.depth ≤ reach room := by
  induction room using Nat.strongRecOn with
  | ind room ih =>
    unfold expression
    cases room with
    | zero => exact .reject _
    | succ below =>
      -- The two chains of a sum may each add a node for every level they have.
      have hsum : ∀ levels, levels ≤ below →
          Draws T (sumWith levels fun room _ => expression room)
            fun e => e.depth ≤ reach below + (2 * below + 3) := by
        intro levels hlevels
        refine (sumWith_depth levels _ fun lower _ => ih lower (by omega)).weaken fun e he => ?_
        have hreach := reach_mono hlevels
        omega
      unfold comparisonWith
      refine (hsum below (Nat.le_refl below)).bind fun left hleft =>
        .accept_bind (fun token _ _ => ?_) (.pure ?_)
      · cases below with
        | zero => exact .reject _
        | succ lower =>
          refine (hsum lower (Nat.le_succ lower)).bind fun right hright => .pure ?_
          rw [reach]
          simp only [Expr.depth]
          omega
      · rw [reach]
        omega

-- ============================================================================
-- Statements
-- ============================================================================

/-- A command is a node above its amount. -/
theorem commandsWith_depth {nested : Parser Expr} {n : Nat}
    (h : Draws T nested fun e => e.depth ≤ n) :
    Draws T (commandsWith nested) fun commands => ∀ command ∈ commands, command.depth ≤ n + 2 := by
  have hamount : Draws T (amountWith nested) fun e => e.depth ≤ n + 1 := primaryWith_depth h
  have hnode : ∀ {amount : Expr} (command : Command), command.depth = 1 + amount.depth →
      amount.depth ≤ n + 1 →
      Draws T (pure (some command)) fun found => ∀ command ∈ found, command.depth ≤ n + 2 := by
    intro amount command hdepth ha
    refine .pure ?_
    rintro _ ⟨⟩
    omega
  have hcommand : Draws T (commandWith nested)
      fun found => ∀ command ∈ found, command.depth ≤ n + 2 := by
    unfold commandWith
    refine Draws.advance.bind fun token _ => ?_
    split
    · exact hamount.bind fun _ ha => direction_draws.bind fun _ _ => hnode (.move _ _ _) rfl ha
    · exact hamount.bind fun _ ha => hnode (.rotate _ _) rfl ha
    · exact hamount.bind fun _ ha => hnode (.scale _ _) rfl ha
    · exact hamount.bind fun _ ha => hnode (.fade _ _) rfl ha
    · exact .pure (by simp)
  refine Draws.many_filterMap (Draws.peek.bind fun start _ => ?_)
  dsimp only
  split
  · exact .pure (by simp)
  · exact .map (hcommand.weaken fun found hfound => by simpa using hfound)

theorem statementsWith_depth {one : Parser Stmt} {n : Nat}
    (h : Draws T one fun stmt => stmt.depth ≤ n) (inBlock topLevel : Bool) :
    Draws T (statementsWith inBlock topLevel one) fun body => Stmt.bodyDepth body ≤ n := by
  have hall : Draws T (statementsWith inBlock topLevel one) fun body =>
      ∀ stmt ∈ body, stmt.depth ≤ n := by
    refine Draws.many_filterMap (Draws.peek.bind fun start _ => ?_)
    dsimp only
    split
    · exact .pure (by simp)
    · exact .map ((h.attempt inBlock).weaken fun found hfound => by simpa using hfound)
  exact hall.weaken fun body hbody => Stmt.bodyDepth_le hbody

/-- What a statement may nest: expressions of some depth, and statements that are at most two
    nodes deeper. -/
structure Nested.Depth (T : Token → Prop) (n : Nat) (nested : Nested) : Prop where
  expression : Parse.Draws T nested.expression fun e => e.depth ≤ n
  body : Parse.Draws T nested.body fun body => Stmt.bodyDepth body ≤ n + 2
  chained : ∀ place, Parse.Draws T (nested.chained place) fun stmt => stmt.depth ≤ n + 2

section WithNested

variable {nested : Nested} {n : Nat} (h : nested.Depth T n) (place : Location)
include h

theorem branchWith_depth : Draws T (branchWith nested place) fun stmt => stmt.depth ≤ n + 3 := by
  have helse : Draws T (elseWith nested) fun body => Stmt.bodyDepth body ≤ n + 2 :=
    .accept_bind
      (fun _ _ _ => (h.chained _).bind fun stmt hstmt => .pure (Stmt.bodyDepth_le (by simpa using hstmt)))
      (blockWith_draws h.body _ _)
  refine h.expression.bind fun condition hcondition =>
    (blockWith_draws h.body _ _).bind fun thenBody hthen => .accept_bind (fun _ _ _ => ?_) ?_
  · refine helse.bind fun elseBody helseBody => .pure ?_
    simp only [Stmt.depth]
    omega
  · refine .pure ?_
    simp only [Stmt.depth]
    omega

omit place in
theorem statementWith_depth : Draws T (statementWith nested) fun stmt => stmt.depth ≤ n + 3 := by
  unfold statementWith
  refine Draws.peek.bind fun start _ => ?_
  dsimp only
  split
  · rename_i word _
    refine Draws.advance.bind fun _ _ => ?_
    -- A statement is one node above its expressions and its body, and commands are one more.
    cases word with
    | letWord =>
      refine (newName_draws _ _).bind fun _ _ => (Draws.expect _ _ _).bind fun _ _ =>
        h.expression.bind fun value hvalue => .pure ?_
      simp only [Stmt.depth]
      omega
    | fnWord =>
      refine (newName_draws _ _).bind fun _ _ => (Draws.expect _ _ _).bind fun _ _ =>
        (separated_draws (newName_draws _ _)).bind fun _ _ => (Draws.expect _ _ _).bind fun _ _ =>
          (blockWith_draws h.body _ _).bind fun body hbody => .pure ?_
      simp only [Stmt.depth]
      omega
    | returnWord =>
      refine Draws.peek.bind fun item _ => ?_
      split
      · exact .pure (by simp only [Stmt.depth]; omega)
      · refine h.expression.bind fun value hvalue => .pure ?_
        simp only [Stmt.depth]
        omega
    | ifWord => exact branchWith_depth h _
    | repeatWord =>
      refine h.expression.bind fun times htimes => (blockWith_draws h.body _ _).bind fun body hbody =>
        .pure ?_
      simp only [Stmt.depth]
      omega
    | animateWord =>
      refine (Draws.expect _ _ _).bind fun _ _ =>
        (commandsWith_depth h.expression).bind fun commands hcommands =>
          (Draws.expect _ _ _).bind fun _ _ => .pure ?_
      have hdepth := Command.allDepth_le hcommands
      simp only [Stmt.depth]
      omega
    | sceneWord =>
      refine (newName_draws _ _).bind fun _ _ =>
        (blockWith_draws h.body _ _).bind fun body hbody => .pure ?_
      simp only [Stmt.depth]
      omega
  · refine h.expression.bind fun value hvalue => .pure ?_
    simp only [Stmt.depth]
    omega

end WithNested

/-- Blocks and chained branches take a level each, and with it more depth than they use. -/
theorem nested_depth (room : Nat) : (nested room).Depth T (reach room) := by
  induction room with
  | zero => exact ⟨expression_depth 0, .reject _, fun _ => .reject _⟩
  | succ below ih =>
    have hreach : reach below + 3 ≤ reach (below + 1) + 2 := by
      rw [reach]
      omega
    refine ⟨expression_depth (below + 1), ?_, fun place => ?_⟩
    · exact (statementsWith_depth (statementWith_depth ih) (inBlockAt below) false).weaken
        fun body hbody => Nat.le_trans hbody hreach
    · exact (branchWith_depth ih place).weaken fun stmt hstmt => Nat.le_trans hstmt hreach

/-- A program is a node above its statements, and these are three nodes deeper than an
    expression. -/
theorem program_depth : Draws T program fun p => p.depth ≤ reach maxDepth + 4 := by
  have hstatements : Draws T (statements maxDepth true)
      fun body => Stmt.bodyDepth body ≤ reach maxDepth + 3 :=
    statementsWith_depth (statementWith_depth (nested_depth _)) (inBlockAt maxDepth) true
  refine hstatements.bind fun body hbody => .pure ?_
  simp only [Program.depth]
  omega

end Parse

/-- The limit on nesting bounds the trees of the parser. Every list of tokens whose number tokens
    hold numbers is parsed, with or without errors and however long it is, to a tree on which no
    way down from the root has more than `(maxDepth + 4)²` nodes, points and names included. -/
theorem parse_depth_le (tokens : List Token) (hnumbers : NumbersReadable tokens) :
    ∃ p errors, parse tokens = .ok (p, errors) ∧
      p.depth ≤ (maxDepth + 4) * (maxDepth + 4) ∧ (maxDepth + 4) * (maxDepth + 4) = 4624 := by
  obtain ⟨p, errors, hparse⟩ := hnumbers.exists_parse
  refine ⟨p, errors, hparse, ?_, rfl⟩
  obtain ⟨t, hrun, -⟩ := program_of_parse hparse
  -- Any class of tokens will do here, and the widest one asks nothing of the state.
  have hwithin : (Parse.State.ofTokens tokens).Within fun _ => True :=
    ⟨fun _ _ => trivial, by simp [Parse.State.ofTokens]⟩
  have hdepth := (Parse.program_depth.ok hwithin hrun).2
  rw [Parse.reach_eq] at hdepth
  exact Nat.le_trans hdepth (by decide)

/-- A sum of 60 products, of which the first has 60 factors: read without an error, and deeper
    than there are levels of nesting. -/
theorem parse_depth_le_sample :
    let number : Token := ⟨.number, "1", .start⟩
    let times : Token := ⟨.multiplicative .times, "*", .start⟩
    let plus : Token := ⟨.additive .plus, "+", .start⟩
    let tokens := number :: ((List.replicate 59 [times, number]).flatten ++
      (List.replicate 59 [plus, number]).flatten)
    NumbersReadable tokens ∧ ∃ p, parse tokens = .ok (p, []) ∧ maxDepth < p.depth ∧
      p.depth ≤ (maxDepth + 4) * (maxDepth + 4) := by
  intro number times plus tokens
  have hnumbers : NumbersReadable tokens := by decide +kernel
  have hread : (parse tokens).toOption.map (fun read => (read.1.depth, read.2)) =
      some (121, []) := by decide +kernel
  obtain ⟨p, errors, hparse, hdepth, -⟩ := parse_depth_le tokens hnumbers
  rw [hparse] at hread
  simp only [Except.toOption, Option.map_some, Option.some.injEq, Prod.mk.injEq] at hread
  obtain ⟨hexact, rfl⟩ := hread
  refine ⟨hnumbers, p, hparse, ?_, hdepth⟩
  rw [hexact]
  decide

end Storyboard
