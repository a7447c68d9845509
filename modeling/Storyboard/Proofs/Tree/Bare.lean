/-
  Storyboard.Proofs.Tree.Bare

  Trees without their places, and trees without foreign values.

  Two trees say the same thing if they differ only in the places of their nodes.
  `bare` moves every node to the start of the text, so that "the same tree,
  places apart" is an equation between bare trees. `native` says that a tree
  holds no foreign value; the parser only makes native trees.
-/
import Storyboard.Scope.Check

namespace Storyboard

/-! ## Bare trees -/

namespace Identifier

/-- The name without its place. -/
def bare (id : Identifier) : Identifier := ⟨id.name, .start⟩

@[simp] theorem bare_mk (name : String) (location : Location) :
    (Identifier.mk name location).bare = ⟨name, .start⟩ := rfl

end Identifier

mutual

/-- The expression with every node at the start of the text. -/
def Expr.bare : Expr → Expr
  | .identifier id => .identifier id.bare
  | .number value _ => .number value .start
  | .string value _ => .string value .start
  | .color value _ => .color value .start
  | .binary operator left right _ => .binary operator left.bare right.bare .start
  | .call callee arguments _ => .call callee.bare (Expr.bareAll arguments) .start
  | .circle ⟨x, y⟩ size fill _ => .circle ⟨x.bare, y.bare⟩ size.bare fill.bare .start
  | .rect ⟨x, y⟩ width height fill _ =>
    .rect ⟨x.bare, y.bare⟩ width.bare height.bare fill.bare .start
  | .line ⟨x₁, y₁⟩ ⟨x₂, y₂⟩ fill _ =>
    .line ⟨x₁.bare, y₁.bare⟩ ⟨x₂.bare, y₂.bare⟩ fill.bare .start
  | .triangle corners fill _ => .triangle (Expr.barePoints corners) fill.bare .start
  | .foreign value => .foreign ⟨value.typeName, none⟩
termination_by structural e => e

/-- Several expressions without places. -/
def Expr.bareAll : List Expr → List Expr
  | [] => []
  | e :: others => e.bare :: Expr.bareAll others
termination_by structural es => es

/-- Several points without places. -/
def Expr.barePoints : List (Point Expr) → List (Point Expr)
  | [] => []
  | ⟨x, y⟩ :: others => ⟨x.bare, y.bare⟩ :: Expr.barePoints others
termination_by structural points => points

end

/-- A point without places. -/
def Point.bare (point : Point Expr) : Point Expr := ⟨point.x.bare, point.y.bare⟩

/-- A list of points is bared point by point. -/
theorem Expr.barePoints_eq_map (points : List (Point Expr)) :
    Expr.barePoints points = points.map Point.bare := by
  induction points with
  | nil => rfl
  | cons point points ih => simp [Expr.barePoints, Point.bare, ih]

/-- A list of expressions is bared one by one. -/
theorem Expr.bareAll_eq_map (es : List Expr) : Expr.bareAll es = es.map Expr.bare := by
  induction es with
  | nil => rfl
  | cons e es ih => simp [Expr.bareAll, ih]

namespace Expr

@[simp] theorem bare_identifier (id : Identifier) :
    (Expr.identifier id).bare = .identifier id.bare := rfl

@[simp] theorem bare_number (value : Binary64) (location : Location) :
    (Expr.number value location).bare = .number value .start := rfl

@[simp] theorem bare_string (value : String) (location : Location) :
    (Expr.string value location).bare = .string value .start := rfl

@[simp] theorem bare_color (value : String) (location : Location) :
    (Expr.color value location).bare = .color value .start := rfl

@[simp] theorem bare_binary (operator : String) (left right : Expr) (location : Location) :
    (Expr.binary operator left right location).bare =
      .binary operator left.bare right.bare .start := rfl

@[simp] theorem bare_call (callee : Expr) (arguments : List Expr) (location : Location) :
    (Expr.call callee arguments location).bare =
      .call callee.bare (arguments.map bare) .start := by
  rw [← bareAll_eq_map]
  rfl

@[simp] theorem bare_circle (center : Point Expr) (size fill : Expr) (location : Location) :
    (Expr.circle center size fill location).bare =
      .circle center.bare size.bare fill.bare .start := rfl

@[simp] theorem bare_rect (center : Point Expr) (width height fill : Expr)
    (location : Location) :
    (Expr.rect center width height fill location).bare =
      .rect center.bare width.bare height.bare fill.bare .start := rfl

@[simp] theorem bare_line (start stop : Point Expr) (fill : Expr) (location : Location) :
    (Expr.line start stop fill location).bare =
      .line start.bare stop.bare fill.bare .start := rfl

@[simp] theorem bare_triangle (corners : List (Point Expr)) (fill : Expr)
    (location : Location) :
    (Expr.triangle corners fill location).bare =
      .triangle (corners.map Point.bare) fill.bare .start := by
  rw [← barePoints_eq_map]
  rfl

end Expr

/-- The command without places. -/
def Command.bare : Command → Command
  | .move amount direction _ => .move amount.bare direction .start
  | .rotate angle _ => .rotate angle.bare .start
  | .scale factor _ => .scale factor.bare .start
  | .fade amount _ => .fade amount.bare .start
  | .foreign value => .foreign ⟨value.typeName, none⟩

mutual

/-- The statement with every node at the start of the text. -/
def Stmt.bare : Stmt → Stmt
  | .binding name value _ => .binding name.bare value.bare .start
  | .function name parameters body _ =>
    .function name.bare (parameters.map Identifier.bare) (Stmt.bareAll body) .start
  | .giveBack none _ => .giveBack none .start
  | .giveBack (some value) _ => .giveBack (some value.bare) .start
  | .branch condition thenBody none _ =>
    .branch condition.bare (Stmt.bareAll thenBody) none .start
  | .branch condition thenBody (some elseBody) _ =>
    .branch condition.bare (Stmt.bareAll thenBody) (some (Stmt.bareAll elseBody)) .start
  | .loop times body _ => .loop times.bare (Stmt.bareAll body) .start
  | .animation commands _ => .animation (commands.map Command.bare) .start
  | .scene name body _ => .scene name (Stmt.bareAll body) .start
  | .expression value _ => .expression value.bare .start
  | .foreign value => .foreign ⟨value.typeName, none⟩
termination_by structural stmt => stmt

/-- Several statements without places. -/
def Stmt.bareAll : List Stmt → List Stmt
  | [] => []
  | stmt :: others => stmt.bare :: Stmt.bareAll others
termination_by structural body => body

end

@[simp] theorem Stmt.bareAll_nil : Stmt.bareAll [] = [] := rfl

@[simp] theorem Stmt.bareAll_cons (stmt : Stmt) (others : List Stmt) :
    Stmt.bareAll (stmt :: others) = stmt.bare :: Stmt.bareAll others := rfl

/-- A list of statements is bared one by one. -/
theorem Stmt.bareAll_eq_map (body : List Stmt) : Stmt.bareAll body = body.map Stmt.bare := by
  induction body with
  | nil => rfl
  | cons stmt body ih => rw [bareAll_cons, List.map_cons, ih]

/-- The program without places. -/
def Program.bare (p : Program) : Program := ⟨Stmt.bareAll p.body, .start⟩

/-! ## Native trees -/

namespace Leaf

/-- Whether a leaf is a name. -/
def native : Leaf → Bool
  | .name _ => true
  | .foreign _ => false

end Leaf

/-- Whether an expression holds no foreign value. -/
def Expr.native (e : Expr) : Bool := e.leaves.all Leaf.native

/-- Whether a point holds no foreign value. -/
def Point.native (point : Point Expr) : Bool := point.x.native && point.y.native

namespace Expr

@[simp] theorem native_identifier (id : Identifier) : (Expr.identifier id).native = true := rfl

@[simp] theorem native_number (value : Binary64) (location : Location) :
    (Expr.number value location).native = true := rfl

@[simp] theorem native_string (value : String) (location : Location) :
    (Expr.string value location).native = true := rfl

@[simp] theorem native_color (value : String) (location : Location) :
    (Expr.color value location).native = true := rfl

@[simp] theorem native_binary (operator : String) (left right : Expr) (location : Location) :
    (Expr.binary operator left right location).native = (left.native && right.native) := by
  simp [native, leaves]

theorem all_native_allLeaves (es : List Expr) :
    (allLeaves es).all Leaf.native = es.all native := by
  induction es with
  | nil => rfl
  | cons e es ih => simp [allLeaves, ih, native]

theorem all_native_pointLeaves (points : List (Point Expr)) :
    (pointLeaves points).all Leaf.native = points.all Point.native := by
  induction points with
  | nil => rfl
  | cons point points ih => simp [pointLeaves, ih, native, Point.native, Bool.and_assoc]

@[simp] theorem native_call (callee : Expr) (arguments : List Expr) (location : Location) :
    (Expr.call callee arguments location).native = (callee.native && arguments.all native) := by
  simp [native, leaves, ← all_native_allLeaves]

@[simp] theorem native_circle (center : Point Expr) (size fill : Expr) (location : Location) :
    (Expr.circle center size fill location).native =
      (center.native && size.native && fill.native) := by
  simp [native, leaves, Point.native, Bool.and_assoc]

@[simp] theorem native_rect (center : Point Expr) (width height fill : Expr)
    (location : Location) :
    (Expr.rect center width height fill location).native =
      (center.native && width.native && height.native && fill.native) := by
  simp [native, leaves, Point.native, Bool.and_assoc]

@[simp] theorem native_line (start stop : Point Expr) (fill : Expr) (location : Location) :
    (Expr.line start stop fill location).native =
      (start.native && stop.native && fill.native) := by
  simp [native, leaves, Point.native, Bool.and_assoc]

@[simp] theorem native_triangle (corners : List (Point Expr)) (fill : Expr)
    (location : Location) :
    (Expr.triangle corners fill location).native =
      (corners.all Point.native && fill.native) := by
  simp [native, leaves, ← all_native_pointLeaves]

end Expr

/-- Whether a command holds no foreign value. -/
def Command.native : Command → Bool
  | .move amount _ _ => amount.native
  | .rotate angle _ => angle.native
  | .scale factor _ => factor.native
  | .fade amount _ => amount.native
  | .foreign _ => false

mutual

/-- Whether a statement holds no foreign value. -/
def Stmt.native : Stmt → Bool
  | .binding _ value _ => value.native
  | .function _ _ body _ => Stmt.allNative body
  | .giveBack none _ => true
  | .giveBack (some value) _ => value.native
  | .branch condition thenBody none _ => condition.native && Stmt.allNative thenBody
  | .branch condition thenBody (some elseBody) _ =>
    condition.native && Stmt.allNative thenBody && Stmt.allNative elseBody
  | .loop times body _ => times.native && Stmt.allNative body
  | .animation commands _ => commands.all Command.native
  | .scene _ body _ => Stmt.allNative body
  | .expression value _ => value.native
  | .foreign _ => false
termination_by structural stmt => stmt

/-- Whether several statements hold no foreign value. -/
def Stmt.allNative : List Stmt → Bool
  | [] => true
  | stmt :: others => stmt.native && Stmt.allNative others
termination_by structural body => body

end

@[simp] theorem Stmt.allNative_nil : Stmt.allNative [] = true := rfl

@[simp] theorem Stmt.allNative_cons (stmt : Stmt) (others : List Stmt) :
    Stmt.allNative (stmt :: others) = (stmt.native && Stmt.allNative others) := rfl

end Storyboard
