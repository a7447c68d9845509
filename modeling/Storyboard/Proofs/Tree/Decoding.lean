/-
  Storyboard.Proofs.Tree.Decoding

  What the outline of a tree stands for.

  An outline is read back from the leaves up: the fields of a record are read first, and then
  the kind that the record names says which of them a node of that kind is made of. A field is
  found by its name, so the order of the fields of a record does not matter as long as no two
  of them have one name. Outlines of trees are such records, since the names of a node's parts
  are neither repeated nor one of `kind`, `line` and `column`.

  `outline_decodes` says that the tree of a list of tokens is what its outline is read as,
  however the fields of its records are ordered.
-/
import Storyboard.Proofs.Parse.Soundness
import Storyboard.Proofs.Tree.Induction
import Storyboard.Tree.Outline

namespace Storyboard

-- ============================================================================
-- The reader
-- ============================================================================

/-- What an outline can stand for. -/
inductive Decoded where
  | null
  | integer (value : Int)
  | number (value : Binary64)
  | text (value : String)
  | list (items : List Decoded)
  | point (value : Point Expr)
  | expr (value : Expr)
  | command (value : Command)
  | stmt (value : Stmt)
  | program (value : Program)
  | unknown

namespace Decoded

def integer? : Decoded → Option Int
  | .integer value => some value
  | _ => none

def number? : Decoded → Option Binary64
  | .number value => some value
  | _ => none

def text? : Decoded → Option String
  | .text value => some value
  | _ => none

def direction? : Decoded → Option Direction
  | .text "up" => some .up
  | .text "down" => some .down
  | .text "left" => some .left
  | .text "right" => some .right
  | _ => none

def point? : Decoded → Option (Point Expr)
  | .point value => some value
  | _ => none

def expr? : Decoded → Option Expr
  | .expr value => some value
  | _ => none

def identifier? : Decoded → Option Identifier
  | .expr (.identifier id) => some id
  | _ => none

def command? : Decoded → Option Command
  | .command value => some value
  | _ => none

def stmt? : Decoded → Option Stmt
  | .stmt value => some value
  | _ => none

def program? : Decoded → Option Program
  | .program value => some value
  | _ => none

/-- The members of a list, if `item` reads each of them. -/
def all? {α : Type} (item : Decoded → Option α) : Decoded → Option (List α)
  | .list items => items.mapM item
  | _ => none

/-- What `item` reads, or nothing where null stands. -/
def optional? {α : Type} (item : Decoded → Option α) : Decoded → Option (Option α)
  | .null => some none
  | other => (item other).map some

end Decoded

open Decoded

/-- The expression with a kind, a place and fields. -/
def Expr.ofFields? (kind : String) (place : Location) (field : String → Option Decoded) :
    Option Expr :=
  match kind with
  | "Identifier" => do return .identifier ⟨← field "name" >>= text?, place⟩
  | "NumberLiteral" => do return .number (← field "value" >>= number?) place
  | "StringLiteral" => do return .string (← field "value" >>= text?) place
  | "ColorLiteral" => do return .color (← field "value" >>= text?) place
  | "BinaryExpression" => do
    return .binary (← field "operator" >>= text?) (← field "left" >>= expr?)
      (← field "right" >>= expr?) place
  | "CallExpression" => do
    return .call (← field "callee" >>= expr?) (← field "arguments" >>= all? expr?) place
  | "Circle" => do
    return .circle (← field "position" >>= point?) (← field "size" >>= expr?)
      (← field "color" >>= expr?) place
  | "Rect" => do
    return .rect (← field "position" >>= point?) (← field "width" >>= expr?)
      (← field "height" >>= expr?) (← field "color" >>= expr?) place
  | "Line" => do
    return .line (← field "start" >>= point?) (← field "end" >>= point?)
      (← field "color" >>= expr?) place
  | "Triangle" => do
    return .triangle (← field "points" >>= all? point?) (← field "color" >>= expr?) place
  | _ => none

/-- The animation command with a kind, a place and fields. -/
def Command.ofFields? (kind : String) (place : Location) (field : String → Option Decoded) :
    Option Command :=
  match kind with
  | "Move" => do
    return .move (← field "amount" >>= expr?) (← field "direction" >>= direction?) place
  | "Rotate" => do return .rotate (← field "angle" >>= expr?) place
  | "Scale" => do return .scale (← field "factor" >>= expr?) place
  | "Fade" => do return .fade (← field "amount" >>= expr?) place
  | _ => none

/-- The statement with a kind, a place and fields. -/
def Stmt.ofFields? (kind : String) (place : Location) (field : String → Option Decoded) :
    Option Stmt :=
  match kind with
  | "LetStatement" => do
    return .binding (← field "name" >>= identifier?) (← field "value" >>= expr?) place
  | "FunctionDeclaration" => do
    return .function (← field "name" >>= identifier?) (← field "params" >>= all? identifier?)
      (← field "body" >>= all? stmt?) place
  | "ReturnStatement" => do return .giveBack (← field "value" >>= optional? expr?) place
  | "IfStatement" => do
    return .branch (← field "condition" >>= expr?) (← field "then_branch" >>= all? stmt?)
      (← field "else_branch" >>= optional? (all? stmt?)) place
  | "RepeatStatement" => do
    return .loop (← field "times" >>= expr?) (← field "body" >>= all? stmt?) place
  | "AnimateBlock" => do return .animation (← field "commands" >>= all? command?) place
  | "SceneBlock" => do
    return .scene (← field "name" >>= text?) (← field "body" >>= all? stmt?) place
  | "ExpressionStatement" => do return .expression (← field "expression" >>= expr?) place
  | _ => none

/-- The program with a kind, a place and fields. -/
def Program.ofFields? (kind : String) (place : Location) (field : String → Option Decoded) :
    Option Program :=
  match kind with
  | "Program" => do return ⟨← field "body" >>= all? stmt?, place⟩
  | _ => none

namespace Decoded

/-- The node with the given fields. -/
def ofNode? (field : String → Option Decoded) : Option Decoded := do
  let kind ← field "kind" >>= text?
  let place : Location := ⟨← field "line" >>= integer?, ← field "column" >>= integer?⟩
  ((Expr.ofFields? kind place field).map .expr).or <|
    ((Command.ofFields? kind place field).map .command).or <|
      ((Stmt.ofFields? kind place field).map .stmt).or <|
        (Program.ofFields? kind place field).map .program

/-- The point with the given fields. -/
def ofPoint? (field : String → Option Decoded) : Option Decoded := do
  return .point ⟨← field "x" >>= expr?, ← field "y" >>= expr?⟩

/-- What a record with the given fields stands for. -/
def ofFields (field : String → Option Decoded) : Decoded :=
  ((ofNode? field).or (ofPoint? field)).getD .unknown

end Decoded

/-- The value of the first field with a name. -/
def fieldOf {α : Type} (name : String) : List (String × α) → Option α
  | [] => none
  | (other, value) :: others => if other = name then some value else fieldOf name others

namespace Outline

mutual

/-- What an outline stands for. -/
def decode : Outline → Decoded
  | .null => .null
  | .integer value => .integer value
  | .number value => .number value
  | .text value => .text value
  | .list items => .list (decodeItems items)
  | .record fields => .ofFields fun name => fieldOf name (decodeFields fields)
termination_by structural outline => outline

/-- What several outlines stand for. -/
def decodeItems : List Outline → List Decoded
  | [] => []
  | item :: others => item.decode :: decodeItems others
termination_by structural items => items

/-- What the values of several fields stand for. -/
def decodeFields : List (String × Outline) → List (String × Decoded)
  | [] => []
  | (name, value) :: others => (name, value.decode) :: decodeFields others
termination_by structural fields => fields

end

/-- The program that an outline stands for. -/
def program? (outline : Outline) : Option Program := outline.decode.program?

@[simp] theorem decodeItems_append (before after : List Outline) :
    decodeItems (before ++ after) = decodeItems before ++ decodeItems after := by
  induction before with
  | nil => rfl
  | cons item others ih =>
    exact congrArg (item.decode :: ·) ih

@[simp] theorem decodeFields_append (before after : List (String × Outline)) :
    decodeFields (before ++ after) = decodeFields before ++ decodeFields after := by
  induction before with
  | nil => rfl
  | cons field others ih =>
    exact congrArg ((field.1, field.2.decode) :: ·) ih

theorem decodeFields_eq_map (fields : List (String × Outline)) :
    decodeFields fields = fields.map fun field => (field.1, field.2.decode) := by
  induction fields with
  | nil => rfl
  | cons field others ih =>
    exact congrArg ((field.1, field.2.decode) :: ·) ih

-- ============================================================================
-- Records whose fields have names of their own
-- ============================================================================

mutual

/-- Whether no record of an outline has two fields with one name. -/
def Distinct : Outline → Prop
  | .null => True
  | .integer _ => True
  | .number _ => True
  | .text _ => True
  | .list items => DistinctItems items
  | .record fields => (fields.map Prod.fst).Nodup ∧ DistinctFields fields
termination_by structural outline => outline

/-- `Distinct` for every item. -/
def DistinctItems : List Outline → Prop
  | [] => True
  | item :: others => item.Distinct ∧ DistinctItems others
termination_by structural items => items

/-- `Distinct` for the value of every field. -/
def DistinctFields : List (String × Outline) → Prop
  | [] => True
  | (_, value) :: others => value.Distinct ∧ DistinctFields others
termination_by structural fields => fields

end

theorem distinctItems_iff (items : List Outline) :
    DistinctItems items ↔ ∀ item ∈ items, item.Distinct := by
  induction items with
  | nil => simp [DistinctItems]
  | cons item others ih => simp only [DistinctItems, ih, List.forall_mem_cons]

theorem distinctFields_iff (fields : List (String × Outline)) :
    DistinctFields fields ↔ ∀ field ∈ fields, field.2.Distinct := by
  induction fields with
  | nil => simp [DistinctFields]
  | cons field others ih => simp only [DistinctFields, ih, List.forall_mem_cons]

/-- What holds of every member of a list still does with one member replaced. -/
theorem forall_mem_replaced {α : Type} {property : α → Prop} {before after : List α} {old new : α}
    (h : ∀ x ∈ before ++ old :: after, property x) (hnew : property new) :
    ∀ x ∈ before ++ new :: after, property x := by
  rw [List.forall_mem_append, List.forall_mem_cons] at h ⊢
  exact ⟨h.1, hnew, h.2.2⟩

/-- The second outline is the first with the fields of records in another order. -/
inductive Reordered : Outline → Outline → Prop
  | refl (outline : Outline) : Reordered outline outline
  | fields {fields fields' : List (String × Outline)} (h : fields.Perm fields') :
      Reordered (.record fields) (.record fields')
  | item (before after : List Outline) {item item' : Outline} (h : Reordered item item') :
      Reordered (.list (before ++ item :: after)) (.list (before ++ item' :: after))
  | value (before after : List (String × Outline)) (name : String) {value value' : Outline}
      (h : Reordered value value') :
      Reordered (.record (before ++ (name, value) :: after))
        (.record (before ++ (name, value') :: after))
  | trans {first second third : Outline} (h : Reordered first second)
      (h' : Reordered second third) : Reordered first third

/-- The field found by a name does not depend on the order of the fields. -/
theorem fieldOf_perm {α : Type} {fields fields' : List (String × α)} (name : String)
    (hperm : fields.Perm fields') (hnodup : (fields.map Prod.fst).Nodup) :
    fieldOf name fields = fieldOf name fields' := by
  induction hperm with
  | nil => rfl
  | cons field _ ih =>
    simp only [fieldOf]
    rw [ih (List.nodup_cons.mp hnodup).2]
  | swap first second others =>
    have hne : second.1 ≠ first.1 := by
      intro h
      exact (List.nodup_cons.mp hnodup).1 (h ▸ List.mem_cons_self)
    simp only [fieldOf]
    by_cases hfirst : first.1 = name
    · have hsecond : second.1 ≠ name := fun h => hne (h.trans hfirst.symm)
      simp only [if_pos hfirst, if_neg hsecond]
    · simp only [if_neg hfirst]
  | trans hperm _ ih ih' =>
    exact (ih hnodup).trans (ih' ((hperm.map Prod.fst).nodup hnodup))

/-- Reordering fields keeps names distinct, and what an outline stands for. -/
theorem Reordered.decode_eq {outline outline' : Outline} (h : Reordered outline outline')
    (hdistinct : outline.Distinct) : outline'.Distinct ∧ outline'.decode = outline.decode := by
  -- Fields are looked up by name. With distinct names their order does not matter, and one place of
  -- a list or a record can change while the others stay.
  induction h with
  | refl => exact ⟨hdistinct, rfl⟩
  | @fields fields fields' hperm =>
    obtain ⟨hnodup, hfields⟩ := hdistinct
    refine ⟨⟨(hperm.map Prod.fst).nodup hnodup, ?_⟩,
      congrArg Decoded.ofFields (funext fun name => ?_)⟩
    · rw [distinctFields_iff] at hfields ⊢
      exact fun field hfield => hfields field (hperm.mem_iff.mpr hfield)
    · simp only [decodeFields_eq_map]
      refine (fieldOf_perm name (hperm.map _) ?_).symm
      rw [List.map_map]
      exact hnodup
  | @item before after item item' _ ih =>
    have hall := (distinctItems_iff _).mp hdistinct
    obtain ⟨hitem, heq⟩ := ih (hall item List.mem_append_cons_self)
    refine ⟨(distinctItems_iff _).mpr (forall_mem_replaced hall hitem), ?_⟩
    simp only [decode, decodeItems_append, decodeItems, heq]
  | @value before after name value value' _ ih =>
    obtain ⟨hnodup, hfields⟩ := hdistinct
    have hall := (distinctFields_iff _).mp hfields
    obtain ⟨hvalue, heq⟩ := ih (hall (name, value) List.mem_append_cons_self)
    refine ⟨⟨?_, (distinctFields_iff _).mpr (forall_mem_replaced hall hvalue)⟩, ?_⟩
    · rw [List.map_append, List.map_cons] at hnodup ⊢
      exact hnodup
    · simp only [decode, decodeFields_append, decodeFields, heq]
  | trans _ _ ih ih' =>
    obtain ⟨hsecond, heq⟩ := ih hdistinct
    obtain ⟨hthird, heq'⟩ := ih' hsecond
    exact ⟨hthird, heq'.trans heq⟩

-- ============================================================================
-- Outlines of nodes
-- ============================================================================

/-- A field with a new name stands behind the others. -/
theorem setField_of_notMem {name : String} {value : Outline} {fields : List (String × Outline)}
    (h : name ∉ fields.map Prod.fst) : setField name value fields = fields ++ [(name, value)] := by
  induction fields with
  | nil => rfl
  | cons field others ih =>
    have hne : field.1 ≠ name := fun heq => h (heq ▸ List.mem_cons_self)
    simp only [setField, if_neg hne, List.cons_append]
    rw [ih fun hmem => h (List.mem_cons_of_mem _ hmem)]

/-- Fields with new names are set behind the others, each in its turn. -/
theorem foldl_setField {parts fields : List (String × Outline)}
    (h : ((fields ++ parts).map Prod.fst).Nodup) :
    parts.foldl (fun fields part => setField part.1 part.2 fields) fields = fields ++ parts := by
  induction parts generalizing fields with
  | nil => exact (List.append_nil fields).symm
  | cons part others ih =>
    have hnew : part.1 ∉ fields.map Prod.fst := by
      rw [List.map_append, List.map_cons] at h
      exact fun hmem => (List.nodup_append.mp h).2.2 _ hmem _ List.mem_cons_self rfl
    rw [List.foldl_cons, setField_of_notMem hnew, ih (by simpa using h)]
    simp

/-- No part of a node takes the place of its kind, of its place or of another part. -/
theorem node_eq {kind : String} {place : Location} {parts : List (String × Outline)}
    (h : ("kind" :: "line" :: "column" :: parts.map Prod.fst).Nodup) :
    node kind place parts = .record (("kind", .text kind) :: ("line", .integer place.line) ::
      ("column", .integer place.column) :: parts) :=
  congrArg Outline.record (foldl_setField
    (show ((_ ++ parts).map Prod.fst).Nodup from h))

/-- An outline has distinct names in its records and stands for a value. -/
structure Encodes (outline : Outline) (value : Decoded) : Prop where
  distinct : outline.Distinct
  decode_eq : outline.decode = value

/-- Fields whose values encode the values of other fields, name for name. -/
inductive FieldsEncode : List (String × Outline) → List (String × Decoded) → Prop
  | nil : FieldsEncode [] []
  | cons {name : String} {outline : Outline} {value : Decoded} {parts : List (String × Outline)}
      {values : List (String × Decoded)} (h : Encodes outline value)
      (hothers : FieldsEncode parts values) :
      FieldsEncode ((name, outline) :: parts) ((name, value) :: values)

namespace Encodes

theorem null : Encodes .null .null := ⟨trivial, rfl⟩

theorem integer (value : Int) : Encodes (.integer value) (.integer value) := ⟨trivial, rfl⟩

theorem number (value : Binary64) : Encodes (.number value) (.number value) := ⟨trivial, rfl⟩

theorem text (value : String) : Encodes (.text value) (.text value) := ⟨trivial, rfl⟩

end Encodes

namespace FieldsEncode

theorem distinctFields {parts : List (String × Outline)} {values : List (String × Decoded)}
    (h : FieldsEncode parts values) : DistinctFields parts := by
  induction h with
  | nil => trivial
  | cons h _ ih => exact ⟨h.distinct, ih⟩

theorem decodeFields_eq {parts : List (String × Outline)} {values : List (String × Decoded)}
    (h : FieldsEncode parts values) : decodeFields parts = values := by
  induction h with
  | nil => rfl
  | cons h _ ih => simp only [decodeFields, h.decode_eq, ih]

end FieldsEncode

namespace Encodes

/-- A list encodes the values of its items. -/
theorem list {α : Type} {items : List α} {outline : α → Outline} {value : α → Decoded}
    (h : ∀ item ∈ items, Encodes (outline item) (value item)) :
    Encodes (.list (items.map outline)) (.list (items.map value)) := by
  constructor
  · refine (distinctItems_iff _).mpr fun item hitem => ?_
    obtain ⟨source, hsource, rfl⟩ := List.mem_map.mp hitem
    exact (h source hsource).distinct
  · refine congrArg Decoded.list ?_
    induction items with
    | nil => rfl
    | cons item others ih =>
      obtain ⟨hitem, hothers⟩ := List.forall_mem_cons.mp h
      simp only [List.map_cons, decodeItems, hitem.decode_eq, ih hothers]

/-- A record encodes what the values of its fields stand for together. -/
theorem record {parts : List (String × Outline)} {values : List (String × Decoded)}
    {value : Decoded} (hnodup : (parts.map Prod.fst).Nodup) (hparts : FieldsEncode parts values)
    (hvalue : Decoded.ofFields (fun name => fieldOf name values) = value) :
    Encodes (.record parts) value := by
  refine ⟨⟨hnodup, hparts.distinctFields⟩, ?_⟩
  simp only [decode, hparts.decodeFields_eq]
  exact hvalue

/-- The fields of a node: its kind and its place, and then its parts. -/
def fieldsOf (kind : String) (place : Location) (values : List (String × Decoded)) :
    List (String × Decoded) :=
  ("kind", .text kind) :: ("line", .integer place.line) ::
    ("column", .integer place.column) :: values

/-- A point encodes the point of what its coordinates stand for. -/
theorem point {x y : Outline} {left top : Expr} (hx : Encodes x (.expr left))
    (hy : Encodes y (.expr top)) : Encodes (.point x y) (.point ⟨left, top⟩) :=
  record (show ["x", "y"].Nodup by decide) (.cons hx (.cons hy .nil)) rfl

section
variable {kind : String} {place : Location} {parts : List (String × Outline)}
  {values : List (String × Decoded)} {value : Decoded} {e : Expr} {s : Stmt}
  (hnodup : decide ("kind" :: "line" :: "column" :: parts.map Prod.fst).Nodup = true)
  (hparts : FieldsEncode parts values)
include hnodup hparts

/-- A node encodes what its kind, its place and its parts stand for together. -/
theorem node
    (hvalue : Decoded.ofFields (fun name => fieldOf name (fieldsOf kind place values)) = value) :
    Encodes (.node kind place parts) value := by
  rw [node_eq (of_decide_eq_true hnodup)]
  exact record (of_decide_eq_true hnodup)
    (.cons (text kind) (.cons (integer _) (.cons (integer _) hparts))) hvalue

/-- A node encodes the expression that its parts make. -/
theorem expr (he : Expr.ofFields? kind place
      (fun name => fieldOf name (fieldsOf kind place values)) = some e) :
    Encodes (.node kind place parts) (.expr e) := by
  refine node hnodup hparts ?_
  have hnode : Decoded.ofNode? (fun name => fieldOf name (fieldsOf kind place values)) =
      some (.expr e) := congrArg (fun read => (Option.map Decoded.expr read).or _) he
  simp only [Decoded.ofFields, hnode, Option.some_or, Option.getD_some]

/-- A node whose kind is none of an expression or a command encodes the statement that its parts
    make. -/
theorem stmt (hexpr : ∀ field, Expr.ofFields? kind place field = none)
    (hcommand : ∀ field, Command.ofFields? kind place field = none)
    (hstmt : Stmt.ofFields? kind place
      (fun name => fieldOf name (fieldsOf kind place values)) = some s) :
    Encodes (.node kind place parts) (.stmt s) := by
  refine node hnodup hparts ?_
  have hnode : Decoded.ofNode? (fun name => fieldOf name (fieldsOf kind place values)) =
      some (.stmt s) := by
    change ((Option.map Decoded.expr (Expr.ofFields? kind place _)).or
      ((Option.map Decoded.command (Command.ofFields? kind place _)).or
        ((Option.map Decoded.stmt (Stmt.ofFields? kind place _)).or _))) = _
    simp only [hexpr, hcommand, hstmt, Option.map_none, Option.map_some, Option.none_or,
      Option.some_or]
  simp only [Decoded.ofFields, hnode, Option.some_or, Option.getD_some]

end

end Encodes

end Outline

-- ============================================================================
-- Outlines of trees
-- ============================================================================

/-- Lists are read item by item. -/
theorem Decoded.all?_map {α : Type} (item : Decoded → Option α) (value : α → Decoded)
    (h : ∀ source, item (value source) = some source) (sources : List α) :
    all? item (.list (sources.map value)) = some sources := by
  simp only [all?]
  induction sources with
  | nil => rfl
  | cons source others ih => simp [h, ih]

/-- What is made from a list once it is read. -/
theorem Decoded.all?_bind {α β : Type} (item : Decoded → Option α) (value : α → Decoded)
    (h : ∀ source, item (value source) = some source) (sources : List α)
    (next : List α → Option β) :
    (all? item (.list (sources.map value))).bind next = next sources := by
  rw [all?_map item value h, Option.bind_some]

/-- What is made from a list that need not be there, once it is read. -/
theorem Decoded.optional?_all?_bind {α β : Type} (item : Decoded → Option α)
    (value : α → Decoded) (h : ∀ source, item (value source) = some source) (sources : List α)
    (next : Option (List α) → Option β) :
    (optional? (all? item) (.list (sources.map value))).bind next = next (some sources) := by
  change ((all? item (.list (sources.map value))).map some).bind next = _
  rw [all?_map item value h, Option.map_some, Option.bind_some]

theorem Expr.outlines_eq_map (es : List Expr) : Expr.outlines es = es.map Expr.outline := by
  induction es with
  | nil => rfl
  | cons e others ih => exact congrArg (e.outline :: ·) ih

theorem Expr.pointOutlines_eq_map (points : List (Point Expr)) :
    Expr.pointOutlines points =
      points.map fun point => .point point.x.outline point.y.outline := by
  induction points with
  | nil => rfl
  | cons point others ih => exact congrArg (.point point.x.outline point.y.outline :: ·) ih

theorem Stmt.outlines_eq_map (body : List Stmt) : Stmt.outlines body = body.map Stmt.outline := by
  induction body with
  | nil => rfl
  | cons stmt others ih => exact congrArg (stmt.outline :: ·) ih

open Outline (Encodes)

theorem Identifier.outline_encodes (id : Identifier) :
    Encodes id.outline (.expr (.identifier id)) :=
  .node rfl (.cons (.text _) .nil) rfl

/-- The outline of a native expression stands for the expression. -/
theorem Expr.outline_encodes (e : Expr) (h : e.native = true) : Encodes e.outline (.expr e) := by
  -- Each node is its kind and the outlines of its parts, so it is decoded if they are; only lists
  -- of parts are decoded one by one.
  induction e using Expr.induction with
  | identifier id => exact id.outline_encodes
  | number value place =>
    exact .node rfl
      (.cons (.number value) .nil) rfl
  | string value place =>
    exact .node rfl
      (.cons (.text value) .nil) rfl
  | color value place =>
    exact .node rfl
      (.cons (.text value) .nil) rfl
  | binary operator left right place hleft hright =>
    simp only [native_binary, Bool.and_eq_true] at h
    exact .node rfl
      (.cons (.text operator) (.cons (hleft h.1) (.cons (hright h.2) .nil))) rfl
  | call callee arguments place hcallee harguments =>
    simp only [native_call, Bool.and_eq_true, List.all_eq_true] at h
    have hlist : Encodes (.list (outlines arguments)) (.list (arguments.map .expr)) := by
      rw [outlines_eq_map]
      exact .list fun e he => harguments e he (h.2 e he)
    exact .expr rfl
      (.cons (hcallee h.1) (.cons hlist .nil)) (all?_bind expr? .expr (fun _ => rfl) arguments _)
  | circle x y size fill place hx hy hsize hfill =>
    simp only [native_circle, Point.native, Bool.and_eq_true] at h
    exact .node rfl
      (.cons (.point (hx h.1.1.1) (hy h.1.1.2)) (.cons (hsize h.1.2) (.cons (hfill h.2) .nil))) rfl
  | rect x y width height fill place hx hy hwidth hheight hfill =>
    simp only [native_rect, Point.native, Bool.and_eq_true] at h
    exact .node rfl
      (.cons (.point (hx h.1.1.1.1) (hy h.1.1.1.2))
        (.cons (hwidth h.1.1.2) (.cons (hheight h.1.2) (.cons (hfill h.2) .nil)))) rfl
  | line x₁ y₁ x₂ y₂ fill place hx₁ hy₁ hx₂ hy₂ hfill =>
    simp only [native_line, Point.native, Bool.and_eq_true] at h
    exact .node rfl
      (.cons (.point (hx₁ h.1.1.1) (hy₁ h.1.1.2))
        (.cons (.point (hx₂ h.1.2.1) (hy₂ h.1.2.2)) (.cons (hfill h.2) .nil))) rfl
  | triangle corners fill place hcorners hfill =>
    simp only [native_triangle, Point.native, Bool.and_eq_true, List.all_eq_true] at h
    have hlist : Encodes (.list (pointOutlines corners)) (.list (corners.map .point)) := by
      rw [pointOutlines_eq_map]
      refine .list fun point hpoint => ?_
      obtain ⟨hx, hy⟩ := hcorners point hpoint
      exact .point (hx (h.1 point hpoint).1) (hy (h.1 point hpoint).2)
    exact .expr rfl
      (.cons hlist (.cons (hfill h.2) .nil)) (all?_bind point? .point (fun _ => rfl) corners _)
  | foreign value => cases h

/-- The outline of a native command stands for the command. -/
theorem Command.outline_encodes (command : Command) (h : command.native = true) :
    Encodes command.outline (.command command) := by
  cases command with
  | move amount direction place =>
    refine .node rfl
      (.cons (amount.outline_encodes h) (.cons (.text _) .nil)) ?_
    cases direction <;> rfl
  | rotate angle place =>
    exact .node rfl
      (.cons (angle.outline_encodes h) .nil) rfl
  | scale factor place =>
    exact .node rfl
      (.cons (factor.outline_encodes h) .nil) rfl
  | fade amount place =>
    exact .node rfl
      (.cons (amount.outline_encodes h) .nil) rfl
  | foreign value => cases h

theorem Stmt.native_of_mem {body : List Stmt} (h : Stmt.allNative body = true) :
    ∀ stmt ∈ body, stmt.native = true := by
  induction body with
  | nil => exact fun _ hmem => (List.not_mem_nil hmem).elim
  | cons stmt others ih =>
    rw [Stmt.allNative_cons, Bool.and_eq_true] at h
    exact List.forall_mem_cons.mpr ⟨h.1, ih h.2⟩

/-- The outlines of statements that stand for the statements make a list that stands for theirs. -/
theorem Stmt.outlines_encode {body : List Stmt}
    (h : ∀ stmt ∈ body, Encodes stmt.outline (.stmt stmt)) :
    Encodes (.list (Stmt.outlines body)) (.list (body.map .stmt)) := by
  rw [outlines_eq_map]
  exact .list h

/-- The outline of a native statement stands for the statement. -/
theorem Stmt.outline_encodes (stmt : Stmt) (h : stmt.native = true) :
    Encodes stmt.outline (.stmt stmt) := by
  -- As for expressions; bodies are lists of statements, and an absent `else` is null.
  induction stmt using Stmt.induction with
  | binding name value place =>
    exact .node rfl
      (.cons name.outline_encodes (.cons (value.outline_encodes h) .nil)) rfl
  | function name parameters body place ih =>
    have hparameters : Encodes (.list (parameters.map Identifier.outline))
        (.list (parameters.map fun id => .expr (.identifier id))) :=
      .list fun id _ => id.outline_encodes
    have hbody := outlines_encode fun stmt hstmt => ih stmt hstmt (native_of_mem h stmt hstmt)
    exact .stmt rfl
      (.cons name.outline_encodes (.cons hparameters (.cons hbody .nil)))
      (fun _ => rfl) (fun _ => rfl)
      ((all?_bind identifier? (fun id => .expr (.identifier id)) (fun _ => rfl) parameters _).trans
        (all?_bind stmt? .stmt (fun _ => rfl) body _))
  | giveBack value place =>
    cases value with
    | none =>
      exact .node rfl (.cons .null .nil) rfl
    | some value =>
      exact .node rfl
        (.cons (value.outline_encodes h) .nil) rfl
  | plain condition thenBody place ih =>
    simp only [native, Bool.and_eq_true] at h
    have hthen := outlines_encode fun stmt hstmt => ih stmt hstmt (native_of_mem h.2 stmt hstmt)
    exact .stmt rfl
      (.cons (condition.outline_encodes h.1) (.cons hthen (.cons .null .nil)))
      (fun _ => rfl) (fun _ => rfl) (all?_bind stmt? .stmt (fun _ => rfl) thenBody _)
  | otherwise condition thenBody elseBody place ih ih' =>
    simp only [native, Bool.and_eq_true] at h
    have hthen := outlines_encode fun stmt hstmt => ih stmt hstmt (native_of_mem h.1.2 stmt hstmt)
    have helse := outlines_encode fun stmt hstmt => ih' stmt hstmt (native_of_mem h.2 stmt hstmt)
    exact .stmt rfl
      (.cons (condition.outline_encodes h.1.1) (.cons hthen (.cons helse .nil)))
      (fun _ => rfl) (fun _ => rfl)
      ((all?_bind stmt? .stmt (fun _ => rfl) thenBody _).trans
        (optional?_all?_bind stmt? .stmt (fun _ => rfl) elseBody _))
  | loop times body place ih =>
    simp only [native, Bool.and_eq_true] at h
    have hbody := outlines_encode fun stmt hstmt => ih stmt hstmt (native_of_mem h.2 stmt hstmt)
    exact .stmt rfl
      (.cons (times.outline_encodes h.1) (.cons hbody .nil))
      (fun _ => rfl) (fun _ => rfl) (all?_bind stmt? .stmt (fun _ => rfl) body _)
  | animation commands place =>
    simp only [native, List.all_eq_true] at h
    have hlist : Encodes (.list (commands.map Command.outline)) (.list (commands.map .command)) :=
      .list fun command hcommand => command.outline_encodes (h command hcommand)
    exact .stmt rfl (.cons hlist .nil)
      (fun _ => rfl) (fun _ => rfl) (all?_bind command? .command (fun _ => rfl) commands _)
  | scene name body place ih =>
    have hbody := outlines_encode fun stmt hstmt => ih stmt hstmt (native_of_mem h stmt hstmt)
    exact .stmt rfl
      (.cons (.text name) (.cons hbody .nil))
      (fun _ => rfl) (fun _ => rfl) (all?_bind stmt? .stmt (fun _ => rfl) body _)
  | expression value place =>
    exact .node rfl
      (.cons (value.outline_encodes h) .nil) rfl
  | foreign value => cases h

/-- The outline of a native program stands for the program. -/
theorem Program.outline_encodes (program : Program) (h : Stmt.allNative program.body = true) :
    Encodes program.outline (.program program) := by
  have hbody := Stmt.outlines_encode fun stmt hstmt =>
    stmt.outline_encodes (Stmt.native_of_mem h stmt hstmt)
  refine .node rfl (.cons hbody .nil) ?_
  have hprogram := all?_bind stmt? .stmt (fun _ => rfl) program.body fun body =>
    some (Program.mk body program.location)
  exact congrArg (fun read => ((Option.map Decoded.program read).or _).getD _) hprogram

-- ============================================================================
-- Trees from tokens
-- ============================================================================

/-- The outline of a tree loses nothing. The tree of a list of tokens is what its outline stands
    for, however the fields of its records are ordered, so trees with one outline are the same. -/
theorem outline_decodes {tokens : List Token} {program : Program} {errors : List SyntaxError}
    (hparse : parse tokens = .ok (program, errors)) :
    (∀ outline, program.outline.Reordered outline → outline.program? = some program) ∧
      ∀ tokens' program' errors', parse tokens' = .ok (program', errors') →
        program'.outline.Reordered program.outline → program' = program := by
  have decodes : ∀ {tokens program errors}, parse tokens = .ok (program, errors) →
      ∀ outline, program.outline.Reordered outline → outline.program? = some program := by
    intro tokens program errors hparse outline hreordered
    obtain ⟨hdistinct, hdecode⟩ := program.outline_encodes (parse_ok hparse).1
    have heq := (hreordered.decode_eq hdistinct).2.trans hdecode
    simp only [Outline.program?, heq, Decoded.program?]
  refine ⟨decodes hparse, fun tokens' program' errors' hparse' hreordered => ?_⟩
  have h := decodes hparse _ (.refl _)
  rw [decodes hparse' _ hreordered] at h
  exact Option.some.inj h

/-- A branch with no `else` and one with an empty one, and a `return` with no value. -/
theorem outline_decodes_sample :
    let tokens := tokenize
      "if 1 < 2 \x7b \x7d\nif 1 < 2 \x7b \x7d else \x7b \x7d\nfn f() \x7b return \x7d"
    ∃ program, parse tokens = .ok (program, []) ∧ program.outline.program? = some program := by
  intro tokens
  have hclean : (parse tokens).toOption.map Prod.snd = some [] := by decide +kernel
  obtain ⟨program, errors, hparse⟩ :=
    (show NumbersReadable tokens by decide +kernel).exists_parse
  obtain rfl : errors = [] := by
    rw [hparse] at hclean
    simpa [Except.toOption] using hclean
  exact ⟨program, hparse, (outline_decodes hparse).1 _ (.refl _)⟩

end Storyboard
