/-
  Storyboard.Proofs.Scope.Timeline

  The rules of names, stated on what happens in each frame and in which order.

  The program, each function and each scene are frames. What happens in a frame is
  that a name is declared, that a name is used, or that an inner frame is opened.
  The functions of a list of statements are declared when the list is entered, the
  parameters of a function before its body, and the name of a `let` after its value
  was looked at; the bodies of `if` and `repeat` happen in the frame around them, and
  of what an `animate` block holds nothing happens.

  A `Site` is one place in this timeline: a name that is declared or used, and for
  each frame around it, from the innermost out, what happened before and what
  happens after. The rules look at nothing else. A use is wrong if no frame around
  it has declared the name before; a declaration is wrong if its own frame has.
-/
import Storyboard.Diagnostic
import Storyboard.Scope
import Storyboard.Tree

namespace Storyboard

-- ============================================================================
-- Names in expressions
-- ============================================================================

mutual

/-- The names in an expression from left to right. -/
def Expr.names : Expr → List Identifier
  | .identifier id => [id]
  | .number .. | .string .. | .color .. | .foreign _ => []
  | .binary _ left right _ => left.names ++ right.names
  | .call callee arguments _ => callee.names ++ Expr.allNames arguments
  | .circle ⟨x, y⟩ size fill _ => x.names ++ y.names ++ size.names ++ fill.names
  | .rect ⟨x, y⟩ width height fill _ =>
    x.names ++ y.names ++ width.names ++ height.names ++ fill.names
  | .line ⟨x₁, y₁⟩ ⟨x₂, y₂⟩ fill _ =>
    x₁.names ++ y₁.names ++ x₂.names ++ y₂.names ++ fill.names
  | .triangle corners fill _ => Expr.pointNames corners ++ fill.names
termination_by structural e => e

/-- The names in several expressions. -/
def Expr.allNames : List Expr → List Identifier
  | [] => []
  | e :: others => e.names ++ Expr.allNames others
termination_by structural es => es

/-- The names in several points. -/
def Expr.pointNames : List (Point Expr) → List Identifier
  | [] => []
  | ⟨x, y⟩ :: others => x.names ++ y.names ++ Expr.pointNames others
termination_by structural points => points

end

-- ============================================================================
-- Timelines
-- ============================================================================

/-- What happens in a frame. -/
inductive Happening where
  | declares (kind : SymbolKind) (id : Identifier)
  | uses (id : Identifier)
  | opens (inner : List Happening)
  deriving Inhabited

/-- An expression uses its names. -/
def Expr.uses (e : Expr) : List Happening := e.names.map .uses

/-- The name of a statement that is a function. -/
def Stmt.functionName? : Stmt → Option Identifier
  | .function name _ _ _ => some name
  | _ => none

/-- Entering a list of statements declares its functions. -/
def Stmt.hoisted (body : List Stmt) : List Happening :=
  (body.filterMap Stmt.functionName?).map (.declares .function)

mutual

/-- What happens in a statement. -/
def Stmt.timeline : Stmt → List Happening
  | .binding name value _ => value.uses ++ [.declares .binding name]
  | .function _ parameters body _ =>
    [.opens (parameters.map (.declares .parameter) ++ (Stmt.hoisted body ++ Stmt.timelines body))]
  | .giveBack none _ => []
  | .giveBack (some value) _ => value.uses
  | .branch condition thenBody none _ =>
    condition.uses ++ (Stmt.hoisted thenBody ++ Stmt.timelines thenBody)
  | .branch condition thenBody (some elseBody) _ =>
    condition.uses ++ ((Stmt.hoisted thenBody ++ Stmt.timelines thenBody) ++
      (Stmt.hoisted elseBody ++ Stmt.timelines elseBody))
  | .loop times body _ => times.uses ++ (Stmt.hoisted body ++ Stmt.timelines body)
  | .animation .. => []
  | .scene _ body _ => [.opens (Stmt.hoisted body ++ Stmt.timelines body)]
  | .expression value _ => value.uses
  | .foreign _ => []
termination_by structural stmt => stmt

/-- What happens in statements one after the other. -/
def Stmt.timelines : List Stmt → List Happening
  | [] => []
  | stmt :: others => stmt.timeline ++ Stmt.timelines others
termination_by structural body => body

end

/-- What happens in a program. -/
def Program.timeline (p : Program) : List Happening :=
  Stmt.hoisted p.body ++ Stmt.timelines p.body

-- ============================================================================
-- Sites
-- ============================================================================

/-- A place in the timeline of a frame: what happened before it and what happens after it. -/
structure Moment where
  before : List Happening
  after : List Happening
  deriving Inhabited

/-- A happening and its place in each frame around it, from the innermost out. -/
structure Site where
  happening : Happening
  moments : List Moment
  deriving Inhabited

mutual

/-- The sites of a happening whose place is given; those of an inner frame are inside it. -/
def Happening.sites (moments : List Moment) : Happening → List Site
  | .declares kind id => [⟨.declares kind id, moments⟩]
  | .uses id => [⟨.uses id, moments⟩]
  | .opens inner => Happening.sitesFrom moments [] inner
termination_by structural happening => happening

/-- The sites of what happens in a frame from some point on. -/
def Happening.sitesFrom (outer : List Moment) (before : List Happening) :
    List Happening → List Site
  | [] => []
  | happening :: after =>
    happening.sites (⟨before, after⟩ :: outer) ++
      Happening.sitesFrom outer (before ++ [happening]) after
termination_by structural happenings => happenings

end

/-- All sites of a program. -/
def Program.sites (p : Program) : List Site := Happening.sitesFrom [] [] p.timeline

-- ============================================================================
-- Rules
-- ============================================================================

/-- What a happening declares in its frame. -/
def Happening.declaration? : Happening → Option Symbol
  | .declares kind id => some ⟨id.name, kind, id.location⟩
  | _ => none

/-- The first declaration of a name. -/
def firstDeclaration? (happenings : List Happening) (name : String) : Option Symbol :=
  (happenings.filterMap Happening.declaration?).find? fun symbol => symbol.name = name

/-- Whether a name is declared. -/
def declared (happenings : List Happening) (name : String) : Bool :=
  (firstDeclaration? happenings name).isSome

theorem firstDeclaration?_append (xs ys : List Happening) (name : String) :
    firstDeclaration? (xs ++ ys) name =
      (firstDeclaration? xs name).or (firstDeclaration? ys name) := by
  rw [firstDeclaration?, List.filterMap_append, List.find?_append]
  rfl

theorem declared_append (xs ys : List Happening) (name : String) :
    declared (xs ++ ys) name = (declared xs name || declared ys name) := by
  rw [declared, firstDeclaration?_append, Option.isSome_or]
  rfl

/-- The kind of a symbol at the start of a sentence. -/
def SymbolKind.title : SymbolKind → String
  | .binding => "Variable"
  | .function => "Function"
  | .parameter => "Parameter"

/-- What is wrong at a site: a name in use that no frame around it has declared before, or a
    declaration of a name that its own frame has declared before. -/
def Site.complaint? (site : Site) : Option Diagnostic :=
  match site.happening with
  | .uses id =>
    if site.moments.any fun moment => declared moment.before id.name then none
    else some ⟨.naming, "Undefined variable '" ++ id.name ++ "'", some id.location, none⟩
  | .declares kind id =>
    match site.moments with
    | [] => none
    | own :: _ => (firstDeclaration? own.before id.name).map fun previous =>
      ⟨.naming, kind.title ++ " '" ++ id.name ++ "' is already declared in this scope",
        some id.location, some ("previous declaration at " ++ previous.location.describe)⟩
  | .opens _ => none

/-- All that is wrong with the names of a program. -/
def Program.complaints (p : Program) : List Diagnostic := p.sites.filterMap Site.complaint?

end Storyboard
