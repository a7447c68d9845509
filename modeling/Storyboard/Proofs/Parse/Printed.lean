/-
  Storyboard.Proofs.Parse.Printed

  Printing trees as words, that is, as tokens without places.

  A statement is followed by a newline. An operand, a callee and the amount of a
  command stand in parentheses unless they are a literal or a name; nothing else
  is put in parentheses. An `else` always has braces, and a `move` always has a
  direction. How a number is spelled is left to a function `spell`.

  `printable` says which trees can be printed: no foreign values, only known
  operators, triangles with three corners, numbers that are spelled right, and no
  expression that stands as a statement and is printed with a parenthesis first,
  since that would be read as the arguments of the line before. `height` is the
  number of edges on the longest way down; points and names are part of the node
  that has them.
-/
import Storyboard.Number.Numeral
import Storyboard.Proofs.Tree.Induction

namespace Storyboard

-- ============================================================================
-- Words
-- ============================================================================

/-- A token without its place. -/
structure Word where
  kind : Kind
  text : String
  deriving DecidableEq, Inhabited

namespace Token

/-- The token without its place. -/
def word (token : Token) : Word := ⟨token.kind, token.text⟩

@[simp] theorem kind_word (token : Token) : token.word.kind = token.kind := rfl

@[simp] theorem text_word (token : Token) : token.word.text = token.text := rfl

end Token

/-- The operators with their kinds. -/
def operators : List (String × Kind) :=
  [("==", .comparison .equal), ("!=", .comparison .notEqual), ("<", .comparison .less),
   (">", .comparison .greater), ("<=", .comparison .lessEqual), (">=", .comparison .greaterEqual),
   ("+", .additive .plus), ("-", .additive .minus), ("*", .multiplicative .times),
   ("/", .multiplicative .divide), ("%", .multiplicative .modulo)]

namespace Word

/-- A keyword in lower case. -/
def keyword (word : Keyword) : Word :=
  ⟨.keyword word, ((Keyword.spellings.find? fun entry => entry.2 = word).map Prod.fst).getD ""⟩

/-- A name. -/
def name (text : String) : Word := ⟨.identifier, text⟩

/-- An operator. -/
def operator (text : String) : Word := ⟨(operators.lookup text).getD .illegal, text⟩

def openParen : Word := ⟨.leftParen, "("⟩
def closeParen : Word := ⟨.rightParen, ")"⟩
def openBrace : Word := ⟨.leftBrace, "\x7b"⟩
def closeBrace : Word := ⟨.rightBrace, "\x7d"⟩
def comma : Word := ⟨.comma, ","⟩
def equals : Word := ⟨.assign, "="⟩
def newline : Word := ⟨.newline, "\n"⟩

/-- Words in parentheses. -/
def parenthesized (words : List Word) : List Word := openParen :: (words ++ [closeParen])

/-- Groups of words with commas between them. -/
def separated : List (List Word) → List Word
  | [] => []
  | part :: parts => part ++ parts.flatMap (comma :: ·)

/-- Two coordinates. -/
def point (x y : List Word) : List Word := openParen :: (x ++ comma :: (y ++ [closeParen]))

end Word

-- ============================================================================
-- Printing
-- ============================================================================

/-- Whether an expression is a literal or a name. -/
def Expr.atomic : Expr → Bool
  | .identifier _ | .number .. | .string .. | .color .. => true
  | _ => false

section Printing

variable (spell : Binary64 → String)

mutual

/-- The words of an expression. -/
def Expr.words : Expr → List Word
  | .identifier id => [.name id.name]
  | .number value _ => [⟨.number, spell value⟩]
  | .string value _ => [⟨.string, value⟩]
  | .color value _ => [⟨.color, value⟩]
  | .binary operator left right _ =>
    (if left.atomic then left.words else Word.parenthesized left.words) ++
      .operator operator ::
        if right.atomic then right.words else Word.parenthesized right.words
  | .call callee arguments _ =>
    (if callee.atomic then callee.words else Word.parenthesized callee.words) ++
      Word.parenthesized (Word.separated (Expr.allWords arguments))
  | .circle ⟨x, y⟩ size fill _ =>
    .keyword (.shape .circle) :: .keyword (.clause .place) :: (Word.point x.words y.words ++
      .keyword (.clause .size) :: (size.words ++ .keyword (.clause .color) :: fill.words))
  | .rect ⟨x, y⟩ width height fill _ =>
    .keyword (.shape .rect) :: .keyword (.clause .place) :: (Word.point x.words y.words ++
      .keyword (.clause .width) :: (width.words ++
        .keyword (.clause .height) :: (height.words ++ .keyword (.clause .color) :: fill.words)))
  | .line ⟨x₁, y₁⟩ ⟨x₂, y₂⟩ fill _ =>
    .keyword (.shape .line) :: (Word.point x₁.words y₁.words ++ (Word.point x₂.words y₂.words ++
      .keyword (.clause .color) :: fill.words))
  | .triangle corners fill _ =>
    .keyword (.shape .triangle) :: (Expr.cornerWords corners ++
      .keyword (.clause .color) :: fill.words)
  | .foreign _ => []
termination_by structural e => e

/-- The words of each of several expressions. -/
def Expr.allWords : List Expr → List (List Word)
  | [] => []
  | e :: others => e.words :: Expr.allWords others
termination_by structural es => es

/-- The words of several points. -/
def Expr.cornerWords : List (Point Expr) → List Word
  | [] => []
  | ⟨x, y⟩ :: others => Word.point x.words y.words ++ Expr.cornerWords others
termination_by structural points => points

end

/-- The words of an operand, a callee or the amount of a command. -/
def Expr.operandWords (e : Expr) : List Word :=
  if e.atomic then e.words spell else Word.parenthesized (e.words spell)

/-- The words of a command; a foreign value has none. -/
def Command.words : Command → List Word
  | .move amount direction _ =>
    .keyword (.command .move) :: (amount.operandWords spell ++ [.keyword (.direction direction)])
  | .rotate angle _ => .keyword (.command .rotate) :: angle.operandWords spell
  | .scale factor _ => .keyword (.command .scale) :: factor.operandWords spell
  | .fade amount _ => .keyword (.command .fade) :: amount.operandWords spell
  | .foreign _ => []

mutual

/-- The words of a statement. -/
def Stmt.words : Stmt → List Word
  | .binding name value _ =>
    .keyword (.statement .letWord) :: .name name.name :: .equals :: value.words spell
  | .function name parameters body _ =>
    .keyword (.statement .fnWord) :: .name name.name :: .openParen ::
      (Word.separated (parameters.map fun id => [.name id.name]) ++ .closeParen ::
        .openBrace :: (Stmt.bodyWords body ++ [.closeBrace]))
  | .giveBack none _ => [.keyword (.statement .returnWord)]
  | .giveBack (some value) _ => .keyword (.statement .returnWord) :: value.words spell
  | .branch condition thenBody none _ =>
    .keyword (.statement .ifWord) :: (condition.words spell ++
      .openBrace :: (Stmt.bodyWords thenBody ++ [.closeBrace]))
  | .branch condition thenBody (some elseBody) _ =>
    .keyword (.statement .ifWord) :: (condition.words spell ++
      ((.openBrace :: (Stmt.bodyWords thenBody ++ [.closeBrace])) ++
        .keyword .otherwise :: .openBrace :: (Stmt.bodyWords elseBody ++ [.closeBrace])))
  | .loop times body _ =>
    .keyword (.statement .repeatWord) :: (times.words spell ++
      .openBrace :: (Stmt.bodyWords body ++ [.closeBrace]))
  | .animation commands _ =>
    .keyword (.statement .animateWord) :: .openBrace ::
      (commands.flatMap (Command.words spell) ++ [.closeBrace])
  | .scene name body _ =>
    .keyword (.statement .sceneWord) :: .name name ::
      .openBrace :: (Stmt.bodyWords body ++ [.closeBrace])
  | .expression value _ => value.words spell
  | .foreign _ => []
termination_by structural stmt => stmt

/-- The words of several statements, with a newline after each. -/
def Stmt.bodyWords : List Stmt → List Word
  | [] => []
  | stmt :: others => stmt.words ++ .newline :: Stmt.bodyWords others
termination_by structural body => body

end

/-- The words of a program. -/
def Program.words (p : Program) : List Word := Stmt.bodyWords spell p.body

-- ============================================================================
-- What can be printed
-- ============================================================================

mutual

/-- Whether an expression can be printed. -/
def Expr.printable : Expr → Bool
  | .identifier _ | .string .. | .color .. => true
  | .number value _ => Numeral.read? (spell value) = some value
  | .binary operator left right _ =>
    (operators.lookup operator).isSome && left.printable && right.printable
  | .call callee arguments _ => callee.printable && Expr.allPrintable arguments
  | .circle ⟨x, y⟩ size fill _ =>
    x.printable && y.printable && size.printable && fill.printable
  | .rect ⟨x, y⟩ width height fill _ =>
    x.printable && y.printable && width.printable && height.printable && fill.printable
  | .line ⟨x₁, y₁⟩ ⟨x₂, y₂⟩ fill _ =>
    x₁.printable && y₁.printable && x₂.printable && y₂.printable && fill.printable
  | .triangle corners fill _ =>
    corners.length = 3 && Expr.cornersPrintable corners && fill.printable
  | .foreign _ => false
termination_by structural e => e

/-- Whether several expressions can be printed. -/
def Expr.allPrintable : List Expr → Bool
  | [] => true
  | e :: others => e.printable && Expr.allPrintable others
termination_by structural es => es

/-- Whether several points can be printed. -/
def Expr.cornersPrintable : List (Point Expr) → Bool
  | [] => true
  | ⟨x, y⟩ :: others => x.printable && y.printable && Expr.cornersPrintable others
termination_by structural points => points

end

/-- Whether a command can be printed. -/
def Command.printable : Command → Bool
  | .move amount _ _ => amount.printable spell
  | .rotate angle _ => angle.printable spell
  | .scale factor _ => factor.printable spell
  | .fade amount _ => amount.printable spell
  | .foreign _ => false

mutual

/-- Whether a statement can be printed. -/
def Stmt.printable : Stmt → Bool
  | .binding _ value _ => value.printable spell
  | .function _ _ body _ => Stmt.allPrintable body
  | .giveBack none _ => true
  | .giveBack (some value) _ => value.printable spell
  | .branch condition thenBody none _ => condition.printable spell && Stmt.allPrintable thenBody
  | .branch condition thenBody (some elseBody) _ =>
    condition.printable spell && Stmt.allPrintable thenBody && Stmt.allPrintable elseBody
  | .loop times body _ => times.printable spell && Stmt.allPrintable body
  | .animation commands _ => commands.all (Command.printable spell)
  | .scene _ body _ => Stmt.allPrintable body
  | .expression value _ =>
    value.printable spell && (value.words spell).head?.map Word.kind ≠ some .leftParen
  | .foreign _ => false
termination_by structural stmt => stmt

/-- Whether several statements can be printed. -/
def Stmt.allPrintable : List Stmt → Bool
  | [] => true
  | stmt :: others => stmt.printable && Stmt.allPrintable others
termination_by structural body => body

end

/-- Whether a program can be printed. -/
def Program.printable (p : Program) : Bool := Stmt.allPrintable spell p.body

end Printing

-- ============================================================================
-- Height
-- ============================================================================

mutual

/-- The number of edges on the longest way down an expression. -/
def Expr.height : Expr → Nat
  | .identifier _ | .number .. | .string .. | .color .. | .foreign _ => 0
  | .binary _ left right _ => max (left.height + 1) (right.height + 1)
  | .call callee arguments _ => max (callee.height + 1) (Expr.allHeight arguments)
  | .circle ⟨x, y⟩ size fill _ =>
    max (max (x.height + 1) (y.height + 1)) (max (size.height + 1) (fill.height + 1))
  | .rect ⟨x, y⟩ width height fill _ =>
    max (max (x.height + 1) (y.height + 1))
      (max (max (width.height + 1) (height.height + 1)) (fill.height + 1))
  | .line ⟨x₁, y₁⟩ ⟨x₂, y₂⟩ fill _ =>
    max (max (max (x₁.height + 1) (y₁.height + 1)) (max (x₂.height + 1) (y₂.height + 1)))
      (fill.height + 1)
  | .triangle corners fill _ => max (Expr.cornersHeight corners) (fill.height + 1)
termination_by structural e => e

/-- The number of edges on the longest way down one of several expressions, from above them. -/
def Expr.allHeight : List Expr → Nat
  | [] => 0
  | e :: others => max (e.height + 1) (Expr.allHeight others)
termination_by structural es => es

/-- The same for several points. -/
def Expr.cornersHeight : List (Point Expr) → Nat
  | [] => 0
  | ⟨x, y⟩ :: others => max (max (x.height + 1) (y.height + 1)) (Expr.cornersHeight others)
termination_by structural points => points

end

/-- The number of edges on the longest way down a command. -/
def Command.height : Command → Nat
  | .move amount _ _ => amount.height + 1
  | .rotate angle _ => angle.height + 1
  | .scale factor _ => factor.height + 1
  | .fade amount _ => amount.height + 1
  | .foreign _ => 0

/-- The same for several commands, from above them. -/
def Command.allHeight : List Command → Nat
  | [] => 0
  | command :: others => max (command.height + 1) (Command.allHeight others)

mutual

/-- The number of edges on the longest way down a statement. -/
def Stmt.height : Stmt → Nat
  | .binding _ value _ => value.height + 1
  | .function _ _ body _ => Stmt.bodyHeight body
  | .giveBack none _ => 0
  | .giveBack (some value) _ => value.height + 1
  | .branch condition thenBody none _ => max (condition.height + 1) (Stmt.bodyHeight thenBody)
  | .branch condition thenBody (some elseBody) _ =>
    max (condition.height + 1) (max (Stmt.bodyHeight thenBody) (Stmt.bodyHeight elseBody))
  | .loop times body _ => max (times.height + 1) (Stmt.bodyHeight body)
  | .animation commands _ => Command.allHeight commands
  | .scene _ body _ => Stmt.bodyHeight body
  | .expression value _ => value.height + 1
  | .foreign _ => 0
termination_by structural stmt => stmt

/-- The number of edges on the longest way down one of several statements, from above them. -/
def Stmt.bodyHeight : List Stmt → Nat
  | [] => 0
  | stmt :: others => max (stmt.height + 1) (Stmt.bodyHeight others)
termination_by structural body => body

end

/-- The number of edges on the longest way down a program. -/
def Program.height (p : Program) : Nat := Stmt.bodyHeight p.body

-- ============================================================================
-- Members of lists
-- ============================================================================

section Members

variable {spell : Binary64 → String}

theorem Expr.allWords_eq_map (es : List Expr) :
    Expr.allWords spell es = es.map (Expr.words spell) := by
  induction es with
  | nil => rfl
  | cons e es ih => rw [Expr.allWords, ih, List.map_cons]

theorem Expr.allPrintable_iff {es : List Expr} :
    Expr.allPrintable spell es = true ↔ ∀ e ∈ es, e.printable spell = true := by
  induction es with
  | nil => simp [Expr.allPrintable]
  | cons e es ih => simp [Expr.allPrintable, ih]

theorem Expr.cornersPrintable_iff {points : List (Point Expr)} :
    Expr.cornersPrintable spell points = true ↔
      ∀ point ∈ points, point.x.printable spell = true ∧ point.y.printable spell = true := by
  induction points with
  | nil => simp [Expr.cornersPrintable]
  | cons point points ih => simp [Expr.cornersPrintable, ih]

theorem Stmt.allPrintable_iff {body : List Stmt} :
    Stmt.allPrintable spell body = true ↔ ∀ stmt ∈ body, stmt.printable spell = true := by
  induction body with
  | nil => simp [Stmt.allPrintable]
  | cons stmt body ih => simp [Stmt.allPrintable, ih]

theorem Expr.height_lt_allHeight {e : Expr} {es : List Expr} (h : e ∈ es) :
    e.height < Expr.allHeight es := by
  induction es with
  | nil => cases h
  | cons other es ih =>
    rw [Expr.allHeight]
    rcases List.mem_cons.mp h with rfl | htail
    · omega
    · have := ih htail
      omega

theorem Expr.height_lt_cornersHeight {point : Point Expr} {points : List (Point Expr)}
    (h : point ∈ points) :
    point.x.height < Expr.cornersHeight points ∧ point.y.height < Expr.cornersHeight points := by
  induction points with
  | nil => cases h
  | cons other points ih =>
    obtain ⟨x, y⟩ := other
    rw [Expr.cornersHeight]
    rcases List.mem_cons.mp h with rfl | htail
    · constructor <;> dsimp only <;> omega
    · have := ih htail
      omega

theorem Stmt.height_lt_bodyHeight {stmt : Stmt} {body : List Stmt} (h : stmt ∈ body) :
    stmt.height < Stmt.bodyHeight body := by
  induction body with
  | nil => cases h
  | cons other body ih =>
    rw [Stmt.bodyHeight]
    rcases List.mem_cons.mp h with rfl | htail
    · omega
    · have := ih htail
      omega

end Members

-- ============================================================================
-- First words
-- ============================================================================

/-- The kinds of tokens with which an expression starts. -/
def Kind.startsExpression : Kind → Bool
  | .number | .string | .color | .identifier | .leftParen | .keyword (.shape _) => true
  | _ => false

section FirstWords

variable {spell : Binary64 → String}

/-- What can be printed has a first word, which can start an expression. -/
theorem Expr.words_eq_cons {e : Expr} (h : e.printable spell = true) :
    ∃ first others, e.words spell = first :: others ∧ first.kind.startsExpression = true := by
  -- An operand starts with a parenthesis, or as its expression does.
  have operand : ∀ {e : Expr} (rest : List Word), (e.printable spell = true →
        ∃ first others, e.words spell = first :: others ∧ first.kind.startsExpression = true) →
      e.printable spell = true →
        ∃ first others, e.operandWords spell ++ rest = first :: others ∧
          first.kind.startsExpression = true := by
    intro e rest he hprint
    obtain ⟨first, others, hwords, hfirst⟩ := he hprint
    unfold Expr.operandWords
    split
    · exact ⟨first, others ++ rest, by rw [hwords, List.cons_append], hfirst⟩
    · exact ⟨.openParen, _, rfl, rfl⟩
  induction e using Expr.induction with
  | identifier | number | string | color => exact ⟨_, _, rfl, rfl⟩
  | binary operator left right place hleft _ =>
    simp only [Expr.printable, Bool.and_eq_true] at h
    exact operand _ hleft h.1.2
  | call callee arguments place hcallee _ =>
    simp only [Expr.printable, Bool.and_eq_true] at h
    exact operand _ hcallee h.1
  | circle | rect | line | triangle => exact ⟨_, _, rfl, rfl⟩
  | foreign => simp [Expr.printable] at h

/-- The first word of an operand does not start a shape. -/
theorem Expr.operandWords_eq_cons (spell : Binary64 → String) (e : Expr) :
    ∃ first others, e.operandWords spell = first :: others ∧
      ∀ word, first.kind ≠ .keyword (.shape word) := by
  unfold Expr.operandWords
  split
  · rename_i hatomic
    cases e with
    | identifier | number | string | color => exact ⟨_, _, rfl, nofun⟩
    | binary | call | circle | rect | line | triangle | foreign => cases hatomic
  · exact ⟨_, _, rfl, nofun⟩

end FirstWords

-- ============================================================================
-- Which words occur
-- ============================================================================

/-- A word that is no end of input and, if it is a number, can be read. -/
def Word.readable (word : Word) : Bool :=
  word.kind ≠ .endOfInput && (word.kind ≠ .number || (Numeral.read? word.text).isSome)

/-- A readable word inside a line. -/
def Word.inline (word : Word) : Bool := word.kind ≠ .newline && word.readable

theorem operators_lookup_mem {text : String} {kind : Kind} (h : operators.lookup text = some kind) :
    (∃ operator, kind = .comparison operator) ∨ (∃ operator, kind = .additive operator) ∨
      ∃ operator, kind = .multiplicative operator := by
  obtain ⟨before, after, hsplit, _⟩ := List.lookup_eq_some_iff.mp h
  have hmem : (text, kind) ∈ operators := by rw [hsplit]; simp
  simp only [operators, List.mem_cons, Prod.mk.injEq, List.not_mem_nil, or_false] at hmem
  rcases hmem with ⟨-, rfl⟩ | ⟨-, rfl⟩ | ⟨-, rfl⟩ | ⟨-, rfl⟩ | ⟨-, rfl⟩ | ⟨-, rfl⟩ | ⟨-, rfl⟩ |
    ⟨-, rfl⟩ | ⟨-, rfl⟩ | ⟨-, rfl⟩ | ⟨-, rfl⟩ <;> simp

namespace Word

@[simp] theorem inline_keyword (word : Keyword) : (keyword word).inline = true := by
  simp [keyword, inline, readable]

@[simp] theorem inline_openParen : openParen.inline = true := rfl
@[simp] theorem inline_closeParen : closeParen.inline = true := rfl
@[simp] theorem inline_comma : comma.inline = true := rfl
@[simp] theorem readable_keyword (word : Keyword) : (keyword word).readable = true := by
  simp [keyword, readable]

@[simp] theorem readable_name (text : String) : (name text).readable = true := rfl

@[simp] theorem readable_openParen : openParen.readable = true := rfl
@[simp] theorem readable_closeParen : closeParen.readable = true := rfl
@[simp] theorem readable_openBrace : openBrace.readable = true := rfl
@[simp] theorem readable_closeBrace : closeBrace.readable = true := rfl
@[simp] theorem readable_equals : equals.readable = true := rfl
@[simp] theorem readable_newline : newline.readable = true := rfl

theorem inline_operator {text : String} (h : (operators.lookup text).isSome = true) :
    (operator text).inline = true := by
  obtain ⟨kind, hkind⟩ := Option.isSome_iff_exists.mp h
  obtain ⟨_, rfl⟩ | ⟨_, rfl⟩ | ⟨_, rfl⟩ := operators_lookup_mem hkind <;>
    simp [operator, hkind, inline, readable]

/-- Groups of words between commas are inside a line if each group is. -/
theorem all_inline_separated {parts : List (List Word)} (h : ∀ part ∈ parts, part.all inline = true) :
    (separated parts).all inline = true := by
  cases parts with
  | nil => rfl
  | cons part parts =>
    rw [separated, List.all_append, h part List.mem_cons_self, Bool.true_and, List.all_flatMap]
    refine List.all_eq_true.mpr fun other hother => ?_
    simp [h other (List.mem_cons_of_mem part hother)]

@[simp] theorem all_inline_parenthesized (words : List Word) :
    (parenthesized words).all inline = words.all inline := by
  simp [parenthesized]

@[simp] theorem all_inline_point (x y : List Word) :
    (point x y).all inline = (x.all inline && y.all inline) := by
  simp [point]

/-- Inside a line there are only readable words. -/
theorem all_readable_of_inline {words : List Word} (h : words.all inline = true) :
    words.all readable = true := by
  refine List.all_eq_true.mpr fun word hword => ?_
  have hinline := List.all_eq_true.mp h word hword
  simp only [inline, Bool.and_eq_true] at hinline
  exact hinline.2

end Word

section Occurring

variable {spell : Binary64 → String}

/-- The words of an operand are those of its expression and perhaps parentheses. -/
theorem Expr.all_inline_operandWords (e : Expr) :
    (e.operandWords spell).all Word.inline = (e.words spell).all Word.inline := by
  unfold Expr.operandWords
  split
  · rfl
  · exact Word.all_inline_parenthesized _

/-- An expression is printed inside one line. -/
theorem Expr.all_inline_words {e : Expr} (h : e.printable spell = true) :
    (e.words spell).all Word.inline = true := by
  induction e using Expr.induction with
  | identifier | string | color => rfl
  | number value place =>
    simp only [Expr.printable, decide_eq_true_eq] at h
    simp [Expr.words, Word.inline, Word.readable, h]
  | binary operator left right place hleft hright =>
    simp only [Expr.printable, Bool.and_eq_true] at h
    change (left.operandWords spell ++ .operator operator :: right.operandWords spell).all _ = true
    rw [List.all_append, List.all_cons, all_inline_operandWords, all_inline_operandWords,
      hleft h.1.2, hright h.2, Word.inline_operator h.1.1]
    rfl
  | call callee arguments place hcallee harguments =>
    simp only [Expr.printable, Bool.and_eq_true, Expr.allPrintable_iff] at h
    change (callee.operandWords spell ++ Word.parenthesized _).all _ = true
    rw [List.all_append, all_inline_operandWords, hcallee h.1, Word.all_inline_parenthesized,
      Expr.allWords_eq_map, Bool.true_and]
    refine Word.all_inline_separated fun part hpart => ?_
    obtain ⟨e, he, rfl⟩ := List.mem_map.mp hpart
    exact harguments e he (h.2 e he)
  | circle x y size fill place hx hy hsize hfill =>
    simp only [Expr.printable, Bool.and_eq_true] at h
    simp [Expr.words, hx h.1.1.1, hy h.1.1.2, hsize h.1.2, hfill h.2]
  | rect x y width height fill place hx hy hwidth hheight hfill =>
    simp only [Expr.printable, Bool.and_eq_true] at h
    simp [Expr.words, hx h.1.1.1.1, hy h.1.1.1.2, hwidth h.1.1.2, hheight h.1.2, hfill h.2]
  | line x₁ y₁ x₂ y₂ fill place hx₁ hy₁ hx₂ hy₂ hfill =>
    simp only [Expr.printable, Bool.and_eq_true] at h
    simp [Expr.words, hx₁ h.1.1.1.1, hy₁ h.1.1.1.2, hx₂ h.1.1.2, hy₂ h.1.2, hfill h.2]
  | triangle corners fill place hcorners hfill =>
    simp only [Expr.printable, Bool.and_eq_true, Expr.cornersPrintable_iff] at h
    -- The corners are a list, so they take an induction of their own.
    have hall : (Expr.cornerWords spell corners).all Word.inline = true := by
      obtain ⟨⟨-, hprint⟩, -⟩ := h
      induction corners with
      | nil => rfl
      | cons point corners ih =>
        obtain ⟨hpoint, hothers⟩ := List.forall_mem_cons.mp hcorners
        obtain ⟨hp, hps⟩ := List.forall_mem_cons.mp hprint
        rw [Expr.cornerWords, List.all_append, Word.all_inline_point, hpoint.1 hp.1,
          hpoint.2 hp.2, ih hothers hps]
        rfl
    simp [Expr.words, hall, hfill h.2]
  | foreign => rfl

/-- A command is printed inside one line. -/
theorem Command.all_inline_words {command : Command} (h : command.printable spell = true) :
    (command.words spell).all Word.inline = true := by
  cases command with
  | move amount direction place =>
    simp [Command.words, Expr.all_inline_operandWords, Expr.all_inline_words h]
  | rotate amount place | scale amount place | fade amount place =>
    simp [Command.words, Expr.all_inline_operandWords, Expr.all_inline_words h]
  | foreign => rfl

/-- The words of statements are readable if those of each statement are. -/
theorem Stmt.all_readable_bodyWords_of {body : List Stmt}
    (h : ∀ stmt ∈ body, (stmt.words spell).all Word.readable = true) :
    (Stmt.bodyWords spell body).all Word.readable = true := by
  induction body with
  | nil => rfl
  | cons stmt body ih =>
    obtain ⟨hstmt, hothers⟩ := List.forall_mem_cons.mp h
    rw [Stmt.bodyWords, List.all_append, List.all_cons, hstmt, ih hothers, Word.readable_newline]
    rfl

/-- A statement is printed with readable words. -/
theorem Stmt.all_readable_words {stmt : Stmt} (h : stmt.printable spell = true) :
    (stmt.words spell).all Word.readable = true := by
  have block : ∀ {body : List Stmt}, Stmt.allPrintable spell body = true →
      (∀ stmt ∈ body, stmt.printable spell = true → (stmt.words spell).all Word.readable = true) →
      (Stmt.bodyWords spell body).all Word.readable = true := fun hprint hbody =>
    Stmt.all_readable_bodyWords_of fun stmt hstmt =>
      hbody stmt hstmt (Stmt.allPrintable_iff.mp hprint stmt hstmt)
  have value : ∀ {e : Expr}, e.printable spell = true → (e.words spell).all Word.readable = true :=
    fun hprint => Word.all_readable_of_inline (Expr.all_inline_words hprint)
  induction stmt using Stmt.induction with
  | binding name e place => simp [Stmt.words, value h]
  | function name parameters body place hbody =>
    have hnames : (Word.separated (parameters.map fun id => [.name id.name])).all Word.readable =
        true := by
      refine Word.all_readable_of_inline (Word.all_inline_separated fun part hpart => ?_)
      obtain ⟨id, _, rfl⟩ := List.mem_map.mp hpart
      rfl
    simp [Stmt.words, hnames, block h hbody]
  | giveBack e place =>
    cases e with
    | none => simp [Stmt.words]
    | some e => simp [Stmt.words, value h]
  | plain condition thenBody place hthen =>
    simp only [Stmt.printable, Bool.and_eq_true] at h
    simp [Stmt.words, value h.1, block h.2 hthen]
  | otherwise condition thenBody elseBody place hthen helse =>
    simp only [Stmt.printable, Bool.and_eq_true] at h
    simp [Stmt.words, value h.1.1, block h.1.2 hthen, block h.2 helse]
  | loop times body place hbody =>
    simp only [Stmt.printable, Bool.and_eq_true] at h
    simp [Stmt.words, value h.1, block h.2 hbody]
  | animation commands place =>
    have hcommands : (commands.flatMap (Command.words spell)).all Word.readable = true := by
      rw [List.all_flatMap]
      refine List.all_eq_true.mpr fun command hcommand => ?_
      exact Word.all_readable_of_inline
        (Command.all_inline_words (List.all_eq_true.mp h command hcommand))
    simp [Stmt.words, hcommands]
  | scene name body place hbody => simp [Stmt.words, block h hbody]
  | expression e place =>
    simp only [Stmt.printable, Bool.and_eq_true] at h
    exact value h.1
  | foreign => rfl

/-- A program is printed with readable words. -/
theorem Program.all_readable_words {p : Program} (h : p.printable spell = true) :
    (p.words spell).all Word.readable = true :=
  Stmt.all_readable_bodyWords_of fun stmt hstmt =>
    Stmt.all_readable_words (Stmt.allPrintable_iff.mp h stmt hstmt)

end Occurring

end Storyboard
