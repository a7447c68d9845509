/-
  Storyboard.Proofs.Script.Spine

  How the texts of expressions begin.

  An expression is a head that was called zero or more times (`Expr.head`,
  `Expr.groups`), and its text is that of the head with the calls behind it
  (`script_spine`). The first characters tell what the head is (`Lead`): a name or a
  number reaches as far as its characters do, a literal begins with a quote, and of the
  two forms that begin with a parenthesis only a shape goes on with the reserved word
  `function`.
-/
import Storyboard.Proofs.Number.Written
import Storyboard.Proofs.Script.ExprLayout
import Storyboard.Proofs.Text.Decoding
import Storyboard.Proofs.Token.Numbers
import Storyboard.Proofs.Tree.Induction
import Storyboard.Proofs.Tree.Parts

namespace Storyboard

namespace Script

-- ============================================================================
-- Where texts end
-- ============================================================================

/-- What stands behind a text: nothing, or one of the given characters first. -/
def Stops (stops rest : List Char) : Prop := ∀ c ∈ rest.head?, c ∈ stops

/-- What stands behind an expression. -/
def delimiters : List Char := [' ', ')', ',', ';']

theorem Stops.cons {stops : List Char} {c : Char} (h : c ∈ stops) (rest : List Char) :
    Stops stops (c :: rest) := by
  rintro d ⟨⟩
  exact h

theorem Stops.weaken {stops rest : List Char} (h : Stops stops rest) (c : Char) :
    Stops (c :: stops) rest :=
  fun d hd => List.mem_cons_of_mem c (h d hd)

/-- Values that numbers of a text have. -/
def Unsigned (x : Binary64) : Prop := x.isNegative = false ∧ x.magnitude ≤ Binary64.infinityBits

theorem unsigned_of_token {content : String} {token : Token} (h : InText content token)
    (hkind : token.kind = .number) {x : Binary64} (hread : Numeral.read? token.text = some x) :
    Unsigned x := by
  obtain ⟨before, lexeme, rest, -, -, ⟨hend, -⟩ | ⟨value, htext, hform, -⟩⟩ :=
    exists_lexeme_of_mem_tokenize h.1
  · rw [hend] at hkind
    cases hkind
  · rw [hkind] at hform
    cases hform with
    | number hdigit hall hcount =>
      obtain ⟨y, hy, hunsigned⟩ := Numeral.exists_read? hdigit hall hcount
      rw [htext, hy] at hread
      cases hread
      exact hunsigned
    | mark hmark => simp [Lexical.marks] at hmark

/-- Expressions whose text is a name or a number. -/
inductive Atom : Expr → String → Prop where
  | name {id : Identifier} : IsName id.name.toList → Atom (.identifier id) (userName id.name)
  | number {value : Binary64} {place : Location} : Unsigned value →
      Atom (.number value place) value.inScript

theorem Atom.solid {e : Expr} {text : String} (h : Atom e text) : Solid text := by
  cases h with
  | name hname => exact .userName hname
  | number => exact solid_inScript _

/-- A number begins with a digit, or it is the infinity. -/
theorem Unsigned.inScript_starts {x : Binary64} (h : Unsigned x) :
    (∃ c ∈ x.inScript.toList.head?, Text.isAsciiDigit c = true) ∨ x.inScript = "Infinity" := by
  rcases Binary64.inScript_cases h.1 h.2 with hnotes | ⟨-, htext⟩
  · exact .inl hnotes.first
  · exact .inr htext

/-- The texts of the expressions that are no calls, and what is known of their parts. -/
inductive Lead (content : String) (indent : Int) : Expr → String → Prop where
  | atom {e text} : Atom e text → Lead content indent e text
  | quoted {e value} : e.gist = .string value .start → Lead content indent e (Text.literal value)
  | binary {operator left right place l r} : ' ' ∉ operator.toList →
      left.From (InText content) → right.From (InText content) →
      left.script indent = .ok l → right.script indent = .ok r →
      Lead content indent (.binary operator left right place)
        ("(" ++ l ++ " " ++ operator ++ " " ++ r ++ ")")
  | shape {e figure values texts} : e.figure? = some (figure, values) →
      (∀ value ∈ values, value.From (InText content)) →
      Expr.scripts (indent + 1) values = .ok texts →
      Lead content indent e (calledOnce indent (figure.lines texts))

theorem toList_binary (operator l r : String) (rest : List Char) :
    ("(" ++ l ++ " " ++ operator ++ " " ++ r ++ ")").toList ++ rest =
      '(' :: (l.toList ++ ' ' :: (operator.toList ++ ' ' :: (r.toList ++ ')' :: rest))) := by
  simp

/-- Lines at a margin. -/
def linesAt (indent : Int) (lines : List String) : List Char :=
  lines.flatMap fun line => (margin indent ++ line ++ "\n").toList

theorem toList_calledOnce (indent : Int) (lines : List String) (rest : List Char) :
    (calledOnce indent lines).toList ++ rest =
      '(' :: ("function".toList ++ '(' :: (") \x7b\n".toList ++ (linesAt (indent + 1) lines ++
        ((margin indent ++ "\x7d)()").toList ++ rest)))) := by
  have hlines :
      ("".intercalate (lines.map fun line => margin (indent + 1) ++ line ++ "\n")).toList =
        linesAt (indent + 1) lines := by
    induction lines with
    | nil => rfl
    | cons line lines ih =>
      rw [List.map_cons, concat_cons, String.toList_append, ih, linesAt, linesAt, List.flatMap_cons]
  rw [calledOnce_eq, String.toList_append, String.toList_append, hlines]
  simp

end Script

namespace Expr

open Script

/-- What is called first in an expression. -/
def head : Expr → Expr
  | .call callee _ _ => callee.head
  | e => e

/-- The arguments of the calls that follow. -/
def groups : Expr → List (List Expr)
  | .call callee arguments _ => callee.groups ++ [arguments]
  | _ => []

/-- Operators hold no blank. -/
theorem blank_not_mem_operator {content : String} {token : Token} (h : InText content token)
    (hkind : token.kind.isOperator = true) : ' ' ∉ token.text.toList := by
  have hmarks : Lexical.marks.all (fun mark => !mark.1.contains ' ') = true := by decide
  have hblank := List.all_eq_true.mp hmarks _ (mem_marks_of_isOperator h hkind)
  simpa using hblank

/-- A shape is no call. -/
theorem spine_of_figure? {e : Expr} {figure : Figure} {values : List Expr}
    (h : e.figure? = some (figure, values)) : e.head = e ∧ e.groups = [] := by
  cases e with
  | call => cases h
  | _ => exact ⟨rfl, rfl⟩

/-- The text of a head tells what it is. -/
theorem lead_head {content : String} {e : Expr} (h : e.From (InText content)) {indent : Int}
    {text : String} (htext : e.head.script indent = .ok text) :
    Lead content indent e.head text := by
  -- A call has the head of its callee, so the induction goes down to what is called.
  induction h using From.shapewise with
  | identifier id hid =>
    cases htext
    obtain ⟨token, htoken, hkind, rfl⟩ := hid
    exact .atom (.name (isName_of_mem_tokenize htoken.1 hkind).1)
  | number token value htoken hkind hread =>
    cases htext
    exact .atom (.number (unsigned_of_token htoken hkind hread))
  | string value place =>
    cases htext
    exact .quoted rfl
  | color value place =>
    cases htext
    exact .quoted rfl
  | binary token left right htoken hkind hleft hright =>
    obtain ⟨l, r, hl, hr, rfl⟩ := script_binary_eq_ok htext
    exact .binary (blank_not_mem_operator htoken hkind) hleft hright hl hr
  | call callee arguments _ _ hcallee => exact hcallee htext
  | shape e figure values _ hfigure hvalues =>
    rw [(spine_of_figure? hfigure).1] at htext ⊢
    obtain ⟨texts, htexts, rfl⟩ := script_shape hfigure htext
    exact .shape hfigure hvalues htexts

end Expr

namespace Script

-- ============================================================================
-- Calls
-- ============================================================================

/-- Argument lists behind the first argument. -/
def argumentTail : List String → List Char → List Char
  | [], rest => ')' :: rest
  | text :: texts, rest => ',' :: ' ' :: (text.toList ++ argumentTail texts rest)

/-- Arguments up to the parenthesis that closes them, and what stands behind it. -/
def argumentList : List String → List Char → List Char
  | [], rest => ')' :: rest
  | text :: texts, rest => text.toList ++ argumentTail texts rest

theorem argumentTail_append (texts : List String) (rest more : List Char) :
    argumentTail texts (rest ++ more) = argumentTail texts rest ++ more := by
  induction texts with
  | nil => rfl
  | cons text texts ih => simp [argumentTail, ih]

theorem argumentList_append (texts : List String) (rest more : List Char) :
    argumentList texts (rest ++ more) = argumentList texts rest ++ more := by
  cases texts with
  | nil => rfl
  | cons text texts => simp [argumentList, argumentTail_append]

theorem intercalate_eq_argumentList (texts : List String) (rest : List Char) :
    (", ".intercalate texts).toList ++ ')' :: rest = argumentList texts rest := by
  cases texts with
  | nil => rfl
  | cons text texts =>
    induction texts generalizing text with
    | nil => simp [argumentList, argumentTail]
    | cons second texts ih =>
      rw [String.intercalate_cons_cons, String.toList_append, String.toList_append,
        List.append_assoc, ih second]
      simp [argumentList, argumentTail]

/-- Argument lists one behind the other, with their text. -/
inductive Groups (indent : Int) : List (List Expr) → List Char → Prop where
  | nil : Groups indent [] []
  | cons {arguments values groups text} : Expr.scripts indent arguments = .ok values →
      Groups indent groups text →
      Groups indent (arguments :: groups) ('(' :: argumentList values text)

theorem Groups.concat {indent : Int} {groups : List (List Expr)} {text : List Char}
    (h : Groups indent groups text) {arguments : List Expr} {values : List String}
    (hvalues : Expr.scripts indent arguments = .ok values) :
    Groups indent (groups ++ [arguments]) (text ++ '(' :: argumentList values []) := by
  induction h with
  | nil => exact .cons hvalues .nil
  | cons hfirst _ ih =>
    rw [List.cons_append, List.cons_append, ← argumentList_append]
    exact .cons hfirst ih

theorem Groups.stops {indent : Int} {groups : List (List Expr)} {text rest : List Char}
    (h : Groups indent groups text) (hrest : Stops delimiters rest) :
    Stops ('(' :: delimiters) (text ++ rest) := by
  cases h with
  | nil => exact hrest.weaken '('
  | cons => exact .cons List.mem_cons_self _

end Script

namespace Expr

open Script

/-- The arguments of what comes from a text come from it. -/
theorem From.groups {T : Token → Prop} {e : Expr} (h : e.From T) :
    ∀ arguments ∈ e.groups, ∀ a ∈ arguments, a.From T := by
  induction h with
  | call _ harguments ih =>
    rw [Expr.groups, List.forall_mem_append]
    exact ⟨ih, by simpa using harguments⟩
  | _ => simp [Expr.groups]

/-- The text of an expression is that of its head and of the calls behind it. -/
theorem script_spine {e : Expr} {indent : Int} {text : String} (h : e.script indent = .ok text) :
    ∃ front back, e.head.script indent = .ok front ∧ Groups indent e.groups back ∧
      text.toList = front.toList ++ back := by
  induction e using Expr.induction generalizing text with
  | call callee arguments place hcallee =>
    obtain ⟨f, values, hf, hvalues, rfl⟩ := script_call_eq_ok h
    obtain ⟨front, back, hfront, hback, hf'⟩ := hcallee hf
    refine ⟨front, back ++ '(' :: argumentList values [], hfront, hback.concat hvalues, ?_⟩
    simp [hf', ← intercalate_eq_argumentList]
  | _ => exact ⟨text, [], h, .nil, (List.append_nil _).symm⟩

end Expr

end Storyboard
