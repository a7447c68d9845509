/-
  Storyboard.Proofs.Script.ExprLayout

  Lines of scripts, and the texts of expressions in them.

  The text of an expression may span several lines, and it is made before the line that
  holds it is written. So the indentation it was made for has to be the number of braces
  open where it will stand. A line of code stands at its margin (`Passes.line`), and
  every kind of expression, at every indentation, has a text that can be a line of its
  own there (`script_written`).
-/
import Storyboard.Proofs.Script.Inline
import Storyboard.Proofs.Script.Names
import Storyboard.Proofs.Script.Shapes

namespace Storyboard

namespace Script

variable {k : Nat} {opened opened' : List Char}

-- ============================================================================
-- Lines
-- ============================================================================

theorem concat_cons (text : String) (texts : List String) :
    "".intercalate (text :: texts) = text ++ "".intercalate texts := by
  cases texts with
  | nil => simp
  | cons second others => rw [String.intercalate_cons_cons, String.append_empty]

theorem concat_append (front back : List String) :
    "".intercalate (front ++ back) = "".intercalate front ++ "".intercalate back := by
  induction front with
  | nil => simp
  | cons text front ih => rw [List.cons_append, concat_cons, concat_cons, ih, String.append_assoc]

/-- The margin of an indentation is two blanks for each level. -/
theorem margin_passes (opened : List Char) (k : Nat) :
    Passes ⟨.margin 0, opened⟩ (margin k) ⟨.margin (2 * k), opened⟩ := by
  have hcopies : ∀ blanks, Passes ⟨.margin blanks, opened⟩ (Text.copies k "  ")
      ⟨.margin (blanks + 2 * k), opened⟩ := by
    unfold Text.copies
    induction k with
    | zero => exact fun _ => rfl
    | succ k ih =>
      intro blanks
      rw [List.replicate_succ, concat_cons]
      have htwo : Passes ⟨.margin blanks, opened⟩ "  " ⟨.margin (blanks + 2), opened⟩ :=
        .of_chars rfl
      have hrest := ih (blanks + 2)
      rw [show blanks + 2 + 2 * k = blanks + 2 * (k + 1) from by omega] at hrest
      exact htwo.append hrest
  have hmargin := hcopies 0
  rw [Nat.zero_add] at hmargin
  exact hmargin

/-- A text that may end a margin at indentation `k` where the given brackets are open. -/
def Begins (k : Nat) (opened : List Char) (text : String) : Prop :=
  ∃ c rest, text.toList = c :: rest ∧ c.isWhitespace = false ∧ c ≠ '/' ∧
    opened.count '\x7b' = k + if c = '\x7d' then 1 else 0

theorem Starts.begins {text : String} (h : Starts text) (hk : opened.count '\x7b' = k) :
    Begins k opened text := by
  obtain ⟨c, rest, htext, hc⟩ := h
  simp only [startsLine, Bool.and_eq_true, Bool.not_eq_eq_eq_not, Bool.not_true,
    decide_eq_true_eq] at hc
  exact ⟨c, rest, htext, hc.1.1, hc.1.2, by rw [if_neg hc.2, hk, Nat.add_zero]⟩

/-- At the end of its margin a line is code. -/
theorem walk_margin {text : String} (h : Begins k opened text) :
    Spot.walk ⟨.margin (2 * k), opened⟩ text.toList = Spot.walk ⟨.code, opened⟩ text.toList := by
  obtain ⟨c, rest, htext, hblank, hslash, hcount⟩ := h
  have hspace : c ≠ ' ' := by
    rintro rfl
    cases hblank
  have hallows : Spot.allows ⟨.margin (2 * k), opened⟩ c = true := by
    simp only [Spot.allows, hblank, hspace, hcount, decide_false, Bool.not_false, Bool.false_or,
      Bool.true_and, decide_eq_true_eq]
    omega
  have hnext : (Mode.margin (2 * k)).next c = Mode.code.next c := by
    rw [Mode.next, if_neg hspace, if_neg hslash, Mode.next]
  have hstep : Spot.step ⟨.margin (2 * k), opened⟩ c = Spot.step ⟨.code, opened⟩ c := by
    rw [Spot.step, if_pos hallows]
    exact congrArg (fun mode => (track opened c).map (Spot.mk mode)) hnext
  rw [htext, Spot.walk_cons, hstep, Spot.walk_cons]

/-- A line of code that begins at its margin. -/
theorem Passes.line {text : String} (h : Passes ⟨.code, opened⟩ text ⟨.code, opened'⟩)
    (hbegins : Begins k opened text) :
    Passes ⟨.margin 0, opened⟩ (margin k ++ text ++ "\n") ⟨.margin 0, opened'⟩ := by
  have htext : Passes ⟨.margin (2 * k), opened⟩ text ⟨.code, opened'⟩ :=
    (walk_margin hbegins).trans h
  have hnewline : Passes ⟨.code, opened'⟩ "\n" ⟨.margin 0, opened'⟩ := .of_chars rfl
  exact ((margin_passes opened k).append htext).append hnewline

/-- A line that leaves the brackets as they are. -/
theorem Written.line {text : String} (h : Written k text) (hk : opened.count '\x7b' = k) :
    Passes ⟨.margin 0, opened⟩ (margin k ++ text ++ "\n") ⟨.margin 0, opened⟩ :=
  (h.inline opened hk).line (h.starts.begins hk)

/-- A line that is a comment. -/
theorem comment_line {text : String} {rest : List Char} (htext : text.toList = '/' :: '/' :: rest)
    (hrest : '\n' ∉ rest) (hk : opened.count '\x7b' = k) :
    Passes ⟨.margin 0, opened⟩ (margin k ++ text ++ "\n") ⟨.margin 0, opened⟩ := by
  have hcomment : Spot.walk ⟨.comment, opened⟩ rest = some ⟨.comment, opened⟩ := by
    clear htext
    induction rest with
    | nil => rfl
    | cons c rest ih =>
      obtain ⟨hc, hrest⟩ := not_or.mp (mt List.mem_cons.mpr hrest)
      have hstep : Spot.step ⟨.comment, opened⟩ c = some ⟨.comment, opened⟩ := by
        simp [Spot.step, Spot.allows, Mode.isCode, Mode.next, Ne.symm hc]
      rw [Spot.walk_cons, hstep]
      exact ih hrest
  have hslashes : Passes ⟨.margin (2 * k), opened⟩ text ⟨.comment, opened⟩ := by
    have hallows : Spot.allows ⟨.margin (2 * k), opened⟩ '/' = true := by
      simp [Spot.allows, hk, Char.isWhitespace]
    rw [Passes, htext, Spot.walk_cons, Spot.step, if_pos hallows]
    exact hcomment
  have hnewline : Passes ⟨.comment, opened⟩ "\n" ⟨.margin 0, opened⟩ := .of_chars rfl
  exact ((margin_passes opened k).append hslashes).append hnewline

/-- Lines one after the other. -/
theorem lines_pass {lines : List String} (h : ∀ line ∈ lines, Written k line)
    (hk : opened.count '\x7b' = k) :
    Passes ⟨.margin 0, opened⟩ ("".intercalate (lines.map fun line => margin k ++ line ++ "\n"))
      ⟨.margin 0, opened⟩ := by
  induction lines with
  | nil => exact rfl
  | cons line lines ih =>
    obtain ⟨hline, hlines⟩ := List.forall_mem_cons.mp h
    rw [List.map_cons, concat_cons]
    exact (hline.line hk).append (ih hlines)

-- ============================================================================
-- Expressions
-- ============================================================================

/-- The parts of a function that is called on the spot. -/
theorem calledOnce_eq (indent : Int) (lines : List String) :
    calledOnce indent lines = "(function() \x7b\n" ++
      ("".intercalate (lines.map fun line => margin (indent + 1) ++ line ++ "\n") ++
        (margin indent ++ "\x7d)()")) := by
  delta calledOnce
  rw [String.append_assoc, String.append_assoc]

/-- A function called on the spot: its lines stand one level deeper than its braces. -/
theorem written_calledOnce {lines : List String} (h : ∀ line ∈ lines, Written (k + 1) line) :
    Written k (calledOnce k lines) := by
  constructor
  · intro opened hk
    have hopen : Passes ⟨.code, opened⟩ "(function() \x7b\n" ⟨.margin 0, '\x7b' :: '(' :: opened⟩ :=
      .of_chars rfl
    have hinner : ('\x7b' :: '(' :: opened).count '\x7b' = k + 1 := by
      rw [List.count_cons_self, count_paren hk]
    have hlines := lines_pass h hinner
    have hbegins : Begins k ('\x7b' :: '(' :: opened) "\x7d)()" :=
      ⟨'\x7d', [')', '(', ')'], rfl, rfl, by decide, hinner⟩
    have hclose : Passes ⟨.margin (2 * k), '\x7b' :: '(' :: opened⟩ "\x7d)()" ⟨.code, opened⟩ :=
      (walk_margin hbegins).trans (Passes.of_chars rfl)
    exact ((hopen.append hlines).append (margin_passes _ k)).append hclose
  · rw [calledOnce_eq]
    exact (Starts.of_chars rfl).append _

/-- The names that a script makes up for constants and counters are words. -/
theorem Temporary.solid {name : String} (h : Temporary name) : Solid name := by
  have hnumbered : ∀ {head number : String}, head ∈ ["__x", "__y", "__i", "__n"] →
      Solid number → Solid (head ++ number) := by
    intro head number hhead hnumber
    have hsolid : Solid head := by
      simp only [List.mem_cons, List.not_mem_nil, or_false] at hhead
      rcases hhead with rfl | rfl | rfl | rfl
      all_goals exact .of_chars rfl
    exact hsolid.append hnumber.chars
  cases h with
  | constant hname =>
    simp only [List.mem_cons, List.not_mem_nil, or_false] at hname
    rcases hname with rfl | rfl | rfl | rfl | rfl | rfl
    all_goals exact .of_chars rfl
  | coordinate n hhead =>
    exact hnumbered (List.mem_append_left ["__i", "__n"] hhead) (solid_toString n)
  | counter depth hhead =>
    exact hnumbered (List.mem_append_right ["__x", "__y"] hhead) (solid_toString_int depth)

theorem written_constant {name value : String} (hname : Temporary name) (hvalue : Inline k value) :
    Written k (constant name value) := by
  have hhead : Written k "const " := ⟨fun _ _ => .of_chars rfl, .of_chars rfl⟩
  have hequals : Inline k " = " := fun _ _ => .of_chars rfl
  have hend : Inline k ";" := fun _ _ => .of_chars rfl
  exact (((hhead.append hname.solid.written.inline).append hequals).append hvalue).append hend

/-- A line that is the same in every script. -/
theorem Written.of_chars {c : Char} {cs : List Char}
    (h : ∀ opened, Spot.walk ⟨.code, opened⟩ (c :: cs) = some ⟨.code, opened⟩)
    (hc : startsLine c = true) : Written k (String.ofList (c :: cs)) :=
  ⟨fun opened _ => .of_chars (h opened), .of_chars hc⟩

/-- The constants of every figure have names that a script makes up. -/
theorem temporary_names (figure : Figure) : ∀ name ∈ figure.names, Temporary name := by
  have hcoordinate : ∀ n : Nat, Temporary ("__x" ++ toString n) ∧ Temporary ("__y" ++ toString n) :=
    fun n => ⟨.coordinate n (by simp), .coordinate n (by simp)⟩
  have hcolor : Temporary "__color" := .constant (by simp)
  have hx : Temporary "__x" := .constant (by simp)
  have hy : Temporary "__y" := .constant (by simp)
  cases figure with
  | circle => simpa [Figure.names] using ⟨hx, hy, .constant (by simp), hcolor⟩
  | rect => simpa [Figure.names] using ⟨hx, hy, .constant (by simp), .constant (by simp), hcolor⟩
  | line =>
    simpa [Figure.names] using
      ⟨(hcoordinate 1).1, (hcoordinate 1).2, (hcoordinate 2).1, (hcoordinate 2).2, hcolor⟩
  | triangle =>
    simpa [Figure.names] using
      ⟨(hcoordinate 1).1, (hcoordinate 1).2, (hcoordinate 2).1, (hcoordinate 2).2,
        (hcoordinate 3).1, (hcoordinate 3).2, hcolor⟩

/-- The lines that draw a figure are the same in every script. -/
theorem written_strokes (figure : Figure) : ∀ line ∈ figure.strokes, Written k line := by
  cases figure
  all_goals
    simp only [Figure.strokes, List.forall_mem_cons, List.not_mem_nil, false_imp_iff,
      implies_true, and_true]
    and_intros
    all_goals exact .of_chars (fun _ => rfl) rfl

/-- Constants are written if their values stay within their lines. -/
theorem written_constants {names texts : List String} (hnames : ∀ name ∈ names, Temporary name)
    (htexts : ∀ text ∈ texts, Inline k text) :
    ∀ line ∈ List.zipWith constant names texts, Written k line := by
  induction names generalizing texts with
  | nil => simp
  | cons name names ih =>
    cases texts with
    | nil => simp
    | cons text texts =>
      obtain ⟨hname, hnames⟩ := List.forall_mem_cons.mp hnames
      obtain ⟨htext, htexts⟩ := List.forall_mem_cons.mp htexts
      rw [List.zipWith_cons_cons, List.forall_mem_cons]
      exact ⟨written_constant hname htext, ih hnames htexts⟩

/-- So are the lines of a figure. -/
theorem written_lines {figure : Figure} {texts : List String}
    (htexts : ∀ text ∈ texts, Inline k text) : ∀ line ∈ figure.lines texts, Written k line := by
  have hconstants := written_constants (temporary_names figure) htexts
  rw [Figure.lines, List.forall_mem_cons, List.forall_mem_append, List.forall_mem_append,
    List.forall_mem_singleton]
  exact ⟨.of_chars (fun _ => rfl) rfl, hconstants, written_strokes figure,
    .of_chars (fun _ => rfl) rfl⟩

/-- The texts of several expressions are written if each of them is. -/
theorem scripts_written {es : List Expr} {texts : List String}
    (h : ∀ e ∈ es, ∀ {text}, e.script k = .ok text → Written k text)
    (hes : Expr.scripts k es = .ok texts) : ∀ text ∈ texts, Written k text := by
  induction es generalizing texts with
  | nil =>
    cases hes
    simp
  | cons e es ih =>
    obtain ⟨he, hothers⟩ := List.forall_mem_cons.mp h
    obtain ⟨text, others, htext, hscripts, rfl⟩ := Expr.scripts_cons_eq_ok hes
    exact List.forall_mem_cons.mpr ⟨he htext, ih hothers hscripts⟩

/-- A name of a text is written as a word. -/
theorem solid_userName {content : String} {id : Identifier} (h : id.From (InText content)) :
    Solid (userName id.name) := by
  obtain ⟨token, htoken, hkind, rfl⟩ := h
  exact .userName (isName_of_mem_tokenize htoken.1 hkind).1

/-- The text of an expression can be a line of its own at the indentation that it was made for.
    The induction is on where the expression comes from; what a shape computes first stands one
    level deeper, so it goes over all indentations. -/
theorem script_written {content : String} {e : Expr} (h : e.From (InText content)) {text : String}
    (htext : e.script k = .ok text) : Written k text := by
  induction h using Expr.From.shapewise generalizing k text with
  | identifier id hid =>
    cases htext
    exact (solid_userName hid).written
  | number token value =>
    cases htext
    exact (solid_inScript value).written
  | string value place =>
    cases htext
    exact written_literal value
  | color value place =>
    cases htext
    exact written_literal value
  | binary token left right htoken hkind _ _ hleft hright =>
    obtain ⟨l, r, hl, hr, rfl⟩ := Expr.script_binary_eq_ok htext
    constructor
    · intro opened hk
      -- Inside the parentheses as many braces are open as before them.
      have hinner := count_paren hk
      have hblank : Passes ⟨.code, '(' :: opened⟩ " " ⟨.code, '(' :: opened⟩ := .of_chars rfl
      exact ((((((openParen_passes opened).append ((hleft hl).inline _ hinner)).append
        hblank).append (inline_operator htoken hkind _ hinner)).append hblank).append
        ((hright hr).inline _ hinner)).append (closeParen_passes opened)
    · simp only [String.append_assoc]
      exact (Starts.of_chars rfl).append _
  | call callee arguments _ _ hcallee harguments =>
    obtain ⟨f, values, hf, hvalues, rfl⟩ := Expr.script_call_eq_ok htext
    have hlist : Inline k (", ".intercalate values) :=
      .intercalate fun value hvalue =>
        (scripts_written (fun e he => harguments e he) hvalues value hvalue).inline
    have hwritten := (hcallee hf).append hlist.parens
    rw [← String.append_assoc, ← String.append_assoc] at hwritten
    exact hwritten
  | shape e figure values _ hfigure _ hvalues =>
    obtain ⟨texts, htexts, rfl⟩ := Expr.script_shape hfigure htext
    have htexts' : ∀ text ∈ texts, Written (k + 1) text :=
      scripts_written (fun e he => hvalues e he) htexts
    exact written_calledOnce (written_lines fun text htext => (htexts' text htext).inline)

end Script

end Storyboard
