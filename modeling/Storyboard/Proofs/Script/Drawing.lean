/-
  Storyboard.Proofs.Script.Drawing

  Every shape is drawn, and none is drawn twice.

  Before a shape is drawn, a line of the script saves the state of the canvas, and a
  line behind it restores the state. Between the two stand the texts of the shape's
  clauses, which may hold shapes again. `Program.shapes` is the forest of the shapes of a
  program, and the lines that save and restore, read in order, are its brackets
  (`generate_marks`): the text of an expression brings the brackets of its shapes
  wherever it stands in a line (`script_spans`), and so do the lines of statements
  (`Wrote.marked`).
-/
import Storyboard.Proofs.Compile.Totality
import Storyboard.Proofs.Script.Lines
import Storyboard.Proofs.Script.Marks
import Storyboard.Proofs.Script.Spine

namespace Storyboard

-- ============================================================================
-- Shapes of programs
-- ============================================================================

mutual

/-- The shapes of an expression, in the order in which they are drawn. -/
def Expr.shapes : Expr → Forest
  | .binary _ left right _ => left.shapes ++ right.shapes
  | .call callee arguments _ => callee.shapes ++ Expr.allShapes arguments
  | .circle ⟨x, y⟩ size fill _ =>
    .cons (x.shapes ++ (y.shapes ++ (size.shapes ++ fill.shapes))) .nil
  | .rect ⟨x, y⟩ width height fill _ =>
    .cons (x.shapes ++ (y.shapes ++ (width.shapes ++ (height.shapes ++ fill.shapes)))) .nil
  | .line ⟨x₁, y₁⟩ ⟨x₂, y₂⟩ fill _ =>
    .cons (x₁.shapes ++ (y₁.shapes ++ (x₂.shapes ++ (y₂.shapes ++ fill.shapes)))) .nil
  | .triangle corners fill _ => .cons (Expr.pointShapes corners ++ fill.shapes) .nil
  | .identifier _ | .number _ _ | .string _ _ | .color _ _ | .foreign _ => .nil
termination_by structural e => e

/-- The shapes of several expressions. -/
def Expr.allShapes : List Expr → Forest
  | [] => .nil
  | e :: others => e.shapes ++ Expr.allShapes others
termination_by structural es => es

/-- The shapes of several points. -/
def Expr.pointShapes : List (Point Expr) → Forest
  | [] => .nil
  | ⟨x, y⟩ :: others => x.shapes ++ (y.shapes ++ Expr.pointShapes others)
termination_by structural points => points

end

/-- The shapes of a command. -/
def Command.shapes (c : Command) : Forest := Expr.allShapes c.expressions

/-- The shapes of several commands. -/
def Command.allShapes : List Command → Forest
  | [] => .nil
  | c :: others => c.shapes ++ Command.allShapes others

mutual

/-- The shapes of a statement. -/
def Stmt.shapes : Stmt → Forest
  | .binding _ value _ => value.shapes
  | .function _ _ body _ => Stmt.bodyShapes body
  | .giveBack none _ => .nil
  | .giveBack (some value) _ => value.shapes
  | .branch condition thenBody none _ => condition.shapes ++ Stmt.bodyShapes thenBody
  | .branch condition thenBody (some elseBody) _ =>
    condition.shapes ++ (Stmt.bodyShapes thenBody ++ Stmt.bodyShapes elseBody)
  | .loop times body _ => times.shapes ++ Stmt.bodyShapes body
  | .animation commands _ => Command.allShapes commands
  | .scene _ body _ => Stmt.bodyShapes body
  | .expression value _ => value.shapes
  | .foreign _ => .nil
termination_by structural stmt => stmt

/-- The shapes of several statements. -/
def Stmt.bodyShapes : List Stmt → Forest
  | [] => .nil
  | stmt :: others => stmt.shapes ++ Stmt.bodyShapes others
termination_by structural body => body

end

/-- The shapes of a program. -/
def Program.shapes (p : Program) : Forest := Stmt.bodyShapes p.body

/-- Inside a shape are the shapes of the values of its constants. -/
theorem Expr.shapes_of_figure? {e : Expr} {figure : Figure} {values : List Expr}
    (h : e.figure? = some (figure, values)) : e.shapes = .cons (Expr.allShapes values) .nil := by
  unfold figure? at h
  split at h
  all_goals cases h
  all_goals simp [shapes, allShapes, pointShapes, Forest.append_assoc]

namespace Script

-- ============================================================================
-- Expressions
-- ============================================================================

theorem Solid.newline_not_mem {text : String} (h : Solid text) : '\n' ∉ text.toList :=
  fun hmem => absurd (h.chars '\n' hmem) (by decide)

/-- Names and numbers bring no marks. -/
theorem Spans.of_solid {text : String} (h : Solid text) : Spans [] text := .flat h.newline_not_mem

theorem newline_not_mem_literal (value : String) : '\n' ∉ (Text.literal value).toList :=
  fun hmem => absurd (Text.printable_of_mem_literal value '\n' hmem).1 (by decide)

theorem newline_not_mem_operator {content : String} {token : Token} (h : InText content token)
    (hkind : token.kind.isOperator = true) : '\n' ∉ token.text.toList := by
  have hmarks : Lexical.marks.all (fun mark => !mark.1.contains '\n') = true := by decide
  simpa using List.all_eq_true.mp hmarks _ (mem_marks_of_isOperator h hkind)

/-- One more text before those between commas. -/
theorem Spans.separated {ms others : List Mark} {text : String} {texts : List String}
    (h : Spans ms text) (h' : Spans others (", ".intercalate texts))
    (hnone : texts = [] → others = []) :
    Spans (ms ++ others) (", ".intercalate (text :: texts)) := by
  cases texts with
  | nil =>
    rw [String.intercalate_singleton, hnone rfl, List.append_nil]
    exact h
  | cons second texts =>
    have hcomma : Spans [] ", " := .of_chars rfl
    rw [String.intercalate_cons_cons]
    exact (h.before hcomma).append h'

/-- Arguments bring the marks of their texts. -/
theorem spans_arguments {indent : Int} {es : List Expr} {texts : List String}
    (h : ∀ e ∈ es, ∀ {text}, e.script indent = .ok text → Spans e.shapes.marks text)
    (htexts : Expr.scripts indent es = .ok texts) :
    Spans (Expr.allShapes es).marks (", ".intercalate texts) := by
  induction es generalizing texts with
  | nil =>
    cases htexts
    exact .of_chars rfl
  | cons e es ih =>
    obtain ⟨he, hes⟩ := List.forall_mem_cons.mp h
    obtain ⟨text, others, htext, hothers, rfl⟩ := Expr.scripts_cons_eq_ok htexts
    rw [Expr.allShapes, Forest.marks_append]
    refine (he htext).separated (ih hes hothers) ?_
    rintro rfl
    cases es with
    | nil => rfl
    | cons second es =>
      obtain ⟨_, _, -, -, hnone⟩ := Expr.scripts_cons_eq_ok hothers
      cases hnone

/-- Names bring no marks. -/
theorem spans_names {content : String} {ids : List Identifier}
    (h : ∀ id ∈ ids, id.From (InText content)) :
    Spans [] (", ".intercalate (ids.map fun id => userName id.name)) := by
  induction ids with
  | nil => exact .of_chars rfl
  | cons id ids ih =>
    obtain ⟨hid, hids⟩ := List.forall_mem_cons.mp h
    exact (Spans.of_solid (solid_userName hid)).separated (ih hids) fun _ => rfl

/-- Constants bring the marks of their values. -/
theorem marked_constants {k : Int} {names : List String} {values : List Expr} {texts : List String}
    (hlength : names.length = values.length) (hnames : ∀ name ∈ names, '\n' ∉ name.toList)
    (h : ∀ e ∈ values, ∀ {text}, e.script k = .ok text → Spans e.shapes.marks text)
    (htexts : Expr.scripts k values = .ok texts) :
    Marked (Expr.allShapes values).marks
      ((List.zipWith constant names texts).map (margin k ++ ·)) := by
  induction values generalizing names texts with
  | nil =>
    obtain rfl := List.length_eq_zero_iff.mp hlength
    exact .nil
  | cons e values ih =>
    obtain ⟨name, names, rfl⟩ := List.exists_cons_of_length_eq_add_one hlength
    obtain ⟨text, others, htext, hothers, rfl⟩ := Expr.scripts_cons_eq_ok htexts
    obtain ⟨hname, hnames⟩ := List.forall_mem_cons.mp hnames
    obtain ⟨he, hvalues⟩ := List.forall_mem_cons.mp h
    have hconst : Opens [] "const " := .of_chars rfl (by decide)
    have hequals : Spans [] " = " := .of_chars rfl
    have hend : Spans [] ";" := .of_chars rfl
    have hline : Opens e.shapes.marks (constant name text) :=
      (((hconst.before (.flat hname)).before hequals).after (he htext)).before hend
    rw [Expr.allShapes, Forest.marks_append, List.zipWith_cons_cons, List.map_cons]
    exact .cons hline (ih (Nat.succ.inj hlength) hnames hvalues hothers)

/-- A figure brings a bracket, the marks of its values, and the other bracket. -/
theorem marked_lines {k : Int} {figure : Figure} {values : List Expr} {texts : List String}
    (hlength : figure.names.length = values.length)
    (h : ∀ e ∈ values, ∀ {text}, e.script k = .ok text → Spans e.shapes.marks text)
    (htexts : Expr.scripts k values = .ok texts) :
    Marked (Forest.cons (Expr.allShapes values) .nil).marks
      ((figure.lines texts).map (margin k ++ ·)) := by
  have hnames : ∀ name ∈ figure.names, '\n' ∉ name.toList := by cases figure <;> decide
  have hstrokes : Marked [] (figure.strokes.map (margin k ++ ·)) := by
    refine .idle ?_
    cases figure
    all_goals
      simp only [Figure.strokes, List.forall_mem_cons, List.not_mem_nil, false_imp_iff,
        implies_true, and_true]
      and_intros
    all_goals exact .of_chars rfl rfl
  -- The bracket is closed by the last line, behind the constants and the strokes.
  have hinner := (marked_constants hlength hnames h htexts).append
    (hstrokes.append (.mark (k := k) .restore .nil))
  rw [Figure.lines, List.map_cons, List.map_append, List.map_append]
  exact .mark .save hinner

/-- The text of an expression brings the brackets of its shapes, wherever it stands in a line that
    was begun already. -/
theorem script_spans {content : String} {e : Expr} (h : e.From (InText content)) {indent : Int}
    {text : String} (htext : e.script indent = .ok text) : Spans e.shapes.marks text := by
  -- A shape computes its values one level deeper, so the induction goes over all indentations.
  have hopen : Spans [] "(" := .of_chars rfl
  have hclose : Spans [] ")" := .of_chars rfl
  have hblank : Spans [] " " := .of_chars rfl
  induction h using Expr.From.shapewise generalizing indent text with
  | identifier id hid =>
    cases htext
    exact .of_solid (solid_userName hid)
  | number token value =>
    cases htext
    exact .of_solid (solid_inScript value)
  | string value place =>
    cases htext
    exact .flat (newline_not_mem_literal value)
  | color value place =>
    cases htext
    exact .flat (newline_not_mem_literal value)
  | binary token left right htoken hkind _ _ hleft hright =>
    obtain ⟨l, r, hl, hr, rfl⟩ := Expr.script_binary_eq_ok htext
    have hoperator : Spans [] token.text := .flat (newline_not_mem_operator htoken hkind)
    rw [Expr.shapes, Forest.marks_append]
    exact (((((hopen.after (hleft hl)).before hblank).before hoperator).before hblank).append
      (hright hr)).before hclose
  | call callee arguments _ _ hcallee harguments =>
    obtain ⟨f, values, hf, hvalues, rfl⟩ := Expr.script_call_eq_ok htext
    have hlist := spans_arguments (fun e he => harguments e he) hvalues
    rw [Expr.shapes, Forest.marks_append]
    exact (((hcallee hf).before hopen).append hlist).before hclose
  | shape e figure values _ hfigure _ hvalues =>
    obtain ⟨texts, htexts, rfl⟩ := Expr.script_shape hfigure htext
    rw [Expr.shapes_of_figure? hfigure]
    exact spans_calledOnce (marked_lines (Expr.length_names_of_figure? hfigure)
      (fun e he => hvalues e he) htexts)

/-- What begins otherwise than a line that saves or restores. -/
theorem off_of_first {c : Char} (h : c ≠ 'c') (cs : List Char) : Off (c :: cs) := by
  constructor
  all_goals
    intro hbegins
    exact h (List.cons_prefix_cons.mp hbegins).1

/-- A name with what follows it. Both lines have a point behind `ctx`, and no name holds one. -/
theorem off_name {name : List Char} {c : Char} (hname : '.' ∉ name) (hc : c = '(' ∨ c = ';') :
    Off (name ++ [c]) := by
  have hbegins : ∀ tail, ¬name ++ [c] <+: "ctx.".toList ++ tail := by
    intro tail hbegins
    rcases List.prefix_or_prefix_of_prefix hbegins (List.prefix_append _ tail) with hin | hover
    · have hmem := hin.subset (List.mem_append_right name (List.mem_singleton_self c))
      rcases hc with rfl | rfl
      all_goals exact absurd hmem (by decide)
    · have hmem : '.' ∈ name ++ [c] := hover.subset (by decide)
      rcases List.mem_append.mp hmem with hin | hlast
      · exact hname hin
      · rw [List.mem_singleton] at hlast
        rcases hc with rfl | rfl
        all_goals exact absurd hlast (by decide)
  exact ⟨hbegins "save();".toList, hbegins "restore();".toList⟩

/-- No name or number makes a line that saves or restores. -/
theorem Atom.off {e : Expr} {text : String} (h : Atom e text) {c : Char} (hc : c = '(' ∨ c = ';') :
    Off (text.toList ++ [c]) := by
  cases h with
  | @name id hname =>
    refine off_name ?_ hc
    have hpoint : '.' ∉ id.name.toList := fun hmem =>
      absurd (hname.wordChars '.' hmem) (by decide)
    unfold userName
    split
    · simpa using hpoint
    · exact hpoint
  | @number value _ hvalue =>
    rcases hvalue.inScript_starts with ⟨d, hd, hdigit⟩ | hinfinity
    · obtain ⟨ds, hlist⟩ := List.head?_eq_some_iff.mp hd
      rw [hlist]
      refine off_of_first ?_ _
      rintro rfl
      cases hdigit
    · rw [hinfinity]
      exact off_of_first (by decide) _

/-- No name or number begins with an indentation. -/
theorem unindented_solid {text : String} (h : Solid text) (rest : List Char) :
    unindented (text.toList ++ rest) = text.toList ++ rest := by
  obtain ⟨c, cs, hlist⟩ := List.exists_cons_of_ne_nil h.ne_nil
  have hsolid := h.chars c (by rw [hlist]; exact List.mem_cons_self)
  rw [hlist, List.cons_append, unindented, List.dropWhile_cons_of_neg]
  intro hblank
  rw [of_decide_eq_true hblank] at hsolid
  cases hsolid

/-- How a line begins that is an expression. -/
theorem exists_begin {content : String} {e : Expr} (h : e.From (InText content)) {indent : Int}
    {text : String} (htext : e.script indent = .ok text) :
    ∃ front back, (text ++ ";").toList = front ++ back ∧ '\n' ∉ front ∧ Off (unindented front) := by
  obtain ⟨lead, calls, hlead, hcalls, hspine⟩ := Expr.script_spine htext
  -- A call or the end of the statement follows the head.
  obtain ⟨c, more, hc, hmore⟩ : ∃ c more, (c = '(' ∨ c = ';') ∧ calls ++ [';'] = c :: more := by
    generalize e.groups = groups at hcalls
    cases hcalls with
    | nil => exact ⟨';', [], .inr rfl, rfl⟩
    | cons => exact ⟨'(', _, .inl rfl, rfl⟩
  have hall : (text ++ ";").toList = lead.toList ++ c :: more := by
    rw [String.toList_append, hspine, List.append_assoc, ← hmore]
    rfl
  rw [hall]
  have hview := Expr.lead_head h hlead
  generalize e.head = head at hview
  cases hview with
  | atom hatom =>
    refine ⟨lead.toList ++ [c], more, by simp, ?_, ?_⟩
    · intro hmem
      rcases List.mem_append.mp hmem with hin | hlast
      · exact hatom.solid.newline_not_mem hin
      · rw [List.mem_singleton] at hlast
        rcases hc with rfl | rfl
        all_goals exact absurd hlast (by decide)
    · rw [unindented_solid hatom.solid]
      exact hatom.off hc
  | quoted =>
    exact ⟨['\x22'], _, by rw [Text.toList_literal]; rfl, by decide, by decide⟩
  | binary => exact ⟨['('], _, by rw [toList_binary]; rfl, by decide, by decide⟩
  | shape => exact ⟨['('], _, by rw [toList_calledOnce]; rfl, by decide, by decide⟩

/-- A line that is an expression. -/
theorem opens_expression {content : String} {e : Expr} (h : e.From (InText content)) {indent : Int}
    {text : String} (htext : e.script indent = .ok text) : Opens e.shapes.marks (text ++ ";") := by
  obtain ⟨front, back, hall, hnewline, hoff⟩ := exists_begin h htext
  have hend : Spans [] ";" := .of_chars rfl
  exact ((script_spans h htext).before hend).opens hall hnewline hoff

-- ============================================================================
-- Statements
-- ============================================================================

theorem newline_not_mem_opening (c : Command) : '\n' ∉ c.opening.toList := by
  unfold Command.opening
  split
  all_goals decide

/-- The lines of commands bring the brackets of their shapes. -/
theorem Steps.marked {content : String} {k : Int} {steps : List Command} {lines : List String}
    (h : Steps k steps lines) (hfrom : ∀ c ∈ steps, c.From (InText content)) :
    Marked (Command.allShapes steps).marks lines := by
  have hstate : Opens [] "animationState." := .of_chars rfl (by decide)
  have hend : Spans [] ";" := .of_chars rfl
  induction h with
  | nil => exact .nil
  | @cons c amount text rest lines hamount htext _ ih =>
    obtain ⟨hc, hrest⟩ := List.forall_mem_cons.mp hfrom
    have hown : amount ∈ c.expressions := by
      rw [hamount]
      exact List.mem_singleton_self amount
    have hline := ((hstate.before (.flat (newline_not_mem_opening c))).after
      (script_spans (hc.own hown) htext)).before hend
    simp only [Command.allShapes, Command.shapes, hamount, Expr.allShapes, Forest.append_nil,
      Forest.marks_append]
    exact .cons hline (ih hrest)

/-- The line of a binding. -/
theorem opens_binding {ms : List Mark} {name text : String} (hname : Solid name)
    (h : Spans ms text) : Opens ms ("var " ++ name ++ " = " ++ text ++ ";") := by
  have hhead : Opens [] "var " := .of_chars rfl (by decide)
  have hequals : Spans [] " = " := .of_chars rfl
  have hend : Spans [] ";" := .of_chars rfl
  exact (((hhead.before (.of_solid hname)).before hequals).after h).before hend

/-- The line that opens a function. -/
theorem opens_function {name parameters : String} (hname : Solid name)
    (h : Spans [] parameters) :
    Opens [] ("function " ++ name ++ "(" ++ parameters ++ ") \x7b") := by
  have hhead : Opens [] "function " := .of_chars rfl (by decide)
  have hopen : Spans [] "(" := .of_chars rfl
  have hclose : Spans [] ") \x7b" := .of_chars rfl
  exact (((hhead.before (.of_solid hname)).before hopen).before h).before hclose

/-- The line that opens a branch. -/
theorem opens_branch {ms : List Mark} {text : String} (h : Spans ms text) (condition : Expr) :
    Opens ms ("if " ++ (if hasParens condition then text else "(" ++ text ++ ")") ++ " \x7b") := by
  have hhead : Opens [] "if " := .of_chars rfl (by decide)
  have hopen : Spans [] "(" := .of_chars rfl
  have hclose : Spans [] ")" := .of_chars rfl
  have hend : Spans [] " \x7b" := .of_chars rfl
  have hcondition : Spans ms (if hasParens condition then text else "(" ++ text ++ ")") := by
    split
    · exact h
    · exact (hopen.after h).before hclose
  exact (hhead.after hcondition).before hend

/-- The line that opens a loop. -/
theorem opens_loop {ms : List Mark} {text : String} (h : Spans ms text) (depth : Int) :
    Opens ms ("for (let " ++ s!"__i{depth}" ++ " = 0, " ++ s!"__n{depth}" ++ " = " ++ text ++
      "; " ++ s!"__i{depth}" ++ " < " ++ s!"__n{depth}" ++ "; " ++ s!"__i{depth}" ++
      "++) \x7b") := by
  have hname : ∀ {head : String}, head ∈ ["__i", "__n"] → Spans [] (head ++ toString depth) :=
    fun hhead => .of_solid (Temporary.counter depth hhead).solid
  have hcounter : Spans [] s!"__i{depth}" := hname List.mem_cons_self
  have hbound : Spans [] s!"__n{depth}" := hname (List.mem_cons_of_mem _ List.mem_cons_self)
  have hhead : Opens [] "for (let " := .of_chars rfl (by decide)
  have hzero : Spans [] " = 0, " := .of_chars rfl
  have hequals : Spans [] " = " := .of_chars rfl
  have hnext : Spans [] "; " := .of_chars rfl
  have hless : Spans [] " < " := .of_chars rfl
  have hend : Spans [] "++) \x7b" := .of_chars rfl
  have hinitial :=
    ((((hhead.before hcounter).before hzero).before hbound).before hequals).after h
  have hcompared := (((hinitial.before hnext).before hcounter).before hless).before hbound
  exact ((hcompared.before hnext).before hcounter).before hend

/-- A block: the line that opens it, the lines inside of it, and the line that closes it. -/
theorem marked_block {ms inside others : List Mark} {k : Int} {code : String}
    {inner lines : List String} (hline : Opens ms code) (hinner : Marked inside inner)
    (h : Marked others lines) :
    Marked (ms ++ (inside ++ others))
      ((margin k ++ code) :: (inner ++ (margin k ++ "\x7d") :: lines)) := by
  have hbrace : Opens [] "\x7d" := .of_chars rfl (by decide)
  exact .cons hline (hinner.append (.skip hbrace h))

/-- The name of a routine at the beginning of a line. -/
theorem opens_freshName {base : String} (h : Opens [] base) (taken : List String) :
    Opens [] (freshName taken base) := by
  obtain ⟨n, hn⟩ := exists_candidate taken base
  rw [hn]
  cases n with
  | zero => exact h
  | succ n =>
    have hunderscore : Spans [] "_" := .of_chars rfl
    exact (h.before hunderscore).before (.of_solid (solid_toString (n + 2)))

/-- The lines of a routine bring the marks of the lines inside of it. -/
theorem marked_routine {ms others : List Mark} {k : Int} {base name : String}
    {taken inner lines : List String} (hname : name = freshName taken base) (hsolid : Solid base)
    (hbase : Opens [] base) (hinner : Marked ms inner) (h : Marked others lines) :
    Marked (ms ++ others) ((margin k ++ ("function " ++ name ++ "() \x7b")) ::
      (inner ++ (margin k ++ "\x7d") :: (margin k ++ (name ++ "();")) :: lines)) := by
  have hhead : Opens [] "function " := .of_chars rfl (by decide)
  have hend : Spans [] "() \x7b" := .of_chars rfl
  have hcall : Spans [] "();" := .of_chars rfl
  have hflat : Spans [] name := .of_solid (hname ▸ solid_freshName hsolid taken)
  have hopens : Opens [] name := hname ▸ opens_freshName hbase taken
  exact marked_block ((hhead.before hflat).before hend) hinner (.skip (hopens.before hcall) h)

/-- The routine of an animation clears the canvas first and asks to be called again last. -/
theorem marked_frames {ms others : List Mark} {k : Int} {name : String}
    {taken inner lines : List String} (hname : name = freshName taken "animate")
    (hinner : Marked ms inner) (h : Marked others lines) :
    Marked (ms ++ others) ((margin k ++ ("function " ++ name ++ "() \x7b")) ::
      (margin (k + 1) ++ "clear();") ::
      (inner ++ (margin (k + 1) ++ ("requestAnimationFrame(" ++ name ++ ");")) ::
        (margin k ++ "\x7d") :: (margin k ++ (name ++ "();")) :: lines)) := by
  have hclear : Opens [] "clear();" := .of_chars rfl (by decide)
  have hframe : Opens [] "requestAnimationFrame(" := .of_chars rfl (by decide)
  have hclose : Spans [] ");" := .of_chars rfl
  have hsolid : Solid "animate" := ⟨by decide, forall_isSolid rfl⟩
  have hflat : Spans [] name := .of_solid (hname ▸ solid_freshName hsolid taken)
  have hagain := Marked.skip (k := k + 1) ((hframe.before hflat).before hclose) .nil
  have hlines := Marked.skip (k := k + 1) hclear (hinner.append hagain)
  have hroutine := marked_routine (k := k) hname hsolid (.of_chars rfl (by decide)) hlines h
  simp only [List.cons_append, List.append_assoc, List.nil_append, List.append_nil] at hroutine
  exact hroutine

/-- The lines of statements bring the brackets of their shapes. -/
theorem Wrote.marked {content : String} {k : Int} {body : List Stmt} {lines : List String}
    (h : Wrote k body lines) (hfrom : ∀ stmt ∈ body, stmt.From (InText content)) :
    Marked (Stmt.bodyShapes body).marks lines := by
  have hend : Spans [] ";" := .of_chars rfl
  -- The induction is on how the lines were written; where a statement comes from says what its
  -- names and operators look like. The lines of a statement bring its own shapes, first those in
  -- the line that opens it and then those of its bodies, and the rest brings the others.
  induction h with
  | nil => exact .nil
  | binding htext _ ih =>
    obtain ⟨hstmt, hrest⟩ := List.forall_mem_cons.mp hfrom
    cases hstmt with
    | binding _ hname hvalue =>
      have hline := opens_binding (solid_userName hname) (script_spans hvalue htext)
      simp only [Stmt.bodyShapes, Stmt.shapes, Forest.marks_append]
      exact .cons hline (ih hrest)
  | function _ _ ihBody ih =>
    obtain ⟨hstmt, hrest⟩ := List.forall_mem_cons.mp hfrom
    cases hstmt with
    | function _ hname hparameters hbody =>
      have hline := opens_function (solid_userName hname) (spans_names hparameters)
      simp only [Stmt.bodyShapes, Stmt.shapes, Forest.marks_append]
      exact marked_block hline (ihBody hbody) (ih hrest)
  | giveBack _ ih =>
    obtain ⟨-, hrest⟩ := List.forall_mem_cons.mp hfrom
    have hline : Opens [] "return;" := .of_chars rfl (by decide)
    exact .skip hline (ih hrest)
  | giveBackValue htext _ ih =>
    obtain ⟨hstmt, hrest⟩ := List.forall_mem_cons.mp hfrom
    have hhead : Opens [] "return " := .of_chars rfl (by decide)
    have hvalue := hstmt.own (List.mem_singleton_self _)
    simp only [Stmt.bodyShapes, Stmt.shapes, Forest.marks_append]
    exact .cons ((hhead.after (script_spans hvalue htext)).before hend) (ih hrest)
  | plain htext _ _ ihThen ih =>
    obtain ⟨hstmt, hrest⟩ := List.forall_mem_cons.mp hfrom
    cases hstmt with
    | plain _ hcondition hthen =>
      have hline := opens_branch (script_spans hcondition htext)
      simp only [Stmt.bodyShapes, Stmt.shapes, Forest.marks_append, List.append_assoc]
      exact marked_block (hline _) (ihThen hthen) (ih hrest)
  | otherwise htext _ _ _ ihThen ihElse ih =>
    obtain ⟨hstmt, hrest⟩ := List.forall_mem_cons.mp hfrom
    cases hstmt with
    | otherwise _ hcondition hthen helse =>
      have hline := opens_branch (script_spans hcondition htext)
      have hbrace : Opens [] "\x7d" := .of_chars rfl (by decide)
      -- Two blocks, and the line between them belongs to neither.
      have hturn : Opens [] "\x7d else \x7b" := .of_chars rfl (by decide)
      simp only [Stmt.bodyShapes, Stmt.shapes, Forest.marks_append, List.append_assoc]
      exact .cons (hline _) ((ihThen hthen).append (.skip hturn
        ((ihElse helse).append (.skip hbrace (ih hrest)))))
  | loop depth htext _ _ ihBody ih =>
    obtain ⟨hstmt, hrest⟩ := List.forall_mem_cons.mp hfrom
    cases hstmt with
    | loop _ htimes hbody =>
      have hline := opens_loop (script_spans htimes htext) depth
      simp only [Stmt.bodyShapes, Stmt.shapes, Forest.marks_append, List.append_assoc]
      exact marked_block hline (ihBody hbody) (ih hrest)
  | animation taken hname hsteps _ ih =>
    obtain ⟨hstmt, hrest⟩ := List.forall_mem_cons.mp hfrom
    cases hstmt with
    | animation _ hcommands =>
      -- Commands draw nothing themselves, but what they compute may be a shape.
      have hnote : Opens [] "// Animation loop" := .of_chars rfl (by decide)
      simp only [Stmt.bodyShapes, Stmt.shapes, Forest.marks_append]
      exact .skip hnote (marked_frames hname (hsteps.marked hcommands) (ih hrest))
  | scene taken hname _ _ ihBody ih =>
    obtain ⟨hstmt, hrest⟩ := List.forall_mem_cons.mp hfrom
    cases hstmt with
    | @scene title _ _ _ htitle hbody =>
      -- The title stands in a comment and in the name of the routine.
      have hword : Solid title.name := by
        obtain ⟨token, htoken, hkind, rfl⟩ := htitle
        exact .ofName (isName_of_mem_tokenize htoken.1 hkind).1
      have hnote : Opens [] "// Scene: " := .of_chars rfl (by decide)
      have hhead : Opens [] "scene_" := .of_chars rfl (by decide)
      have hflat : Spans [] title.name := .of_solid hword
      have hsolid : Solid ("scene_" ++ title.name) := .of_append (forall_isSolid rfl) hword
      simp only [Stmt.bodyShapes, Stmt.shapes, Forest.marks_append]
      exact .skip (hnote.before hflat)
        (marked_routine hname hsolid (hhead.before hflat) (ihBody hbody) (ih hrest))
  | expression htext _ ih =>
    obtain ⟨hstmt, hrest⟩ := List.forall_mem_cons.mp hfrom
    have hvalue := hstmt.own (List.mem_singleton_self _)
    simp only [Stmt.bodyShapes, Stmt.shapes, Forest.marks_append]
    exact .cons (opens_expression hvalue htext) (ih hrest)

-- ============================================================================
-- Scripts
-- ============================================================================

/-- No line of the preamble saves or restores. -/
theorem scan_preamble (rest : List Char) : scan [] (preamble.toList ++ rest) = scan [] rest := by
  have hhead : Opens [] "const canvas = document.getElementById(\"" := .of_chars rfl (by decide)
  have hid : Spans [] canvasId := .of_chars rfl
  have hend : Spans [] "\");" := .of_chars rfl
  refine scan_intercalate ?_ rfl rest
  simp only [List.forall_mem_cons, List.not_mem_nil, false_imp_iff, implies_true, and_true]
  refine ⟨?_, ((hhead.before hid).before hend).idle, ?_⟩
  · exact .of_chars rfl rfl
  · and_intros
    all_goals exact .of_chars rfl rfl

/-- The lines of a script that save and restore are the brackets of the shapes of its program. -/
theorem generate_marks {content : String} {p : Program} {script : String}
    (hfrom : ∀ stmt ∈ p.body, stmt.From (InText content)) (h : generate p = .ok script) :
    marks script = p.shapes.marks := by
  rw [marks_eq_scan, Program.shapes]
  rcases generate_wrote h with ⟨hempty, rfl⟩ | ⟨inner, hinner, rfl⟩
  · rw [hempty, ← List.append_nil preamble.toList, scan_preamble]
    rfl
  · have hnote : Opens [] "// Main program" := .of_chars rfl (by decide)
    have hmain : Opens [] "(function main() \x7b" := .of_chars rfl (by decide)
    have hend : Opens [] "\x7d)();" := .of_chars rfl (by decide)
    have hlines := Marked.skip (k := 0) hnote (.skip (k := 0) hmain
      ((hinner.marked hfrom).append (.skip (k := 0) hend .nil)))
    have hmargin : ∀ code, margin 0 ++ code = code := fun code => String.empty_append
    simp only [hmargin, List.append_nil] at hlines
    have hscan := hlines []
    rw [List.append_nil] at hscan
    rw [String.toList_append, scan_preamble, hscan]
    exact List.append_nil _

end Script

/-- No shape of a text is lost or drawn twice: the lines of its script that save the state of the
    canvas are as many as the shapes of its program, so are those that restore the state, and in
    order they are balanced brackets that nest like the shapes. -/
theorem shapes_drawn_once (content : String) :
    ∃ p errors script, parse (tokenize content) = .ok (p, errors) ∧ generate p = .ok script ∧
      (∀ mark : Mark, (Text.lines script).countP
        (fun line => Script.unindented line.toList = mark.code.toList) = p.shapes.size) ∧
      Script.marks script = p.shapes.marks ∧ Mark.balancedFrom 0 (Script.marks script) = true := by
  obtain ⟨p, errors, script, hparse, -, hscript⟩ := exists_parsed content
  have hmarks := Script.generate_marks (parse_tokenize_from hparse).1 hscript
  refine ⟨p, errors, script, hparse, hscript, fun mark => ?_, hmarks, ?_⟩
  · rw [Script.countP_lines, hmarks, Forest.count_marks]
  · rw [hmarks, ← List.append_nil p.shapes.marks, Forest.balancedFrom_marks]
    rfl

end Storyboard
