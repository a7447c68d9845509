/-
  Storyboard.Proofs.Script.Literals

  The literals of a program in its script.

  Each step of writing adds lines that hold an end of a script element just if one of
  the literals does that it writes (`Brings`); all else is made of fixed text, names,
  numbers and operators, in which there is none. So a script holds such a tag just if a
  string or a colour of its program does (`generate_holdsEnd`).
-/
import Storyboard.Proofs.Script.EndTag
import Storyboard.Proofs.Script.StmtLayout

namespace Storyboard

-- ============================================================================
-- Literals of a tree
-- ============================================================================

mutual

/-- The values of the strings and colours in an expression. -/
def Expr.literals : Expr → List String
  | .string value _ | .color value _ => [value]
  | .identifier _ | .number .. | .foreign _ => []
  | .binary _ left right _ => left.literals ++ right.literals
  | .call callee arguments _ => callee.literals ++ Expr.allLiterals arguments
  | .circle ⟨x, y⟩ size fill _ => x.literals ++ y.literals ++ size.literals ++ fill.literals
  | .rect ⟨x, y⟩ width height fill _ =>
    x.literals ++ y.literals ++ width.literals ++ height.literals ++ fill.literals
  | .line ⟨x₁, y₁⟩ ⟨x₂, y₂⟩ fill _ =>
    x₁.literals ++ y₁.literals ++ x₂.literals ++ y₂.literals ++ fill.literals
  | .triangle corners fill _ => Expr.pointLiterals corners ++ fill.literals
termination_by structural e => e

/-- The literals of several expressions. -/
def Expr.allLiterals : List Expr → List String
  | [] => []
  | e :: others => e.literals ++ Expr.allLiterals others
termination_by structural es => es

/-- The literals of several points. -/
def Expr.pointLiterals : List (Point Expr) → List String
  | [] => []
  | ⟨x, y⟩ :: others => x.literals ++ y.literals ++ Expr.pointLiterals others
termination_by structural points => points

end

/-- The literals of a command. -/
def Command.literals : Command → List String
  | .move amount _ _ => amount.literals
  | .rotate angle _ => angle.literals
  | .scale factor _ => factor.literals
  | .fade amount _ => amount.literals
  | .foreign _ => []

mutual

/-- The literals of a statement. -/
def Stmt.literals : Stmt → List String
  | .binding _ value _ => value.literals
  | .function _ _ body _ => Stmt.bodyLiterals body
  | .giveBack none _ => []
  | .giveBack (some value) _ => value.literals
  | .branch condition thenBody none _ => condition.literals ++ Stmt.bodyLiterals thenBody
  | .branch condition thenBody (some elseBody) _ =>
    condition.literals ++ Stmt.bodyLiterals thenBody ++ Stmt.bodyLiterals elseBody
  | .loop times body _ => times.literals ++ Stmt.bodyLiterals body
  | .animation commands _ => commands.flatMap Command.literals
  | .scene _ body _ => Stmt.bodyLiterals body
  | .expression value _ => value.literals
  | .foreign _ => []
termination_by structural stmt => stmt

/-- The literals of several statements. -/
def Stmt.bodyLiterals : List Stmt → List String
  | [] => []
  | stmt :: others => stmt.literals ++ Stmt.bodyLiterals others
termination_by structural body => body

end

/-- The literals of a program. -/
def Program.literals (p : Program) : List String := Stmt.bodyLiterals p.body

namespace Script

/-- Whether one of several values holds a tag. -/
def AnyEnd (values : List String) : Prop := ∃ value ∈ values, holdsEnd value.toList = true

@[simp] theorem anyEnd_nil : AnyEnd [] ↔ False := by simp [AnyEnd]

@[simp] theorem anyEnd_singleton (value : String) :
    AnyEnd [value] ↔ holdsEnd value.toList = true := by simp [AnyEnd]

@[simp] theorem anyEnd_append (values others : List String) :
    AnyEnd (values ++ others) ↔ AnyEnd values ∨ AnyEnd others := by
  simp only [AnyEnd, List.mem_append, or_and_right, exists_or]

-- ============================================================================
-- Expressions
-- ============================================================================

variable {P Q : Prop} {indent : Int}

theorem Carries.margin (indent : Int) : Carries False (margin indent) := by
  have hcopies : ∀ n, Carries False (Text.copies n "  ") := by
    intro n
    unfold Text.copies
    induction n with
    | zero => exact .of_chars rfl
    | succ n ih =>
      rw [List.replicate_succ, concat_cons]
      exact Carries.after (.of_chars rfl) ih
  exact hcopies _

/-- The lines of a function that is called on the spot. -/
def CarriedBy (P : Prop) (indent : Int) (lines : List String) : Prop :=
  Carries P ("".intercalate (lines.map fun line => Script.margin indent ++ line ++ "\n"))

namespace CarriedBy

theorem nil : CarriedBy False indent [] := .of_chars rfl

theorem cons {line : String} {lines : List String} (h : Carries P line)
    (h' : CarriedBy Q indent lines) : CarriedBy (P ∨ Q) indent (line :: lines) := by
  rw [CarriedBy, List.map_cons, concat_cons]
  exact ((Carries.margin indent).after h |>.before (.of_chars rfl)).append h'

/-- A line that is the same in every script. -/
theorem fixed {cs : List Char} {lines : List String} (h : cs.all (· ≠ '<') = true)
    (h' : CarriedBy P indent lines) : CarriedBy P indent (String.ofList cs :: lines) :=
  (cons (.of_chars h) h').congr (by simp)

theorem append {lines others : List String} (h : CarriedBy P indent lines)
    (h' : CarriedBy Q indent others) : CarriedBy (P ∨ Q) indent (lines ++ others) := by
  rw [CarriedBy, List.map_append, concat_append]
  exact Carries.append h h'

end CarriedBy

theorem carries_calledOnce {lines : List String} (h : CarriedBy P (indent + 1) lines) :
    Carries P (calledOnce indent lines) := by
  have hopen : Carries False "(function() \x7b\n" := .of_chars rfl
  have hclose : Carries False "\x7d)()" := .of_chars rfl
  exact ((hopen.after h).before (.margin indent)).before hclose

theorem carries_constant {name value : String} (hname : Temporary name) (hvalue : Carries P value) :
    Carries P (constant name value) := by
  have hhead : Carries False "const " := .of_chars rfl
  have hequals : Carries False " = " := .of_chars rfl
  have hend : Carries False ";" := .of_chars rfl
  exact (((hhead.before (.of_solid hname.solid)).before hequals).after hvalue).before hend

/-- The lines that draw a figure hold no tag. -/
theorem carriedBy_strokes (figure : Figure) {lines : List String} (h : CarriedBy P indent lines) :
    CarriedBy P indent (figure.strokes ++ lines) := by
  cases figure with
  | circle => exact .fixed rfl (.fixed rfl (.fixed rfl (.fixed rfl (.fixed rfl h))))
  | rect => exact .fixed rfl (.fixed rfl (.fixed rfl h))
  | line => exact .fixed rfl (.fixed rfl (.fixed rfl (.fixed rfl (.fixed rfl (.fixed rfl h)))))
  | triangle =>
    exact .fixed rfl (.fixed rfl (.fixed rfl (.fixed rfl (.fixed rfl (.fixed rfl
      (.fixed rfl (.fixed rfl h)))))))

/-- Constants hold a tag just if one of their values does. -/
theorem carriedBy_constants {names : List String} {values : List Expr} {texts : List String}
    (hlength : names.length = values.length) (hnames : ∀ name ∈ names, Temporary name)
    (h : ∀ e ∈ values, ∀ {text}, e.script indent = .ok text → Carries (AnyEnd e.literals) text)
    (htexts : Expr.scripts indent values = .ok texts) :
    CarriedBy (AnyEnd (Expr.allLiterals values)) indent (List.zipWith constant names texts) := by
  induction values generalizing names texts with
  | nil =>
    obtain rfl := List.length_eq_zero_iff.mp hlength
    exact CarriedBy.nil.congr anyEnd_nil.symm
  | cons e values ih =>
    obtain ⟨name, names, rfl⟩ := List.exists_cons_of_length_eq_add_one hlength
    obtain ⟨text, others, htext, hothers, rfl⟩ := Expr.scripts_cons_eq_ok htexts
    obtain ⟨hname, hnames⟩ := List.forall_mem_cons.mp hnames
    obtain ⟨he, hvalues⟩ := List.forall_mem_cons.mp h
    have hrest := ih (Nat.succ.inj hlength) hnames hvalues hothers
    rw [List.zipWith_cons_cons]
    exact (CarriedBy.cons (carries_constant hname (he htext)) hrest).congr (anyEnd_append _ _).symm

/-- So do the lines of a figure. -/
theorem carriedBy_lines {figure : Figure} {values : List Expr} {texts : List String}
    (hlength : figure.names.length = values.length)
    (h : ∀ e ∈ values, ∀ {text}, e.script indent = .ok text → Carries (AnyEnd e.literals) text)
    (htexts : Expr.scripts indent values = .ok texts) :
    CarriedBy (AnyEnd (Expr.allLiterals values)) indent (figure.lines texts) := by
  have hconstants := carriedBy_constants hlength (temporary_names figure) h htexts
  have hend : CarriedBy False indent (figure.strokes ++ ["ctx.restore();"]) :=
    carriedBy_strokes figure (.fixed rfl .nil)
  exact .fixed rfl ((hconstants.append hend).congr (by simp))

/-- The literals of a shape are those of the values of its constants. -/
theorem literals_of_figure? {e : Expr} {figure : Figure} {values : List Expr}
    (h : e.figure? = some (figure, values)) : e.literals = Expr.allLiterals values := by
  unfold Expr.figure? at h
  split at h
  all_goals cases h
  all_goals simp [Expr.literals, Expr.allLiterals, Expr.pointLiterals]

/-- Texts between commas. -/
theorem scripts_carry {es : List Expr} {texts : List String}
    (h : ∀ e ∈ es, ∀ {text}, e.script indent = .ok text → Carries (AnyEnd e.literals) text)
    (hes : Expr.scripts indent es = .ok texts) :
    Carries (AnyEnd (Expr.allLiterals es)) (", ".intercalate texts) := by
  have hcomma : Carries False ", " := .of_chars rfl
  induction es generalizing texts with
  | nil =>
    cases hes
    exact (Carries.of_chars rfl).congr anyEnd_nil.symm
  | cons e es ih =>
    obtain ⟨he, hothers⟩ := List.forall_mem_cons.mp h
    obtain ⟨text, others, htext, hscripts, rfl⟩ := Expr.scripts_cons_eq_ok hes
    have hrest := ih hothers hscripts
    rw [Expr.allLiterals]
    cases others with
    | nil =>
      -- Nothing is written for the rest, so none of its literals holds a tag.
      have hnone : ¬AnyEnd (Expr.allLiterals es) := by
        rw [← hrest.holds]
        decide
      rw [String.intercalate_singleton]
      refine (he htext).congr ?_
      rw [anyEnd_append, or_iff_left hnone]
    | cons second others =>
      rw [String.intercalate_cons_cons]
      exact (((he htext).before hcomma).append hrest).congr (anyEnd_append _ _).symm

/-- The text of an expression holds a tag just if one of its literals does. -/
theorem script_carries {content : String} {e : Expr} (h : e.From (InText content)) {text : String}
    (htext : e.script indent = .ok text) : Carries (AnyEnd e.literals) text := by
  induction h using Expr.From.shapewise generalizing indent text with
  | identifier id hid =>
    cases htext
    exact (Carries.of_solid (solid_userName hid)).congr anyEnd_nil.symm
  | number token value =>
    cases htext
    exact (Carries.of_solid (solid_inScript value)).congr anyEnd_nil.symm
  | string value place =>
    cases htext
    exact (Carries.literal value).congr (anyEnd_singleton value).symm
  | color value place =>
    cases htext
    exact (Carries.literal value).congr (anyEnd_singleton value).symm
  | binary token left right htoken hkind _ _ hleft hright =>
    obtain ⟨l, r, hl, hr, rfl⟩ := Expr.script_binary_eq_ok htext
    have hopen : Carries False "(" := .of_chars rfl
    have hblank : Carries False " " := .of_chars rfl
    have hclose : Carries False ")" := .of_chars rfl
    -- The operator is carried together with the blank behind it.
    have htext := (((((hopen.after (hleft hl)).before hblank).before
      (.operator htoken hkind)).append (hright hr)).before hclose)
    simp only [String.append_assoc] at htext ⊢
    exact htext.congr (anyEnd_append _ _).symm
  | call callee arguments _ _ hcallee harguments =>
    obtain ⟨f, values, hf, hvalues, rfl⟩ := Expr.script_call_eq_ok htext
    have hlist := scripts_carry (fun e he => harguments e he) hvalues
    have hopen : Carries False "(" := .of_chars rfl
    have hclose : Carries False ")" := .of_chars rfl
    exact ((((hcallee hf).before hopen).append hlist).before hclose).congr (anyEnd_append _ _).symm
  | shape e figure values _ hfigure _ hvalues =>
    obtain ⟨texts, htexts, rfl⟩ := Expr.script_shape hfigure htext
    rw [literals_of_figure? hfigure]
    exact carries_calledOnce (carriedBy_lines (Expr.length_names_of_figure? hfigure)
      (fun e he => hvalues e he) htexts)

-- ============================================================================
-- Statements
-- ============================================================================

/-- A step of writing that adds lines which hold a tag just if `P`, with a good result. -/
def Brings {α : Type} (P : Prop) (w : Writer α) (good : α → Prop) : Prop :=
  ∀ (d : Draft) (a : α) (e : Draft), w d = .ok a e →
    good a ∧ ∃ new, e.lines = d.lines ++ new ∧ Carries P (closed new)

namespace Brings

variable {α β : Type}

theorem congr {w : Writer α} {good : α → Prop} (h : Brings P w good) (hiff : P ↔ Q) :
    Brings Q w good := by
  intro d a e hrun
  obtain ⟨ha, new, hnew, hcarries⟩ := h d a e hrun
  exact ⟨ha, new, hnew, hcarries.congr hiff⟩

/-- A step that adds no line. -/
theorem quiet {w : Writer α} {good : α → Prop}
    (h : ∀ (d : Draft) (a : α) (e : Draft), w d = .ok a e → good a ∧ e.lines = d.lines) :
    Brings False w good := by
  intro d a e hrun
  obtain ⟨ha, hlines⟩ := h d a e hrun
  exact ⟨ha, [], by rw [hlines, List.append_nil], .of_chars rfl⟩

theorem pure {a : α} {good : α → Prop} (h : good a) : Brings False (Pure.pure a) good := by
  refine quiet ?_
  rintro d _ _ ⟨⟩
  exact ⟨h, rfl⟩

theorem bind {w : Writer α} {f : α → Writer β} {good : α → Prop} {next : β → Prop}
    (hw : Brings P w good) (hf : ∀ a, good a → Brings Q (f a) next) :
    Brings (P ∨ Q) (w >>= f) next := by
  intro d b e hrun
  change EStateM.bind w f d = _ at hrun
  unfold EStateM.bind at hrun
  split at hrun
  · rename_i a d' hfirst
    obtain ⟨ha, new, hnew, hcarries⟩ := hw d a d' hfirst
    obtain ⟨hb, new', hnew', hcarries'⟩ := hf a ha d' b e hrun
    refine ⟨hb, new ++ new', by rw [hnew', hnew, List.append_assoc], ?_⟩
    rw [closed_append]
    exact hcarries.append hcarries'
  · cases hrun

/-- A step before which, or behind which, no tag is written. -/
theorem after {w : Writer α} {f : α → Writer β} {good : α → Prop} {next : β → Prop}
    (hw : Brings False w good) (hf : ∀ a, good a → Brings P (f a) next) :
    Brings P (w >>= f) next := (hw.bind hf).congr (by simp)

theorem before {w : Writer α} {f : α → Writer β} {good : α → Prop} {next : β → Prop}
    (hw : Brings P w good) (hf : ∀ a, good a → Brings False (f a) next) :
    Brings P (w >>= f) next := (hw.bind hf).congr (by simp)

theorem emit {code : String} (h : Carries P code) :
    Brings P (Script.emit code) fun _ => True := by
  rintro d _ _ ⟨⟩
  refine ⟨trivial, [Script.margin d.indent ++ code], rfl, ?_⟩
  rw [closed, List.map_singleton, String.intercalate_singleton]
  exact ((Carries.margin d.indent).after h).before (.of_chars rfl)

/-- A line that is the same in every script. -/
theorem fixed {cs : List Char} (h : cs.all (· ≠ '<') = true) :
    Brings False (Script.emit (String.ofList cs)) fun _ => True := emit (.of_chars h)

theorem deeper {inner : Writer α} {good : α → Prop} (h : Brings P inner good) :
    Brings P (Script.deeper inner) good := by
  intro d a e hrun
  unfold Script.deeper at hrun
  split at hrun
  · rename_i a' d' hinner
    cases hrun
    obtain ⟨ha, new, hnew, hcarries⟩ := h _ _ _ hinner
    exact ⟨ha, new, hnew, hcarries⟩
  · cases hrun

theorem looped {inner : Writer Unit} (h : Brings P inner fun _ => True) :
    Brings P (Script.looped inner) fun _ => True := by
  have hmodify : ∀ f : Draft → Draft, (∀ d, (f d).lines = d.lines) →
      Brings False (modify f : Writer Unit) fun _ => True := by
    intro f hlines
    refine quiet ?_
    rintro d _ _ ⟨⟩
    exact ⟨trivial, hlines d⟩
  refine (hmodify _ ?_).after fun _ _ => h.before fun _ _ => hmodify _ ?_
  all_goals exact fun _ => rfl

/-- The name of a routine is a word if its base is one. -/
theorem routine {base : String} (h : Solid base) : Brings False (Script.routine base) Solid := by
  refine quiet ?_
  rintro d _ _ ⟨⟩
  exact ⟨solid_freshName h d.routines, rfl⟩

theorem expression {content : String} {e : Expr} (h : e.From (InText content)) :
    Brings False (Script.expression e) (Carries (AnyEnd e.literals)) := by
  refine quiet ?_
  intro d text d' hrun
  unfold Script.expression at hrun
  split at hrun
  · rename_i text' htext
    cases hrun
    exact ⟨script_carries h htext, rfl⟩
  · cases hrun

end Brings

theorem command_brings {content : String} {c : Command} (h : c.From (InText content)) :
    Brings False (command c) (Carries (AnyEnd c.literals)) := by
  have hend : Carries False ";" := .of_chars rfl
  cases h with
  | @move amount direction place _ hamount =>
    refine (Brings.expression hamount).before fun text htext => .pure ?_
    have hhead : Carries False "animationState." := .of_chars rfl
    have hblank : Carries False " " := .of_chars rfl
    -- The four directions differ in the target of the assignment only.
    have hmove : ∀ {target : String}, Carries False target →
        Carries (AnyEnd amount.literals) ("animationState." ++ target ++ " " ++ text ++ ";") :=
      fun htarget => (((hhead.before htarget).before hblank).after htext).before hend
    cases direction <;> exact hmove (.of_chars rfl)
  | rotate _ hangle =>
    refine (Brings.expression hangle).before fun text htext => .pure ?_
    have hhead : Carries False "animationState.rotation += " := .of_chars rfl
    exact (hhead.after htext).before hend
  | scale _ hfactor =>
    refine (Brings.expression hfactor).before fun text htext => .pure ?_
    have hhead : Carries False "animationState.scale *= " := .of_chars rfl
    exact (hhead.after htext).before hend
  | fade _ hamount =>
    refine (Brings.expression hamount).before fun text htext => .pure ?_
    have hhead : Carries False "animationState.opacity -= " := .of_chars rfl
    exact (hhead.after htext).before hend

theorem commands_bring {content : String} {cs : List Command}
    (h : ∀ c ∈ cs, c.From (InText content)) :
    Brings (AnyEnd (cs.flatMap Command.literals)) (commands cs) fun _ => True := by
  induction cs with
  | nil => exact (Brings.pure trivial).congr anyEnd_nil.symm
  | cons c cs ih =>
    obtain ⟨hc, hcs⟩ := List.forall_mem_cons.mp h
    have hall := (command_brings hc).after fun text htext =>
      (Brings.emit htext).bind fun _ _ => ih hcs
    refine hall.congr ?_
    rw [List.flatMap_cons, anyEnd_append]

/-- Statements that bring the tags of their literals bring them together. -/
theorem each_brings {body : List Stmt}
    (h : ∀ stmt ∈ body, Brings (AnyEnd stmt.literals) (statement stmt) fun _ => True) :
    Brings (AnyEnd (Stmt.bodyLiterals body)) (each body) fun _ => True := by
  induction body with
  | nil => exact (Brings.pure trivial).congr anyEnd_nil.symm
  | cons stmt body ih =>
    obtain ⟨hstmt, hbody⟩ := List.forall_mem_cons.mp h
    exact (hstmt.bind fun _ _ => ih hbody).congr (anyEnd_append _ _).symm

/-- A routine: the line that opens it, its body, the line that closes it, and the call. -/
theorem routine_brings {name : String} {body : Writer Unit} (hname : Solid name)
    (h : Brings P body fun _ => True) :
    Brings P (do
      emit ("function " ++ name ++ "() \x7b")
      deeper body
      emit "\x7d"
      emit (name ++ "();")) fun _ => True := by
  have hhead : Carries False "function " := .of_chars rfl
  have hopen : Carries False ("function " ++ name ++ "() \x7b") :=
    (hhead.before (.of_solid hname)).before (.of_chars rfl)
  have hcall : Carries False (name ++ "();") := (Carries.of_solid hname).before (.of_chars rfl)
  exact (Brings.emit hopen).after fun _ _ => h.deeper.before fun _ _ =>
    (Brings.fixed rfl).before fun _ _ => .emit hcall

/-- The line that opens a branch. -/
theorem branch_brings {text : String} (h : Carries P text) (condition : Expr) :
    Brings P (emit ("if " ++ (if hasParens condition then text else "(" ++ text ++ ")") ++ " \x7b"))
      fun _ => True := by
  have hhead : Carries False "if " := .of_chars rfl
  have hopen : Carries False "(" := .of_chars rfl
  have hcondition : Carries P (if hasParens condition then text else "(" ++ text ++ ")") := by
    split
    · exact h
    · exact (hopen.after h).before (.of_chars rfl)
  exact .emit ((hhead.after hcondition).before (.of_chars rfl))

/-- The line that opens a loop. -/
theorem loop_brings {text : String} (h : Carries P text) (depth : Int) :
    Brings P (emit ("for (let " ++ s!"__i{depth}" ++ " = 0, " ++ s!"__n{depth}" ++ " = " ++ text ++
      "; " ++ s!"__i{depth}" ++ " < " ++ s!"__n{depth}" ++ "; " ++ s!"__i{depth}" ++ "++) \x7b"))
      fun _ => True := by
  have hname : ∀ {head : String}, head ∈ ["__i", "__n"] →
      Carries False (head ++ toString depth) :=
    fun hhead => .of_solid (Temporary.counter depth hhead).solid
  have hcounter : Carries False s!"__i{depth}" := hname List.mem_cons_self
  have hbound : Carries False s!"__n{depth}" := hname (List.mem_cons_of_mem _ List.mem_cons_self)
  have hopen : Carries False "for (let " := .of_chars rfl
  have hzero : Carries False " = 0, " := .of_chars rfl
  have hequals : Carries False " = " := .of_chars rfl
  have hnext : Carries False "; " := .of_chars rfl
  have hless : Carries False " < " := by
    refine ⟨.concat (by decide) [' ', '<'], ?_⟩
    decide
  have hinitial := ((((hopen.before hcounter).before hzero).before hbound).before hequals).after h
  have hcompared := (((hinitial.before hnext).before hcounter).before hless).before hbound
  exact .emit (((hcompared.before hnext).before hcounter).before (.of_chars rfl))

/-- What is written for a statement of a text holds a tag just if one of its literals does. -/
theorem statement_brings {content : String} {stmt : Stmt} (h : stmt.From (InText content)) :
    Brings (AnyEnd stmt.literals) (statement stmt) fun _ => True := by
  have hend : Carries False ";" := .of_chars rfl
  have hbrace : Brings False (emit "\x7d") fun _ => True := .fixed rfl
  -- Fixed text holds no tag, nor do names; so in each case what is left are the literals of the
  -- expressions and of the bodies, in their order.
  induction h with
  | @binding name value place _ hname hvalue =>
    refine (Brings.expression hvalue).after fun text htext => .emit ?_
    have hhead : Carries False "var " := .of_chars rfl
    have hequals : Carries False " = " := .of_chars rfl
    exact (((hhead.before (.of_solid (solid_userName hname))).before hequals).after htext).before
      hend
  | function _ hname hparameters _ hbody =>
    have hhead : Carries False "function " := .of_chars rfl
    have hopen : Carries False "(" := .of_chars rfl
    have hclose : Carries False ") \x7b" := .of_chars rfl
    have hnames := Carries.intercalate (.of_chars rfl : Carries False ", ")
      (List.forall_mem_map.mpr fun id hid => .of_solid (solid_userName (hparameters id hid)))
    have hline := (((hhead.before (.of_solid (solid_userName hname))).before hopen).before
      hnames).before hclose
    exact (Brings.emit hline).after fun _ _ => (each_brings hbody).deeper.before fun _ _ =>
      hbrace
  | @giveBack value place _ hvalue =>
    cases value with
    | none => exact (Brings.fixed rfl).congr anyEnd_nil.symm
    | some value =>
      refine (Brings.expression (hvalue value rfl)).after fun text htext => .emit ?_
      have hhead : Carries False "return " := .of_chars rfl
      exact (hhead.after htext).before hend
  | @plain condition thenBody place _ hcondition _ hthen =>
    have hall := (Brings.expression hcondition).after fun text htext =>
      (branch_brings htext condition).bind fun _ _ =>
        (each_brings hthen).deeper.before fun _ _ => hbrace
    exact hall.congr (anyEnd_append _ _).symm
  | @otherwise condition thenBody elseBody place _ hcondition _ _ hthen helse =>
    -- Behind the condition there are two bodies with a fixed line between them.
    have hturn : Brings False (emit "\x7d else \x7b") fun _ => True := .fixed rfl
    have hall := (Brings.expression hcondition).after fun text htext =>
      (branch_brings htext condition).bind fun _ _ => (each_brings hthen).deeper.bind fun _ _ =>
        hturn.after fun _ _ => (each_brings helse).deeper.before fun _ _ => hbrace
    refine hall.congr ?_
    simp only [Stmt.literals, anyEnd_append, or_assoc]
  | loop _ htimes _ hbody =>
    -- The counters are numbered, and numbers hold no tag.
    have hget : Brings False (get : Writer Draft) fun _ => True := by
      refine .quiet ?_
      rintro d _ _ ⟨⟩
      exact ⟨trivial, rfl⟩
    have hall := hget.after fun d _ => (Brings.expression htimes).after fun text htext =>
      (loop_brings htext d.loops).bind fun _ _ =>
        (each_brings hbody).deeper.looped.before fun _ _ => hbrace
    exact hall.congr (anyEnd_append _ _).symm
  | animation _ hcommands =>
    have hframe : ∀ {name : String}, Solid name →
        Carries False ("requestAnimationFrame(" ++ name ++ ");") := fun hname =>
      Carries.before (.before (.of_chars rfl) (.of_solid hname)) (.of_chars rfl)
    exact (Brings.routine (.of_chars rfl)).after fun name hname =>
      (Brings.fixed rfl).after fun _ _ => routine_brings hname <|
        (Brings.fixed rfl).after fun _ _ => (commands_bring hcommands).before fun _ _ =>
          .emit (hframe hname)
  | @scene title body place _ htitle _ hbody =>
    have hname : IsName title.name.toList := by
      obtain ⟨token, htoken, hkind, rfl⟩ := htitle
      exact (isName_of_mem_tokenize htoken.1 hkind).1
    have hbase : Solid ("scene_" ++ title.name) := .of_append (forall_isSolid rfl) (.ofName hname)
    -- The title is a name, so not even the comment can hold a tag.
    have hcomment : Carries False ("// Scene: " ++ title.name) :=
      Carries.before (.of_chars rfl) (.of_solid (.ofName hname))
    exact (Brings.routine hbase).after fun name hname =>
      (Brings.emit hcomment).after fun _ _ => routine_brings hname (each_brings hbody)
  | expression hvalue =>
    exact (Brings.expression hvalue).after fun text htext => .emit (htext.before hend)

-- ============================================================================
-- Programs
-- ============================================================================

theorem mainFunction_brings {body : List Stmt}
    (h : ∀ stmt ∈ body, Brings (AnyEnd stmt.literals) (statement stmt) fun _ => True) :
    Brings (AnyEnd (Stmt.bodyLiterals body)) (mainFunction body) fun _ => True :=
  (Brings.fixed rfl).after fun _ _ => (Brings.fixed rfl).after fun _ _ =>
    (each_brings h).deeper.before fun _ _ => .fixed rfl

theorem carries_preamble : Carries False preamble := by
  have hhead : Carries False "const canvas = document.getElementById(\"" := .of_chars rfl
  have hid : Carries False canvasId := .of_chars rfl
  have hcanvas := (hhead.before hid).before (.of_chars rfl : Carries False "\");")
  refine .intercalate (.of_chars rfl) ?_
  simp only [List.forall_mem_cons, List.not_mem_nil, false_imp_iff, implies_true, and_true]
  refine ⟨?_, hcanvas, ?_⟩
  · exact .of_chars rfl
  · and_intros
    all_goals exact .of_chars rfl

/-- The text of a draft holds the tags of its lines. -/
theorem Draft.holdsEnd_text (d : Draft) :
    holdsEnd d.text.toList = holdsEnd (closed d.lines).toList := by
  by_cases hlines : d.lines = [""]
  · rw [Draft.text, hlines]
    decide
  · rw [Draft.text_eq_closed hlines]

end Script

open Script

/-- The script of a text's program holds a tag just if one of the program's literals does. -/
theorem generate_holdsEnd {content : String} {p : Program} {script : String}
    (h : generate p = .ok script) (hbody : ∀ stmt ∈ p.body, stmt.From (InText content)) :
    holdsEnd script.toList = true ↔ AnyEnd p.literals := by
  have hpreamble := carries_preamble
  rcases generate_cases h with ⟨hempty, rfl⟩ | ⟨d, hmain, rfl⟩
  · rw [hpreamble.holds, Program.literals, hempty]
    exact anyEnd_nil.symm
  · obtain ⟨-, new, hnew, hcarries⟩ :=
      mainFunction_brings (fun stmt hstmt => statement_brings (hbody stmt hstmt)) _ _ _ hmain
    have hlines : d.lines = new := hnew
    rw [String.toList_append, hpreamble.sealed, Draft.holdsEnd_text, hlines, Bool.or_eq_true,
      hpreamble.holds, hcarries.holds, false_or, Program.literals]

end Storyboard
