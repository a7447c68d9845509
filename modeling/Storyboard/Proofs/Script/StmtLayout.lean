/-
  Storyboard.Proofs.Script.StmtLayout

  Scripts are well bracketed, and their margins show how they nest.

  `Lays k` says of a step of writing at indentation `k` which brackets are open before
  and behind the lines that it adds. A block is opened by one line, written one level
  deeper, and closed by another, so a statement leaves the brackets as they are
  (`laid_of_from`). What a script adds to its preamble can then be walked through from
  its first line to its last.
-/
import Storyboard.Proofs.Script.ExprLayout
import Storyboard.Proofs.Script.Native
import Storyboard.Proofs.Token.Numbers

namespace Storyboard

namespace Script

variable {k : Nat} {opened opened' : List Char}

-- ============================================================================
-- Steps of writing
-- ============================================================================

/-- The text of lines, each closed by a newline. -/
def closed (lines : List String) : String := "".intercalate (lines.map fun line => line ++ "\n")

theorem closed_cons (line : String) (lines : List String) :
    closed (line :: lines) = line ++ "\n" ++ closed lines := by
  rw [closed, List.map_cons, concat_cons, closed]

theorem closed_append (lines more : List String) :
    closed (lines ++ more) = closed lines ++ closed more := by
  rw [closed, List.map_append, concat_append, closed, closed]

/-- A name that is made up from a word is a word. -/
theorem solid_freshName {base : String} (h : Solid base) (taken : List String) :
    Solid (freshName taken base) := by
  obtain ⟨n, hn⟩ := exists_candidate taken base
  rw [hn]
  cases n with
  | zero => exact h
  | succ n => exact (h.append (forall_isSolid rfl)).append (solid_toString (n + 2)).chars

/-- A step of writing at indentation `k` that adds lines between which the open brackets go from
    `opened` to `opened'`, with a good result. -/
def Lays {α : Type} (k : Nat) (opened : List Char) (w : Writer α) (opened' : List Char)
    (good : α → Prop) : Prop :=
  ∀ (d : Draft) (a : α) (e : Draft), d.indent = k → w d = .ok a e → e.indent = k ∧ good a ∧
    ∃ new, e.lines = d.lines ++ new ∧
      Passes ⟨.margin 0, opened⟩ (closed new) ⟨.margin 0, opened'⟩

namespace Lays

variable {α β : Type} {opened'' : List Char}

/-- A step that adds no line. -/
theorem quiet {w : Writer α} {good : α → Prop}
    (h : ∀ (d : Draft) (a : α) (e : Draft), d.indent = k → w d = .ok a e →
      e.indent = k ∧ e.lines = d.lines ∧ good a) :
    Lays k opened w opened good := by
  intro d a e hd hrun
  obtain ⟨he, hlines, ha⟩ := h d a e hd hrun
  exact ⟨he, ha, [], by rw [hlines, List.append_nil], rfl⟩

theorem pure {a : α} {good : α → Prop} (h : good a) :
    Lays k opened (Pure.pure a) opened good := by
  refine quiet ?_
  rintro d _ _ hd ⟨⟩
  exact ⟨hd, rfl, h⟩

theorem bind {w : Writer α} {f : α → Writer β} {good : α → Prop} {next : β → Prop}
    (hw : Lays k opened w opened' good)
    (hf : ∀ a, good a → Lays k opened' (f a) opened'' next) :
    Lays k opened (w >>= f) opened'' next := by
  intro d b e hd hrun
  change EStateM.bind w f d = _ at hrun
  unfold EStateM.bind at hrun
  split at hrun
  · rename_i a d' hfirst
    obtain ⟨hd', ha, new, hnew, hpass⟩ := hw d a d' hd hfirst
    obtain ⟨he, hb, new', hnew', hpass'⟩ := hf a ha d' b e hd' hrun
    refine ⟨he, hb, new ++ new', by rw [hnew', hnew, List.append_assoc], ?_⟩
    rw [closed_append]
    exact hpass.append hpass'
  · cases hrun

/-- Writing a line. -/
theorem emit {code : String}
    (h : Passes ⟨.margin 0, opened⟩ (margin k ++ code ++ "\n") ⟨.margin 0, opened'⟩) :
    Lays k opened (Script.emit code) opened' fun _ => True := by
  rintro d _ _ hd ⟨⟩
  refine ⟨hd, trivial, [margin d.indent ++ code], rfl, ?_⟩
  rw [hd, closed, List.map_singleton, String.intercalate_singleton]
  exact h

/-- Writing one level deeper. -/
theorem deeper {inner : Writer α} {good : α → Prop}
    (h : Lays (k + 1) opened inner opened' good) :
    Lays k opened (Script.deeper inner) opened' good := by
  intro d a e hd hrun
  unfold Script.deeper at hrun
  split at hrun
  · rename_i a' d' hinner
    cases hrun
    have hindent : (d.indent + 1 : Int) = (k + 1 : Nat) := by
      rw [hd]
      rfl
    obtain ⟨hd', ha, new, hnew, hpass⟩ := h _ _ _ hindent hinner
    refine ⟨?_, ha, new, hnew, hpass⟩
    change d'.indent - 1 = k
    omega
  · cases hrun

theorem looped {inner : Writer Unit} (h : Lays k opened inner opened' fun _ => True) :
    Lays k opened (Script.looped inner) opened' fun _ => True := by
  have hmodify : ∀ opened (f : Draft → Draft), (∀ d, (f d).indent = d.indent) →
      (∀ d, (f d).lines = d.lines) → Lays k opened (modify f : Writer Unit) opened fun _ => True := by
    intro opened f hindent hlines
    refine quiet ?_
    rintro d _ _ hd ⟨⟩
    exact ⟨by rw [hindent, hd], hlines d, trivial⟩
  refine bind (hmodify opened _ ?_ ?_) fun _ _ => h.bind fun _ _ => hmodify opened' _ ?_ ?_
  all_goals exact fun _ => rfl

/-- The name of a routine is a word if its base is one. -/
theorem routine {base : String} (h : Solid base) :
    Lays k opened (Script.routine base) opened Solid := by
  refine quiet ?_
  rintro d _ _ hd ⟨⟩
  exact ⟨hd, rfl, solid_freshName h d.routines⟩

theorem expression {content : String} {e : Expr} (h : e.From (InText content)) :
    Lays k opened (Script.expression e) opened (Written k) := by
  refine quiet ?_
  intro d text d' hd hrun
  unfold Script.expression at hrun
  split at hrun
  · rename_i text' htext
    cases hrun
    rw [hd] at htext
    exact ⟨hd, rfl, script_written h htext⟩
  · cases hrun

/-- A line that begins with the end of a block, at the indentation outside of it. -/
theorem endBrace {text : String} {rest : List Char} (htext : text.toList = '\x7d' :: rest)
    (h : Passes ⟨.code, '\x7b' :: opened⟩ text ⟨.code, opened'⟩) (hk : opened.count '\x7b' = k) :
    Lays k ('\x7b' :: opened) (Script.emit text) opened' fun _ => True := by
  refine emit (h.line ⟨'\x7d', rest, htext, rfl, by decide, ?_⟩)
  rw [List.count_cons_self, hk, if_pos rfl]

/-- A line that closes a block. -/
theorem closeBrace (hk : opened.count '\x7b' = k) :
    Lays k ('\x7b' :: opened) (Script.emit "\x7d") opened fun _ => True :=
  endBrace rfl (.of_chars rfl) hk

/-- A line that opens a block. -/
theorem openBrace {head : String}
    (h : Passes ⟨.code, opened⟩ head ⟨.code, '\x7b' :: opened⟩) (hstarts : Starts head)
    (hk : opened.count '\x7b' = k) :
    Lays k opened (Script.emit head) ('\x7b' :: opened) fun _ => True :=
  emit (h.line (hstarts.begins hk))

/-- A line that leaves the brackets as they are. -/
theorem written {text : String} (h : Written k text) (hk : opened.count '\x7b' = k) :
    Lays k opened (Script.emit text) opened fun _ => True := emit (h.line hk)

end Lays

-- ============================================================================
-- Statements
-- ============================================================================

theorem command_lays {content : String} {c : Command} (h : c.From (InText content)) :
    Lays k opened (command c) opened (Written k) := by
  have hend : Inline k ";" := fun _ _ => .of_chars rfl
  cases h with
  | @move amount direction place _ hamount =>
    refine (Lays.expression hamount).bind fun text htext => .pure ?_
    have hhead : Written k "animationState." := .of_chars (fun _ => rfl) rfl
    have hblank : Inline k " " := fun _ _ => .of_chars rfl
    -- The four directions differ in the target of the assignment only.
    have hmove : ∀ {target : String}, Inline k target →
        Written k ("animationState." ++ target ++ " " ++ text ++ ";") := fun htarget =>
      (((hhead.append htarget).append hblank).append htext.inline).append hend
    cases direction <;> exact hmove fun _ _ => .of_chars rfl
  | rotate _ hangle =>
    refine (Lays.expression hangle).bind fun text htext => .pure ?_
    have hhead : Written k "animationState.rotation += " := .of_chars (fun _ => rfl) rfl
    exact (hhead.append htext.inline).append hend
  | scale _ hfactor =>
    refine (Lays.expression hfactor).bind fun text htext => .pure ?_
    have hhead : Written k "animationState.scale *= " := .of_chars (fun _ => rfl) rfl
    exact (hhead.append htext.inline).append hend
  | fade _ hamount =>
    refine (Lays.expression hamount).bind fun text htext => .pure ?_
    have hhead : Written k "animationState.opacity -= " := .of_chars (fun _ => rfl) rfl
    exact (hhead.append htext.inline).append hend

theorem commands_lays {content : String} {cs : List Command}
    (h : ∀ c ∈ cs, c.From (InText content)) (hk : opened.count '\x7b' = k) :
    Lays k opened (commands cs) opened fun _ => True := by
  induction cs with
  | nil => exact .pure trivial
  | cons c cs ih =>
    obtain ⟨hc, hcs⟩ := List.forall_mem_cons.mp h
    exact (command_lays hc).bind fun text htext => (Lays.written htext hk).bind fun _ _ => ih hcs

/-- A statement that leaves the brackets as they are, at every indentation. -/
def Laid (stmt : Stmt) : Prop :=
  ∀ {k : Nat} {opened : List Char}, opened.count '\x7b' = k →
    Lays k opened (statement stmt) opened fun _ => True

theorem each_lays {body : List Stmt} (h : ∀ stmt ∈ body, Laid stmt)
    (hk : opened.count '\x7b' = k) : Lays k opened (each body) opened fun _ => True := by
  induction body with
  | nil => exact .pure trivial
  | cons stmt body ih =>
    obtain ⟨hstmt, hbody⟩ := List.forall_mem_cons.mp h
    exact (hstmt hk).bind fun _ _ => ih hbody

/-- The body of a block, inside its brace. -/
theorem body_lays {body : List Stmt} (h : ∀ stmt ∈ body, Laid stmt)
    (hk : opened.count '\x7b' = k) :
    Lays k ('\x7b' :: opened) (deeper (each body)) ('\x7b' :: opened) fun _ => True := by
  refine .deeper (each_lays h ?_)
  rw [List.count_cons_self, hk]

/-- The line that opens a routine. -/
theorem routine_opens {name : String} (h : Solid name) (hk : opened.count '\x7b' = k) :
    Lays k opened (emit ("function " ++ name ++ "() \x7b")) ('\x7b' :: opened) fun _ => True := by
  have hhead : Passes ⟨.code, opened⟩ "function " ⟨.code, opened⟩ := .of_chars rfl
  have hend : Passes ⟨.code, opened⟩ "() \x7b" ⟨.code, '\x7b' :: opened⟩ := .of_chars rfl
  exact .openBrace ((hhead.append (h.written.inline opened hk)).append hend)
    (((Starts.of_chars rfl).append _).append _) hk

/-- The line that calls a routine. -/
theorem written_call {name : String} (h : Solid name) : Written k (name ++ "();") :=
  h.written.append fun _ _ => .of_chars rfl

/-- The line that opens a branch. -/
theorem branch_opens {text : String} (h : Written k text) (condition : Expr)
    (hk : opened.count '\x7b' = k) :
    Lays k opened
      (emit ("if " ++ (if hasParens condition then text else "(" ++ text ++ ")") ++ " \x7b"))
      ('\x7b' :: opened) fun _ => True := by
  have hhead : Passes ⟨.code, opened⟩ "if " ⟨.code, opened⟩ := .of_chars rfl
  have hcondition : Inline k (if hasParens condition then text else "(" ++ text ++ ")") := by
    split
    · exact h.inline
    · exact h.inline.parens
  have hend : Passes ⟨.code, opened⟩ " \x7b" ⟨.code, '\x7b' :: opened⟩ := .of_chars rfl
  exact .openBrace ((hhead.append (hcondition opened hk)).append hend)
    (((Starts.of_chars rfl).append _).append _) hk

/-- The line that opens a function. -/
theorem function_opens {content : String} {name : Identifier} {parameters : List Identifier}
    (hname : name.From (InText content)) (hparameters : ∀ id ∈ parameters, id.From (InText content))
    (hk : opened.count '\x7b' = k) :
    Lays k opened
      (emit ("function " ++ userName name.name ++ "(" ++
        ", ".intercalate (parameters.map fun p => userName p.name) ++ ") \x7b"))
      ('\x7b' :: opened) fun _ => True := by
  have hhead : Passes ⟨.code, opened⟩ "function " ⟨.code, opened⟩ := .of_chars rfl
  have hnames : Inline k (", ".intercalate (parameters.map fun p => userName p.name)) := by
    refine .intercalate fun text htext => ?_
    obtain ⟨id, hid, rfl⟩ := List.mem_map.mp htext
    exact (solid_userName (hparameters id hid)).written.inline
  have hend : Passes ⟨.code, '(' :: opened⟩ ") \x7b" ⟨.code, '\x7b' :: opened⟩ := .of_chars rfl
  refine .openBrace ((((hhead.append ((solid_userName hname).written.inline opened hk)).append
    (openParen_passes opened)).append (hnames _ (count_paren hk))).append hend) ?_ hk
  simp only [String.append_assoc]
  exact (Starts.of_chars rfl).append _

/-- The line that opens a loop. -/
theorem loop_opens {text : String} (h : Written k text) (depth : Int)
    (hk : opened.count '\x7b' = k) :
    Lays k opened
      (emit ("for (let " ++ s!"__i{depth}" ++ " = 0, " ++ s!"__n{depth}" ++ " = " ++ text ++ "; " ++
        s!"__i{depth}" ++ " < " ++ s!"__n{depth}" ++ "; " ++ s!"__i{depth}" ++ "++) \x7b"))
      ('\x7b' :: opened) fun _ => True := by
  have hinner := count_paren hk
  have hname : ∀ {head : String}, head ∈ ["__i", "__n"] →
      Passes ⟨.code, '(' :: opened⟩ (head ++ toString depth) ⟨.code, '(' :: opened⟩ :=
    fun hhead => (Temporary.counter depth hhead).solid.written.inline _ hinner
  have hcounter : Passes ⟨.code, '(' :: opened⟩ s!"__i{depth}" ⟨.code, '(' :: opened⟩ :=
    hname List.mem_cons_self
  have hbound : Passes ⟨.code, '(' :: opened⟩ s!"__n{depth}" ⟨.code, '(' :: opened⟩ :=
    hname (List.mem_cons_of_mem _ List.mem_cons_self)
  have hopen : Passes ⟨.code, opened⟩ "for (let " ⟨.code, '(' :: opened⟩ := .of_chars rfl
  have hzero : Passes ⟨.code, '(' :: opened⟩ " = 0, " ⟨.code, '(' :: opened⟩ := .of_chars rfl
  have hequals : Passes ⟨.code, '(' :: opened⟩ " = " ⟨.code, '(' :: opened⟩ := .of_chars rfl
  have hnext : Passes ⟨.code, '(' :: opened⟩ "; " ⟨.code, '(' :: opened⟩ := .of_chars rfl
  have hless : Passes ⟨.code, '(' :: opened⟩ " < " ⟨.code, '(' :: opened⟩ := .of_chars rfl
  have hend : Passes ⟨.code, '(' :: opened⟩ "++) \x7b" ⟨.code, '\x7b' :: opened⟩ := .of_chars rfl
  have hinitial := ((((hopen.append hcounter).append hzero).append hbound).append hequals).append
    (h.inline _ hinner)
  have hcompared := (((hinitial.append hnext).append hcounter).append hless).append hbound
  refine .openBrace (((hcompared.append hnext).append hcounter).append hend) ?_ hk
  simp only [String.append_assoc]
  exact (Starts.of_chars rfl).append _

/-- Every statement of a text leaves the brackets as they are. A block is opened by one line, and
    what closes it stands at the same indentation. -/
theorem laid_of_from {content : String} {stmt : Stmt} (h : stmt.From (InText content)) :
    Laid stmt := by
  -- The induction is on where the statement comes from. In each case the steps of writing are bound
  -- in their order, and each brings the brackets from where the one before it left them.
  induction h with
  | @binding name value place _ hname hvalue =>
    intro k opened hk
    refine (Lays.expression hvalue).bind fun text htext => .written ?_ hk
    have hhead : Written k "var " := .of_chars (fun _ => rfl) rfl
    have hequals : Inline k " = " := fun _ _ => .of_chars rfl
    have hend : Inline k ";" := fun _ _ => .of_chars rfl
    exact (((hhead.append (solid_userName hname).written.inline).append hequals).append
      htext.inline).append hend
  | function _ hname hparameters _ hbody =>
    intro k opened hk
    exact (function_opens hname hparameters hk).bind fun _ _ =>
      (body_lays hbody hk).bind fun _ _ => .closeBrace hk
  | @giveBack value place _ hvalue =>
    intro k opened hk
    cases value with
    | none => exact .written (.of_chars (fun _ => rfl) rfl) hk
    | some value =>
      refine (Lays.expression (hvalue value rfl)).bind fun text htext => .written ?_ hk
      have hhead : Written k "return " := .of_chars (fun _ => rfl) rfl
      have hend : Inline k ";" := fun _ _ => .of_chars rfl
      exact (hhead.append htext.inline).append hend
  | plain _ hcondition _ hthen =>
    intro k opened hk
    exact (Lays.expression hcondition).bind fun text htext =>
      (branch_opens htext _ hk).bind fun _ _ =>
        (body_lays hthen hk).bind fun _ _ => .closeBrace hk
  | otherwise _ hcondition _ _ hthen helse =>
    intro k opened hk
    -- Between its two bodies the line closes one brace and opens another, at the outer margin.
    have hturn : Lays k ('\x7b' :: opened) (emit "\x7d else \x7b") ('\x7b' :: opened)
        fun _ => True := .endBrace rfl (.of_chars rfl) hk
    exact (Lays.expression hcondition).bind fun text htext =>
      (branch_opens htext _ hk).bind fun _ _ => (body_lays hthen hk).bind fun _ _ =>
        hturn.bind fun _ _ => (body_lays helse hk).bind fun _ _ => .closeBrace hk
  | loop _ htimes _ hbody =>
    intro k opened hk
    -- The count of loops is only looked at, for the names of the counters.
    have hget : Lays k opened (get : Writer Draft) opened fun _ => True := by
      refine .quiet ?_
      rintro d _ _ hd ⟨⟩
      exact ⟨hd, rfl, trivial⟩
    exact hget.bind fun d _ => (Lays.expression htimes).bind fun text htext =>
      (loop_opens htext d.loops hk).bind fun _ _ =>
        (Lays.looped (body_lays hbody hk)).bind fun _ _ => .closeBrace hk
  | animation _ hcommands =>
    intro k opened hk
    -- Three parts stand one level deeper: a fixed line, the commands, and the call for the next
    -- frame.
    have hinner : ('\x7b' :: opened).count '\x7b' = k + 1 := by rw [List.count_cons_self, hk]
    have hframe : ∀ {name : String}, Solid name →
        Written (k + 1) ("requestAnimationFrame(" ++ name ++ ");") := by
      intro name hname
      refine ⟨fun opened hk => ?_, ((Starts.of_chars rfl).append _).append _⟩
      have hopen : Passes ⟨.code, opened⟩ "requestAnimationFrame(" ⟨.code, '(' :: opened⟩ :=
        .of_chars rfl
      have hclose : Passes ⟨.code, '(' :: opened⟩ ");" ⟨.code, opened⟩ := .of_chars rfl
      exact (hopen.append (hname.written.inline _ (count_paren hk))).append hclose
    exact (Lays.routine (.of_chars rfl)).bind fun name hname =>
      (Lays.emit (comment_line rfl (by decide) hk)).bind fun _ _ =>
        (routine_opens hname hk).bind fun _ _ =>
          (Lays.deeper ((Lays.written (.of_chars (fun _ => rfl) rfl) hinner).bind fun _ _ =>
            (commands_lays hcommands hinner).bind fun _ _ =>
              .written (hframe hname) hinner)).bind fun _ _ =>
            (Lays.closeBrace hk).bind fun _ _ => .written (written_call hname) hk
  | @scene title body place _ htitle _ hbody =>
    intro k opened hk
    have hname : IsName title.name.toList := by
      obtain ⟨token, htoken, hkind, rfl⟩ := htitle
      exact (isName_of_mem_tokenize htoken.1 hkind).1
    have hbase : Solid ("scene_" ++ title.name) := .of_append (forall_isSolid rfl) (.ofName hname)
    -- The title comes from the source and goes into a comment, so it has to be shown that it does
    -- not end the line.
    have hcomment : Passes ⟨.margin 0, opened⟩ (margin k ++ ("// Scene: " ++ title.name) ++ "\n")
        ⟨.margin 0, opened⟩ := by
      have htext : ("// Scene: " ++ title.name).toList =
          '/' :: '/' :: (" Scene: ".toList ++ title.name.toList) := by
        rw [String.toList_append]
        rfl
      refine comment_line htext (fun hmem => ?_) hk
      rcases List.mem_append.mp hmem with hhead | htail
      · exact absurd hhead (by decide)
      · exact absurd (hname.wordChars '\n' htail) (by decide)
    exact (Lays.routine hbase).bind fun name hname =>
      (Lays.emit hcomment).bind fun _ _ => (routine_opens hname hk).bind fun _ _ =>
        (body_lays hbody hk).bind fun _ _ =>
          (Lays.closeBrace hk).bind fun _ _ => .written (written_call hname) hk
  | expression hvalue =>
    intro k opened hk
    refine (Lays.expression hvalue).bind fun text htext => .written ?_ hk
    exact htext.append fun _ _ => .of_chars rfl

-- ============================================================================
-- Programs
-- ============================================================================

theorem mainFunction_lays {body : List Stmt} (h : ∀ stmt ∈ body, Laid stmt) :
    Lays 0 [] (mainFunction body) [] fun _ => True := by
  have hopen : Lays 0 [] (emit "(function main() \x7b") ['\x7b', '('] fun _ => True :=
    .emit (Passes.line (.of_chars rfl) ⟨'(', _, rfl, rfl, by decide, rfl⟩)
  have hclose : Lays 0 ['\x7b', '('] (emit "\x7d)();") [] fun _ => True :=
    .endBrace rfl (.of_chars rfl) rfl
  have hcomment : Lays 0 [] (emit "// Main program") [] fun _ => True :=
    .emit (comment_line rfl (by decide) rfl)
  exact hcomment.bind fun _ _ => hopen.bind fun _ _ =>
    (Lays.deeper (each_lays h rfl)).bind fun _ _ => hclose

theorem joined_eq_closed (line : String) (lines : List String) :
    "\n".intercalate (line :: lines) ++ "\n" = closed (line :: lines) := by
  induction lines generalizing line with
  | nil =>
    rw [String.intercalate_singleton, closed_cons]
    exact (String.append_empty).symm
  | cons second lines ih =>
    rw [String.intercalate_cons_cons, String.append_assoc, ih, closed_cons line]

/-- The text of a draft is that of its lines, unless its only line is empty. -/
theorem Draft.text_eq_closed {d : Draft} (h : d.lines ≠ [""]) : d.text = closed d.lines := by
  unfold Draft.text
  generalize d.lines = lines at h
  cases lines with
  | nil => rfl
  | cons line lines =>
    have hne : "\n".intercalate (line :: lines) ≠ "" := by
      intro hempty
      cases lines with
      | nil =>
        rw [String.intercalate_singleton] at hempty
        exact h (by rw [hempty])
      | cons second lines =>
        rw [String.intercalate_cons_cons] at hempty
        simp at hempty
    dsimp only
    rw [if_neg hne, joined_eq_closed]

/-- A script is the preamble alone, or what the main function is written to behind it. -/
theorem generate_cases {p : Program} {script : String} (h : generate p = .ok script) :
    p.body = [] ∧ script = preamble ∨
      ∃ d, mainFunction p.body .fresh = .ok () d ∧ script = preamble ++ d.text := by
  unfold generate at h
  split at h
  · rename_i text d hrun
    cases h
    unfold Script.program at hrun
    change (if !p.body.isEmpty then _ else _ : Writer String) .fresh = _ at hrun
    split at hrun
    · change EStateM.bind (mainFunction p.body) _ .fresh = _ at hrun
      unfold EStateM.bind at hrun
      split at hrun
      · rename_i e hmain
        cases hrun
        exact .inr ⟨_, hmain, rfl⟩
      · cases hrun
    · rename_i hbody
      cases hrun
      refine .inl ⟨?_, String.append_empty⟩
      simpa using hbody
  · cases h

/-- What the script of a program adds to the preamble. -/
theorem exists_added {p : Program} {script : String} (h : generate p = .ok script)
    (hbody : ∀ stmt ∈ p.body, Laid stmt) :
    ∃ added, script = preamble ++ added ∧ Passes ⟨.margin 0, []⟩ added ⟨.margin 0, []⟩ := by
  rcases generate_cases h with ⟨-, rfl⟩ | ⟨d, hmain, rfl⟩
  · exact ⟨"", String.append_empty.symm, rfl⟩
  · obtain ⟨-, -, new, hnew, hpasses⟩ := mainFunction_lays hbody _ _ _ rfl hmain
    have hlines : d.lines = new := hnew
    rw [← hlines] at hpasses
    refine ⟨d.text, rfl, ?_⟩
    rw [Draft.text_eq_closed]
    · exact hpasses
    · intro hempty
      rw [hempty] at hpasses
      cases hpasses

end Script

open Script

/-- Scripts are well bracketed, and their margins show how they nest. Every text has a script, also
    one that could not be parsed without errors; and what it adds to the preamble has properly
    nested parentheses and braces, and on each line two blanks for every brace that is open there. -/
theorem generate_laid_out (content : String) :
    ∃ p errors added, parse (tokenize content) = .ok (p, errors) ∧
      generate p = .ok (preamble ++ added) ∧
      WellBracketed added.toList ∧ Indented added.toList := by
  obtain ⟨p, errors, hparse⟩ := @parse_eq_ok (tokenize content) fun token hmem =>
    numbersReadable_tokenize content token ((List.takeWhile_prefix _).subset hmem)
  obtain ⟨script, hgenerate⟩ := generate_eq_ok (parse_ok hparse).1
  have hlaid : ∀ stmt ∈ p.body, Laid stmt := fun stmt hstmt =>
    laid_of_from ((parse_tokenize_from hparse).1 stmt hstmt)
  obtain ⟨added, rfl, hpasses⟩ := exists_added hgenerate hlaid
  exact ⟨p, errors, added, hparse, hgenerate, wellBracketed_of_passes hpasses,
    indented_of_passes hpasses⟩

end Storyboard
