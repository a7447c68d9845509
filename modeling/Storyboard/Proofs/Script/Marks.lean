/-
  Storyboard.Proofs.Script.Marks

  Lines of a script that save and restore the state of the canvas.

  Shapes that may hold shapes are a `Forest`; with a line before each that saves and a
  line behind it that restores, they make a word of brackets (`Forest.marks`). A script
  is read character by character to find these lines (`scan`). As soon as a line differs
  from both of them, the rest of it does not matter (`Off`), so it can be said of a text
  which marks it brings wherever it stands in such a line (`Spans`), and of a text that
  a line begins with which marks it brings there (`Opens`).
-/
import Storyboard.Proofs.Script.StmtLayout
import Storyboard.Proofs.Source.Places

namespace Storyboard

-- ============================================================================
-- Brackets
-- ============================================================================

/-- What a line does to the state of the canvas. -/
inductive Mark where
  | save
  | restore
  deriving DecidableEq

/-- The line that does it. -/
def Mark.code : Mark → String
  | save => "ctx.save();"
  | restore => "ctx.restore();"

/-- Shapes in a row, each with the shapes inside of it. -/
inductive Forest where
  | nil
  | cons (inside rest : Forest)
  deriving DecidableEq

namespace Forest

/-- Shapes in a row, and then others. -/
protected def append : Forest → Forest → Forest
  | nil, others => others
  | cons inside rest, others => cons inside (rest.append others)

instance : Append Forest := ⟨Forest.append⟩

/-- How many shapes there are, at any depth. -/
def size : Forest → Nat
  | nil => 0
  | cons inside rest => inside.size + rest.size + 1

/-- A bracket before each shape and one behind it. -/
def marks : Forest → List Mark
  | nil => []
  | cons inside rest => .save :: (inside.marks ++ .restore :: rest.marks)

@[simp] theorem nil_append (others : Forest) : nil ++ others = others := rfl

@[simp] theorem cons_append (inside rest others : Forest) :
    cons inside rest ++ others = cons inside (rest ++ others) := rfl

@[simp] theorem append_nil (forest : Forest) : forest ++ nil = forest := by
  induction forest with
  | nil => rfl
  | cons inside rest _ ih => rw [cons_append, ih]

theorem append_assoc (forest others more : Forest) :
    forest ++ others ++ more = forest ++ (others ++ more) := by
  induction forest with
  | nil => rfl
  | cons inside rest _ ih => rw [cons_append, cons_append, cons_append, ih]

@[simp] theorem marks_append (forest others : Forest) :
    (forest ++ others).marks = forest.marks ++ others.marks := by
  induction forest with
  | nil => rfl
  | cons inside rest _ ih => simp [marks, ih]

theorem count_marks (forest : Forest) (mark : Mark) : forest.marks.count mark = forest.size := by
  induction forest with
  | nil => rfl
  | cons inside rest hinside hrest =>
    cases mark with
    | save =>
      rw [marks, List.count_cons_self, List.count_append, List.count_cons_of_ne (by decide), hinside,
        hrest, size]
    | restore =>
      rw [marks, List.count_cons_of_ne (by decide), List.count_append, List.count_cons_self, hinside,
        hrest, size, Nat.add_assoc]

end Forest

/-- Whether brackets are balanced where some are open already: none is closed that is not open, and
    all are closed at the end. -/
def Mark.balancedFrom : Nat → List Mark → Bool
  | opened, [] => opened = 0
  | opened, .save :: rest => balancedFrom (opened + 1) rest
  | 0, .restore :: _ => false
  | opened + 1, .restore :: rest => balancedFrom opened rest

/-- The brackets of shapes are balanced. -/
theorem Forest.balancedFrom_marks (forest : Forest) (opened : Nat) (rest : List Mark) :
    Mark.balancedFrom opened (forest.marks ++ rest) = Mark.balancedFrom opened rest := by
  induction forest generalizing opened rest with
  | nil => rfl
  | cons inside others hinside hothers =>
    rw [marks, List.cons_append, Mark.balancedFrom, List.append_assoc, hinside, List.cons_append,
      Mark.balancedFrom, hothers]

namespace Script

-- ============================================================================
-- Lines that save and restore
-- ============================================================================

/-- A line after its indentation. -/
def unindented (line : List Char) : List Char := line.dropWhile (· = ' ')

/-- What a line does to the state of the canvas, given what stands behind its indentation. -/
def mark? (line : List Char) : Option Mark :=
  if line = Mark.save.code.toList then some .save
  else if line = Mark.restore.code.toList then some .restore
  else none

theorem mark?_eq_some {line : List Char} {mark : Mark} :
    mark? line = some mark ↔ line = mark.code.toList := by
  have hne : Mark.restore.code.toList ≠ Mark.save.code.toList := by decide
  unfold mark?
  constructor
  · intro h
    split at h
    · cases h
      assumption
    · split at h
      all_goals cases h
      assumption
  · rintro rfl
    cases mark with
    | save => rw [if_pos rfl]
    | restore => rw [if_neg hne, if_pos rfl]

/-- What the lines of a script do to the state of the canvas. -/
def marks (script : String) : List Mark :=
  (Text.lines script).filterMap fun line => mark? (unindented line.toList)

/-- The same, read character by character. Of the line that is being read, all that was read so far
    is given but its indentation. -/
def scan : (line text : List Char) → List Mark
  | line, [] => (mark? line).toList
  | line, c :: cs =>
    if c = '\n' then (mark? line).toList ++ scan [] cs
    else if line = [] ∧ c = ' ' then scan [] cs
    else scan (line ++ [c]) cs

/-- Characters up to the end of a line. -/
theorem scan_append {front : List Char} (h : '\n' ∉ front) {line : List Char} (hline : line ≠ [])
    (rest : List Char) : scan line (front ++ rest) = scan (line ++ front) rest := by
  induction front generalizing line with
  | nil => rw [List.nil_append, List.append_nil]
  | cons c front ih =>
    obtain ⟨hc, hfront⟩ := not_or.mp (mt List.mem_cons.mpr h)
    rw [List.cons_append, scan, if_neg (Ne.symm hc), if_neg (fun hstart => hline hstart.1),
      ih hfront (by simp), List.append_assoc]
    rfl

/-- The beginning of a line. -/
theorem scan_begin {front : List Char} (h : '\n' ∉ front) (rest : List Char) :
    scan [] (front ++ rest) = scan (unindented front) rest := by
  induction front with
  | nil => rfl
  | cons c front ih =>
    obtain ⟨hc, hfront⟩ := not_or.mp (mt List.mem_cons.mpr h)
    rw [List.cons_append, scan, if_neg (Ne.symm hc)]
    by_cases hblank : c = ' '
    · rw [if_pos ⟨rfl, hblank⟩, ih hfront, unindented, unindented,
        List.dropWhile_cons_of_pos (by simpa using hblank)]
    · rw [if_neg (fun hstart => hblank hstart.2), List.nil_append, scan_append hfront (by simp),
        unindented, List.dropWhile_cons_of_neg (by simpa using hblank), List.singleton_append]

/-- A whole line. -/
theorem scan_line {line : List Char} (h : '\n' ∉ line) (rest : List Char) :
    scan [] (line ++ '\n' :: rest) = (mark? (unindented line)).toList ++ scan [] rest := by
  rw [scan_begin h, scan, if_pos rfl]

/-- What the lines of a script do can be read character by character. -/
theorem marks_eq_scan (script : String) : marks script = scan [] script.toList := by
  -- By induction on what is left, with the line that was begun before it.
  have hall : ∀ rest front : List Char, '\n' ∉ front →
      (Text.pieces '\n' (front ++ rest)).filterMap (fun line => mark? (unindented line)) =
        scan [] (front ++ rest) := by
    intro rest
    induction rest with
    | nil =>
      intro front hfront
      rw [scan_begin hfront, List.append_nil, Text.pieces_of_not_mem '\n' hfront, scan]
      cases hmark : mark? (unindented front) <;> simp [hmark]
    | cons c rest ih =>
      intro front hfront
      by_cases hc : c = '\n'
      · have hrest := ih [] (by simp)
        rw [List.nil_append] at hrest
        rw [hc, Text.pieces_append_cons, Text.pieces_of_not_mem '\n' hfront, scan_line hfront,
          List.filterMap_append, hrest]
        cases hmark : mark? (unindented front) <;> simp [hmark]
      · have hmore := ih (front ++ [c]) (by simp [hfront, Ne.symm hc])
        rw [List.append_assoc, List.singleton_append] at hmore
        exact hmore
  have hscript := hall script.toList [] (by simp)
  rw [List.nil_append] at hscript
  rw [marks, Text.lines, List.filterMap_map, ← hscript]
  simp only [Function.comp_def, String.toList_ofList]

/-- The lines that do one thing are as many as the marks of it. -/
theorem countP_lines (script : String) (mark : Mark) :
    (Text.lines script).countP (fun line => unindented line.toList = mark.code.toList) =
      (marks script).count mark := by
  rw [marks, List.count, List.countP_filterMap]
  refine List.countP_congr fun line _ => ?_
  rw [decide_eq_true_iff, ← mark?_eq_some]
  cases mark? (unindented line.toList) <;> simp

/-- What can no longer become a line that saves or restores. -/
def Off (line : List Char) : Prop :=
  ¬line <+: Mark.save.code.toList ∧ ¬line <+: Mark.restore.code.toList

instance (line : List Char) : Decidable (Off line) := inferInstanceAs (Decidable (_ ∧ _))

namespace Off

theorem append {line : List Char} (h : Off line) (more : List Char) : Off (line ++ more) :=
  ⟨fun hbegins => h.1 ((List.prefix_append line more).trans hbegins),
    fun hbegins => h.2 ((List.prefix_append line more).trans hbegins)⟩

theorem ne_nil {line : List Char} (h : Off line) : line ≠ [] := by
  rintro rfl
  exact h.1 (List.nil_prefix)

theorem mark?_eq {line : List Char} (h : Off line) : mark? line = none := by
  rw [mark?, if_neg, if_neg]
  · rintro rfl
    exact h.2 (List.prefix_refl _)
  · rintro rfl
    exact h.1 (List.prefix_refl _)

/-- Such a line ends without a mark. -/
theorem scan_newline {line : List Char} (h : Off line) (rest : List Char) :
    scan line ('\n' :: rest) = scan [] rest := by
  rw [scan, if_pos rfl, h.mark?_eq]
  rfl

/-- How such a line was begun does not matter. -/
theorem scan_eq {line other : List Char} (h : Off line) (h' : Off other) (rest : List Char) :
    scan line rest = scan other rest := by
  induction rest generalizing line other with
  | nil => rw [scan, scan, h.mark?_eq, h'.mark?_eq]
  | cons c rest ih =>
    simp only [scan, h.mark?_eq, h'.mark?_eq, h.ne_nil, h'.ne_nil, false_and, if_false,
      ih (h.append [c]) (h'.append [c])]

end Off

/-- A text that brings the given marks wherever it stands in such a line. -/
def Spans (ms : List Mark) (text : String) : Prop :=
  ∀ line, Off line → ∀ rest, scan line (text.toList ++ rest) = ms ++ scan line rest

/-- A text that brings the given marks at the beginning of a line, and makes the line it ends in
    such a line. -/
def Opens (ms : List Mark) (text : String) : Prop :=
  ∀ line, Off line → ∀ rest, scan [] (text.toList ++ rest) = ms ++ scan line rest

/-- A line that neither saves nor restores. -/
def Idle (line : String) : Prop :=
  ∀ rest, scan [] (line.toList ++ '\n' :: rest) = scan [] rest

/-- Lines that bring the given marks. -/
def Marked (ms : List Mark) (lines : List String) : Prop :=
  ∀ rest, scan [] ((closed lines).toList ++ rest) = ms ++ scan [] rest

theorem Spans.append {ms others : List Mark} {front back : String} (h : Spans ms front)
    (h' : Spans others back) : Spans (ms ++ others) (front ++ back) := by
  intro line hline rest
  rw [String.toList_append, List.append_assoc, h line hline, h' line hline, List.append_assoc]

/-- A text behind one that brings no marks. -/
theorem Spans.after {ms : List Mark} {front back : String} (h : Spans [] front)
    (h' : Spans ms back) : Spans ms (front ++ back) := h.append h'

/-- A text before one that brings no marks. -/
theorem Spans.before {ms : List Mark} {front back : String} (h : Spans ms front)
    (h' : Spans [] back) : Spans ms (front ++ back) := by
  have hall := h.append h'
  rwa [List.append_nil] at hall

theorem Spans.flat {text : String} (h : '\n' ∉ text.toList) : Spans [] text := by
  intro line hline rest
  rw [scan_append h hline.ne_nil, List.nil_append]
  exact (hline.append _).scan_eq hline rest

theorem Opens.after {ms : List Mark} {front back : String} (h : Opens [] front)
    (h' : Spans ms back) : Opens ms (front ++ back) := by
  intro line hline rest
  rw [String.toList_append, List.append_assoc, h line hline, h' line hline, List.nil_append]

theorem Opens.before {ms : List Mark} {front back : String} (h : Opens ms front)
    (h' : Spans [] back) : Opens ms (front ++ back) := by
  intro line hline rest
  rw [String.toList_append, List.append_assoc, h line hline, h' line hline, List.nil_append]

/-- A text that begins unlike the lines that save and restore brings the same marks at the beginning
    of a line as elsewhere. -/
theorem Spans.opens {ms : List Mark} {text : String} (h : Spans ms text) {front back : List Char}
    (htext : text.toList = front ++ back) (hnewline : '\n' ∉ front)
    (hoff : Off (unindented front)) : Opens ms text := by
  intro line hline rest
  calc scan [] (text.toList ++ rest)
      = scan (unindented front) (back ++ rest) := by
        rw [htext, List.append_assoc, scan_begin hnewline]
    _ = scan (line ++ front) (back ++ rest) := hoff.scan_eq (hline.append front) _
    _ = scan line (text.toList ++ rest) := by
        rw [htext, List.append_assoc, scan_append hnewline hline.ne_nil]
    _ = ms ++ scan line rest := h line hline rest

theorem newline_not_mem_of_all {cs : List Char} (h : cs.all (· ≠ '\n') = true) : '\n' ∉ cs :=
  fun hmem => absurd rfl (of_decide_eq_true (List.all_eq_true.mp h _ hmem))

/-- Characters that are the same in every script. -/
theorem Spans.of_chars {cs : List Char} (h : cs.all (· ≠ '\n') = true) :
    Spans [] (String.ofList cs) := by
  refine .flat ?_
  rw [String.toList_ofList]
  exact newline_not_mem_of_all h

/-- The beginning of a line that is the same in every script. -/
theorem Opens.of_chars {cs : List Char} (h : cs.all (· ≠ '\n') = true)
    (hoff : Off (unindented cs)) : Opens [] (String.ofList cs) := by
  have hall : (String.ofList cs).toList = cs ++ [] := by
    rw [String.toList_ofList, List.append_nil]
  exact (Spans.of_chars h).opens hall (newline_not_mem_of_all h) hoff

theorem Opens.idle {line : String} (h : Opens [] line) : Idle line := by
  intro rest
  -- How the line is left off does not matter, but that it is.
  have hslash : Off ['/'] := by decide
  rw [h ['/'] hslash, hslash.scan_newline, List.nil_append]

/-- A line that is the same in every script. -/
theorem Idle.of_chars {cs : List Char} (h : cs.all (· ≠ '\n') = true)
    (hmark : mark? (unindented cs) = none) : Idle (String.ofList cs) := by
  intro rest
  rw [String.toList_ofList, scan_line (newline_not_mem_of_all h), hmark]
  rfl

-- ============================================================================
-- Lines
-- ============================================================================

theorem scan_margin (k : Int) (rest : List Char) :
    scan [] ((margin k).toList ++ rest) = scan [] rest := by
  have hcopies : ∀ n, scan [] ((Text.copies n "  ").toList ++ rest) = scan [] rest := by
    intro n
    rw [Text.copies]
    induction n with
    | zero => rfl
    | succ n ih =>
      rw [List.replicate_succ, concat_cons, String.toList_append, List.append_assoc]
      exact ih
  exact hcopies k.toNat

/-- The first of several lines. -/
theorem scan_closed (k : Int) (code : String) (lines : List String) (rest : List Char) :
    scan [] ((closed ((margin k ++ code) :: lines)).toList ++ rest) =
      scan [] (code.toList ++ '\n' :: ((closed lines).toList ++ rest)) := by
  rw [closed_cons, String.toList_append, String.toList_append, String.toList_append,
    List.append_assoc, List.append_assoc, List.append_assoc, scan_margin]
  rfl

namespace Marked

theorem nil : Marked [] [] := fun _ => rfl

theorem cons {ms others : List Mark} {k : Int} {code : String} {lines : List String}
    (h : Opens ms code) (h' : Marked others lines) :
    Marked (ms ++ others) ((margin k ++ code) :: lines) := by
  intro rest
  have hslash : Off ['/'] := by decide
  rw [scan_closed, h ['/'] hslash, hslash.scan_newline, h' rest, List.append_assoc]

/-- A line that neither saves nor restores. -/
theorem skip {ms : List Mark} {k : Int} {code : String} {lines : List String} (h : Opens [] code)
    (h' : Marked ms lines) : Marked ms ((margin k ++ code) :: lines) := .cons h h'

theorem append {ms others : List Mark} {lines more : List String} (h : Marked ms lines)
    (h' : Marked others more) : Marked (ms ++ others) (lines ++ more) := by
  intro rest
  rw [closed_append, String.toList_append, List.append_assoc, h, h', List.append_assoc]

/-- A line that saves or restores. -/
theorem mark {ms : List Mark} {k : Int} {lines : List String} (m : Mark) (h : Marked ms lines) :
    Marked (m :: ms) ((margin k ++ m.code) :: lines) := by
  intro rest
  have hflat : '\n' ∉ m.code.toList ∧ unindented m.code.toList = m.code.toList := by
    cases m <;> decide
  rw [scan_closed, scan_line hflat.1, hflat.2, mark?_eq_some.mpr rfl, h rest]
  rfl

/-- Lines that neither save nor restore. -/
theorem idle {k : Int} {lines : List String} (h : ∀ line ∈ lines, Idle line) :
    Marked [] (lines.map (margin k ++ ·)) := by
  intro rest
  induction lines with
  | nil => rfl
  | cons line lines ih =>
    obtain ⟨hline, hlines⟩ := List.forall_mem_cons.mp h
    rw [List.map_cons, scan_closed, hline]
    exact ih hlines

end Marked

/-- A function called on the spot brings the marks of its lines. -/
theorem spans_calledOnce {ms : List Mark} {indent : Int} {lines : List String}
    (h : Marked ms (lines.map (margin (indent + 1) ++ ·))) :
    Spans ms (calledOnce indent lines) := by
  have hbrace : Opens [] "\x7d)()" := .of_chars rfl (by decide)
  intro line hline rest
  have hclosed : "".intercalate (lines.map fun line => margin (indent + 1) ++ line ++ "\n") =
      closed (lines.map (margin (indent + 1) ++ ·)) := by
    rw [closed, List.map_map]
    rfl
  have hopen : "(function() \x7b\n".toList = "(function() \x7b".toList ++ ['\n'] := by decide
  simp only [calledOnce_eq, hclosed, String.toList_append, List.append_assoc, hopen]
  rw [scan_append (by decide) hline.ne_nil, List.singleton_append, (hline.append _).scan_newline,
    h, scan_margin, hbrace line hline, List.nil_append]

/-- Lines that neither save nor restore, the last of which is yet to come. -/
theorem scan_intercalate {lines : List String} (h : ∀ line ∈ lines, Idle line)
    (hlast : lines.getLast? = some "") (rest : List Char) :
    scan [] (("\n".intercalate lines).toList ++ rest) = scan [] rest := by
  induction lines with
  | nil => cases hlast
  | cons line lines ih =>
    obtain ⟨hline, hlines⟩ := List.forall_mem_cons.mp h
    cases lines with
    | nil =>
      cases hlast
      rw [String.intercalate_singleton]
      rfl
    | cons second lines =>
      rw [String.intercalate_cons_cons, String.toList_append, String.toList_append,
        List.append_assoc, List.append_assoc]
      exact (hline _).trans (ih hlines hlast)

end Script

end Storyboard
