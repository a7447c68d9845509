/-
  Storyboard.Proofs.Script.Preview

  What a page makes of a script.

  The text of a script element goes from behind the line that opens it to the first
  `</script`, wherever that stands (`scriptText`). In a script such a tag comes from
  literals only, and they hold it as it is: so the page holds the whole script just if
  none of the program's literals holds a tag, and otherwise the script is cut off there.
-/
import Storyboard.Proofs.Compile.Totality
import Storyboard.Proofs.Script.Literals
import Storyboard.Proofs.Source.Places
import Storyboard.Script.Page

namespace Storyboard

namespace Script

-- ============================================================================
-- Pages
-- ============================================================================

/-- What stands behind the first occurrence of a mark. -/
def behind (mark : List Char) : List Char → Option (List Char)
  | [] => none
  | c :: cs =>
    if mark.isPrefixOf (c :: cs) then some ((c :: cs).drop mark.length) else behind mark cs

/-- What stands before the first end of a script element. -/
def beforeEnd : List Char → Option (List Char)
  | [] => none
  | c :: cs => if startsEnd (c :: cs) then some [] else (beforeEnd cs).map (c :: ·)

/-- The line that opens a script element. -/
def openingTag : List Char := ['<', 's', 'c', 'r', 'i', 'p', 't', '>']

/-- The text of a page's script element: what stands behind the line that opens it, up to the first
    end of a script element. -/
def scriptText (page : String) : Option (List Char) :=
  (behind ('\n' :: openingTag ++ ['\n']) page.toList).bind beforeEnd

/-- A line has no part in a mark that begins with a newline. -/
theorem behind_append_of_not_mem {line : List Char} (h : '\n' ∉ line) (mark rest : List Char) :
    behind ('\n' :: mark) (line ++ rest) = behind ('\n' :: mark) rest := by
  induction line with
  | nil => rfl
  | cons c line ih =>
    obtain ⟨hc, hline⟩ := not_or.mp (mt List.mem_cons.mpr h)
    rw [List.cons_append, behind, List.isPrefixOf_cons_cons, beq_false_of_ne hc, Bool.false_and,
      if_neg Bool.false_ne_true, ih hline]

/-- Only the line itself stands between two newlines. -/
theorem isPrefixOf_line {line other : List Char} (h : '\n' ∉ line) (hother : '\n' ∉ other)
    (hne : other ≠ line) (rest : List Char) :
    (line ++ ['\n']).isPrefixOf (other ++ '\n' :: rest) = false := by
  have htake : ∀ {front : List Char} (back : List Char), '\n' ∉ front →
      (front ++ '\n' :: back).takeWhile (· ≠ '\n') = front := by
    intro front back hfront
    have hall : ∀ c ∈ front, decide (c ≠ '\n') = true := by
      intro c hc
      simpa using fun heq : c = '\n' => hfront (heq ▸ hc)
    rw [List.takeWhile_append_of_pos hall]
    simp
  rw [Bool.eq_false_iff, ne_eq, List.isPrefixOf_iff_prefix]
  rintro ⟨back, hback⟩
  have heq := congrArg (List.takeWhile (· ≠ '\n')) hback
  rw [List.append_assoc, List.singleton_append, htake back h, htake rest hother] at heq
  exact hne heq.symm

/-- Lines, each behind a newline. -/
def trailing (lines : List String) : List Char := lines.flatMap fun line => '\n' :: line.toList

theorem toList_intercalate_newline (first : String) (lines : List String) :
    ("\n".intercalate (first :: lines)).toList = first.toList ++ trailing lines := by
  induction lines generalizing first with
  | nil => simp [trailing]
  | cons second lines ih =>
    rw [String.intercalate_cons_cons, String.toList_append, ih second, String.toList_append,
      List.append_assoc]
    rfl

/-- What stands behind a line, if no line before it is the same. -/
theorem behind_lines {line : List Char} (h : '\n' ∉ line) {lines : List String}
    (hlines : ∀ other ∈ lines, '\n' ∉ other.toList ∧ other.toList ≠ line) (rest : List Char) :
    behind ('\n' :: (line ++ ['\n'])) (trailing lines ++ '\n' :: (line ++ '\n' :: rest)) =
      some rest := by
  induction lines with
  | nil =>
    have hhere : ('\n' :: (line ++ ['\n'])).isPrefixOf ('\n' :: (line ++ '\n' :: rest)) = true := by
      rw [List.isPrefixOf_iff_prefix]
      exact ⟨rest, by simp⟩
    rw [trailing, List.flatMap_nil, List.nil_append, behind, if_pos hhere]
    simp
  | cons other lines ih =>
    obtain ⟨⟨hother, hne⟩, hothers⟩ := List.forall_mem_cons.mp hlines
    obtain ⟨more, hmore⟩ : ∃ more,
        trailing lines ++ '\n' :: (line ++ '\n' :: rest) = '\n' :: more := by
      cases lines with
      | nil => exact ⟨_, rfl⟩
      | cons second lines => exact ⟨_, rfl⟩
    -- This line is another one, so the search goes past it to the newline at its end.
    have hskip : ('\n' :: (line ++ ['\n'])).isPrefixOf ('\n' :: (other.toList ++ '\n' :: more)) =
        false := by
      rw [List.isPrefixOf_cons_cons, isPrefixOf_line h hother hne, Bool.and_false]
    have hall : trailing (other :: lines) ++ '\n' :: (line ++ '\n' :: rest) =
        '\n' :: (other.toList ++ '\n' :: more) := by
      rw [← hmore, trailing, List.flatMap_cons, List.append_assoc]
      rfl
    rw [hall, behind, hskip, if_neg Bool.false_ne_true, behind_append_of_not_mem hother, ← hmore]
    exact ih hothers

-- ============================================================================
-- Ends
-- ============================================================================

/-- A text is read past a character that no tag has, if there is no tag before it. -/
theorem beforeEnd_over {d : Char} (h : d.toLower ∉ endTag) {cs : List Char}
    (hnone : holdsEnd cs = false) (rest : List Char) :
    beforeEnd (cs ++ d :: rest) = (beforeEnd rest).map (cs ++ d :: ·) := by
  induction cs with
  | nil =>
    have hd : d ≠ '<' := by
      rintro rfl
      exact h (by decide)
    rw [List.nil_append, beforeEnd, startsEnd_cons_of_ne hd, if_neg Bool.false_ne_true]
    rfl
  | cons c cs ih =>
    have hstart : startsEnd (c :: cs ++ d :: rest) = startsEnd (c :: cs) :=
      isPrefixOf_over h (c :: cs) rest
    rw [holdsEnd, Bool.or_eq_false_iff] at hnone
    rw [List.cons_append] at hstart ⊢
    rw [beforeEnd, hstart, hnone.1, if_neg Bool.false_ne_true, ih hnone.2, Option.map_map]
    rfl

/-- A tag in a text ends what is read of it. -/
theorem beforeEnd_of_holdsEnd {cs : List Char} (h : holdsEnd cs = true) (rest : List Char) :
    ∃ front, beforeEnd (cs ++ rest) = some front ∧ front.length < cs.length := by
  induction cs with
  | nil => cases h
  | cons c cs ih =>
    rw [List.cons_append, beforeEnd]
    split
    · exact ⟨[], rfl, Nat.succ_pos _⟩
    · rename_i hstart
      have hnot : startsEnd (c :: cs) = false := by
        rw [Bool.eq_false_iff]
        intro hhere
        apply hstart
        rw [startsEnd, List.isPrefixOf_iff_prefix] at hhere ⊢
        rw [← List.cons_append, List.map_append]
        exact hhere.trans (List.prefix_append _ _)
      rw [holdsEnd, hnot, Bool.false_or] at h
      obtain ⟨front, hfront, hlength⟩ := ih h
      exact ⟨c :: front, by rw [hfront, Option.map_some], Nat.succ_lt_succ hlength⟩

/-- Newlines at the end of a text have no part in a tag. -/
theorem holdsEnd_dropEnd (cs : List Char) :
    holdsEnd (Text.dropEnd (· = '\n') cs) = holdsEnd cs := by
  have hnewline : '\n'.toLower ∉ endTag := by decide
  obtain ⟨n, hcs⟩ := Text.exists_dropEnd '\n' cs
  generalize Text.dropEnd (· = '\n') cs = kept at hcs ⊢
  subst hcs
  cases n with
  | zero => rw [List.replicate_zero, List.append_nil]
  | succ n =>
    have hnone : holdsEnd (List.replicate n '\n' ++ []) = holdsEnd [] :=
      holdsEnd_append_of_ne (fun c hc => by rw [List.eq_of_mem_replicate hc]; decide) []
    rw [List.append_nil] at hnone
    rw [List.replicate_succ, holdsEnd_over hnewline, hnone]
    simp [holdsEnd]

/-- The lines of a page between the first one and the one that opens the script. -/
def headLines : List String :=
  ["<html>", "<head>", "<meta charset=\"utf-8\">", "<title>" ++ defaultTitle ++ "</title>",
   "<style>body\x7bmargin:0;background:#111;display:flex;justify-content:center;" ++
     "align-items:center;height:100vh\x7dcanvas\x7bbackground:#000\x7d</style>",
   "</head>", "<body>",
   "<canvas id=\"" ++ canvasId ++ "\" width=\"" ++ toString pageSize.1 ++ "\" height=\"" ++
     toString pageSize.2 ++ "\"></canvas>"]

/-- A page is its head, the script between two tags, and its end. -/
theorem toList_page (script : String) :
    (page script defaultTitle).toList = "<!DOCTYPE html>".toList ++ (trailing headLines ++
      '\n' :: (openingTag ++ '\n' :: (Text.dropEnd (· = '\n') script.toList ++
        '\n' :: ("</script>".toList ++ trailing ["</body>", "</html>", ""])))) := by
  have hlines : page script defaultTitle = "\n".intercalate ("<!DOCTYPE html>" :: (headLines ++
      ["<script>", String.ofList (Text.dropEnd (· = '\n') script.toList), "</script>", "</body>",
        "</html>", ""])) := rfl
  rw [hlines, toList_intercalate_newline, trailing, List.flatMap_append]
  simp only [List.flatMap_cons, String.toList_ofList, List.cons_append]
  rfl

/-- A text on one line that begins in another way than the opening of a script. -/
structure OtherLine (text : String) : Prop where
  newline : '\n' ∉ text.toList
  start : ∃ c d rest, text.toList = '<' :: c :: d :: rest ∧ d ≠ 'c'

namespace OtherLine

theorem ne_openingTag {text : String} (h : OtherLine text) : text.toList ≠ openingTag := by
  obtain ⟨c, d, rest, htext, hd⟩ := h.start
  rw [htext, openingTag]
  intro heq
  exact hd (List.cons.inj (List.cons.inj (List.cons.inj heq).2).2).1

theorem of_chars {c d : Char} {cs : List Char} (h : ('<' :: c :: d :: cs).all (· ≠ '\n') = true)
    (hd : d ≠ 'c') : OtherLine (String.ofList ('<' :: c :: d :: cs)) := by
  refine ⟨fun hmem => ?_, c, d, cs, String.toList_ofList, hd⟩
  rw [String.toList_ofList] at hmem
  simpa using List.all_eq_true.mp h _ hmem

theorem append {front back : String} (h : OtherLine front) (hback : '\n' ∉ back.toList) :
    OtherLine (front ++ back) := by
  obtain ⟨c, d, rest, hfront, hd⟩ := h.start
  refine ⟨?_, c, d, rest ++ back.toList, ?_, hd⟩
  · rw [String.toList_append, List.mem_append]
    exact not_or.mpr ⟨h.newline, hback⟩
  · rw [String.toList_append, hfront]
    rfl

end OtherLine

/-- No line before it opens a script. -/
theorem headLines_other : ∀ line ∈ headLines, OtherLine line := by
  have hnewline : ∀ {cs : List Char}, cs.all (· ≠ '\n') = true →
      '\n' ∉ (String.ofList cs).toList := by
    intro cs hcs hmem
    rw [String.toList_ofList] at hmem
    simpa using List.all_eq_true.mp hcs _ hmem
  have hwidth : '\n' ∉ (toString (500 : Nat)).toList := by decide
  simp only [headLines, List.forall_mem_cons, List.not_mem_nil, false_imp_iff, implies_true,
    and_true]
  and_intros
  · exact .of_chars rfl (by decide)
  · exact .of_chars rfl (by decide)
  · exact .of_chars rfl (by decide)
  · exact ((OtherLine.of_chars rfl (by decide)).append (hnewline rfl)).append (hnewline rfl)
  · exact (OtherLine.of_chars rfl (by decide)).append (hnewline rfl)
  · exact .of_chars rfl (by decide)
  · exact .of_chars rfl (by decide)
  · exact ((((((OtherLine.of_chars rfl (by decide)).append (hnewline rfl)).append
      (hnewline rfl)).append hwidth).append (hnewline rfl)).append hwidth).append (hnewline rfl)

/-- A page holds the whole of a text, up to newlines at its end, just if that has no tag in it. -/
theorem scriptText_page (script : String) :
    scriptText (page script defaultTitle) = some (Text.dropEnd (· = '\n') script.toList ++ ['\n']) ↔
      holdsEnd script.toList = false := by
  have hnewline : '\n'.toLower ∉ endTag := by decide
  have hfirst : '\n' ∉ "<!DOCTYPE html>".toList := by decide
  have hopening : '\n' ∉ openingTag := by decide
  have hhead : ∀ line ∈ headLines, '\n' ∉ line.toList ∧ line.toList ≠ openingTag :=
    fun line hline => ⟨(headLines_other line hline).newline,
      (headLines_other line hline).ne_openingTag⟩
  have hclosing : ∀ rest, beforeEnd ("</script>".toList ++ rest) = some [] := by
    intro rest
    rfl
  rw [scriptText, toList_page, List.cons_append, behind_append_of_not_mem hfirst,
    behind_lines hopening hhead, Option.bind_some, ← holdsEnd_dropEnd script.toList]
  generalize Text.dropEnd (· = '\n') script.toList = kept
  constructor
  · -- With a tag inside, the script ends before the tag and so is too short.
    intro hwhole
    rw [Bool.eq_false_iff]
    intro hholds
    obtain ⟨front, hfront, hlength⟩ := beforeEnd_of_holdsEnd hholds
      ('\n' :: ("</script>".toList ++ trailing ["</body>", "</html>", ""]))
    rw [hfront, Option.some.injEq] at hwhole
    rw [hwhole, List.length_append] at hlength
    omega
  · intro hnone
    rw [beforeEnd_over hnewline hnone, hclosing, Option.map_some]

end Script

open Script

/-- A text that is parsed and checked without errors compiles, here with its program's literals. -/
theorem exists_output {content : String} {values : List String} (name : String)
    (h : (parse (tokenize content)).toOption.map (fun parsed =>
      (parsed.1.literals, parsed.2.length, (analyze parsed.1).toOption.map List.length)) =
        some (values, 0, some 0)) :
    ∃ c script, compile name content = .ok c ∧ c.output = some script ∧
      c.program.literals = values := by
  obtain ⟨p, syntaxErrors, script, hparse, hnative, hgenerate⟩ := exists_parsed content
  have hanalyze := analyze_eq_ok hnative
  obtain ⟨c, hcompile, -, -, hreports⟩ :=
    Compilation.ofSource_reports ⟨name, content⟩ hparse hanalyze hgenerate
  rw [hparse] at h
  simp only [Except.toOption, Option.map_some, Option.some.injEq, Prod.mk.injEq, hanalyze,
    List.length_eq_zero_iff] at h
  obtain ⟨hvalues, hgrammar, hnaming⟩ := h
  have hstage := hreports.generated.mpr ⟨hgrammar, hnaming⟩
  obtain ⟨-, houtput, -⟩ := hreports.withScript hstage
  have hprogram := (Compilation.parse_and_generate_of_output hcompile houtput).1
  rw [hparse, Except.ok.injEq, Prod.mk.injEq] at hprogram
  exact ⟨c, script, hcompile, houtput, hprogram.1 ▸ hvalues⟩

/-- The page of a program that compiles holds the whole script just if none of the program's strings
    and colours holds the end of a script element: only then is the first such end behind the line
    that opens the script the page's own, and the text before it the script without the newlines at
    its end. -/
theorem preview_whole_iff {name content : String} {c : Compilation} {script : String}
    (hcompile : compile name content = .ok c) (houtput : c.output = some script) :
    scriptText (page script defaultTitle) =
        some (Text.dropEnd (· = '\n') script.toList ++ ['\n']) ↔
      ∀ value ∈ c.program.literals, holdsEnd value.toList = false := by
  obtain ⟨hparse, hgenerate⟩ := Compilation.parse_and_generate_of_output hcompile houtput
  have hbody := (parse_tokenize_from hparse).1
  rw [scriptText_page, Bool.eq_false_iff, ne_eq, generate_holdsEnd hgenerate hbody, AnyEnd]
  simp

/-- Other tags, parts of an end, and comparisons do no harm. -/
theorem preview_whole_iff_sample :
    let content := "let s = \"<b></scrip\"\nlet t = s < \"t\""
    ∃ c script, compile "a" content = .ok c ∧ c.output = some script ∧
      c.program.literals = ["<b></scrip", "t"] ∧
      scriptText (page script defaultTitle) =
        some (Text.dropEnd (· = '\n') script.toList ++ ['\n']) := by
  intro content
  obtain ⟨c, script, hcompile, houtput, hliterals⟩ :=
    @exists_output content ["<b></scrip", "t"] "a" (by decide +kernel)
  refine ⟨c, script, hcompile, houtput, hliterals, (preview_whole_iff hcompile houtput).mpr ?_⟩
  rw [hliterals]
  decide

/-- A string that ends the script: the page of this program holds a part of its script only. -/
theorem preview_cut_short :
    let content := "let s = \"</script>\""
    ∃ c script, compile "a" content = .ok c ∧ c.output = some script ∧
      ¬scriptText (page script defaultTitle) =
        some (Text.dropEnd (· = '\n') script.toList ++ ['\n']) := by
  intro content
  obtain ⟨c, script, hcompile, houtput, hliterals⟩ :=
    @exists_output content ["</script>"] "a" (by decide +kernel)
  obtain ⟨hparse, hgenerate⟩ := Compilation.parse_and_generate_of_output hcompile houtput
  have hholds := (generate_holdsEnd hgenerate (parse_tokenize_from hparse).1).mpr
    ⟨"</script>", by rw [hliterals]; exact List.mem_singleton_self _, by decide⟩
  refine ⟨c, script, hcompile, houtput, ?_⟩
  rw [scriptText_page, hholds]
  decide

end Storyboard
