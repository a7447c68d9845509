/-
  Storyboard.Proofs.Compile.Strings

  Strings keep their values from the source to the script.

  In a source a quote is written with a backslash before it, and every other character
  as it is. `string_survives` follows one string through all stages: it is one token,
  the binding compiles without errors, and the script's only line for it ends with a
  literal that is read as the same string. The last character must not be a backslash,
  as that would keep the closing quote from closing.
-/
import Storyboard.Proofs.Compile.Totality
import Storyboard.Proofs.Parse.RoundTrip
import Storyboard.Proofs.Scope.Sense
import Storyboard.Proofs.Script.Sense
import Storyboard.Proofs.Script.StmtLayout
import Storyboard.Proofs.Text.Decoding
import Storyboard.Proofs.Token.Respelling

namespace Storyboard

-- ============================================================================
-- Strings in a source
-- ============================================================================

/-- The source that binds the name `s` to a string. -/
def stringBinding (value : String) : String :=
  "let s = \"" ++ String.ofList (value.toList.flatMap sourceChar) ++ "\""

/-- A string is one token, and so is each other word of its binding. -/
theorem words_stringBinding {value : String} (h : value.toList.getLast? ≠ some '\\') :
    (tokenize (stringBinding value)).map Token.word =
      [.keyword (.statement .letWord), .name "s", .equals, ⟨.string, value⟩, ⟨.endOfInput, ""⟩] := by
  -- The content stays closed: all that is used of it is how it reads and that no backslash ends it.
  generalize hcontent : value.toList.flatMap sourceChar = content
  have hquoted : Lexical.Quoted content value.toList :=
    hcontent ▸ Lexical.quoted_sourceChars value.toList
  have hlast : content.getLast? ≠ some '\\' := hcontent ▸ Lexical.getLast?_sourceChars h
  have hstring := Lexical.front_closedString hquoted hlast []
  have hlet : Lexical.Spells ['l', 'e', 't'] (.statement .letWord) := by
    unfold Lexical.Spells
    decide
  have hname : ∀ keyword, ¬Lexical.Spells ['s'] keyword := by
    intro keyword hspells
    have htable : Keyword.spellings.all (fun entry => entry.1 != "s") = true := by decide
    exact absurd (List.all_eq_true.mp htable _ hspells) (by simp)
  have hassign {rest : List Char} : Lexical.Form ['='] rest .assign ['='] := .mark (by decide)
  have hchars : (stringBinding value).toList = [] ++ (['l', 'e', 't'] ++ ([' '] ++ (['s'] ++
      ([' '] ++ (['='] ++ ([' '] ++ ('\x22' :: (content ++ ['\x22']) ++ []))))))) := by
    simp [stringBinding, hcontent]
  -- Each word with the gap before it is scanned off the front, from left to right.
  rw [tokenize, Scanner.ofText, hchars,
    Lexical.tokens_of_form rfl (.keyword rfl (List.all_eq_true.mp rfl) hlet) rfl,
    Lexical.tokens_of_form rfl (.identifier rfl (List.all_eq_true.mp rfl) hname) rfl,
    Lexical.tokens_of_form rfl hassign rfl,
    Lexical.tokens_of_form rfl (.closedString hquoted hlast) hstring,
    Lexical.tokens_of_end rfl]
  simp only [List.map_cons, List.map_nil, Token.word, String.ofList_toList]
  rfl

-- ============================================================================
-- Through the stages
-- ============================================================================

/-- A newline behind the last word is not needed. -/
theorem Parse.Laid.append_newline {afterNewline : Bool} {words : List Word} {w : List Parse.Item}
    (h : Parse.Laid afterNewline words w) : Parse.Laid afterNewline (words ++ [.newline]) w := by
  induction h with
  | nil => exact .newline rfl .nil
  | newline hkind _ ih => exact .newline hkind ih
  | item hkind hword hline _ ih => exact .item hkind hword hline ih

/-- A printed program that is not too high is parsed from its items. -/
theorem parse_of_laid {spell : Binary64 → String} {p : Program} (hprint : p.printable spell = true)
    (hheight : p.height ≤ 20) {tokens : List Token}
    (hlaid : Parse.Laid false (p.words spell) (written tokens)) :
    ∃ q, parse tokens = .ok (q, []) ∧ q.bare = p.bare := by
  obtain ⟨next, later, hitems, hend⟩ := Parse.Cursor.items_eq_written tokens
  obtain ⟨body, t, hrun, _, herrors, hbody⟩ | ⟨hno, -⟩ :=
    Parse.statements_takes_of_laid hprint hlaid (.ofTokens tokens) next later
      (Parse.Cursor.closed_ofTokens tokens) hitems (by simp [Parse.endsBody, hend])
  · refine ⟨⟨body, .start⟩, ?_, by simp only [Program.bare, hbody]⟩
    unfold parse Parse.program Parse.programAt
    rw [Parse.bind_of_ok hrun]
    exact congrArg (fun errors => Except.ok (Program.mk body .start, errors)) herrors
  · exact absurd hheight hno

/-- The tree of the binding. -/
def stringTree (value : String) : Program :=
  ⟨[.binding ⟨"s", .start⟩ (.string value .start) .start], .start⟩

theorem parse_stringBinding {value : String} (h : value.toList.getLast? ≠ some '\\') :
    ∃ q, parse (tokenize (stringBinding value)) = .ok (q, []) ∧ q.bare = stringTree value := by
  have hfront : ((tokenize (stringBinding value)).takeWhile
      fun token => token.kind ≠ .endOfInput).map Token.word =
        [.keyword (.statement .letWord), .name "s", .equals, ⟨.string, value⟩] := by
    have hsplit := List.takeWhile_map (f := Token.word)
      (p := fun word => decide (word.kind ≠ .endOfInput)) (l := tokenize (stringBinding value))
    rw [words_stringBinding h] at hsplit
    exact hsplit.symm
  have hlaid := Parse.laid_markLines false
    ((tokenize (stringBinding value)).takeWhile fun token => token.kind ≠ .endOfInput)
  rw [hfront] at hlaid
  have hheight : (stringTree value).height = 2 := rfl
  exact @parse_of_laid (fun _ => "") (stringTree value) rfl (by omega) _ hlaid.append_newline

/-- The script of the binding: behind the preamble, one line in the main function. -/
theorem generate_stringTree (value : String) :
    generate (stringTree value) = .ok (Script.preamble ++
      "// Main program\n(function main() \x7b\n" ++
        ("  var s = " ++ Text.literal value ++ ";\n") ++ "\x7d)();\n") := by
  have hrun : generate (stringTree value) = .ok (Script.preamble ++ Script.Draft.text ⟨
      [Script.margin 0 ++ "// Main program", Script.margin 0 ++ "(function main() \x7b",
        Script.margin 1 ++ ("var " ++ Script.userName "s" ++ " = " ++ Text.literal value ++ ";"),
        Script.margin 0 ++ "\x7d)();"], 0, 0, []⟩) := rfl
  have hname : Script.userName "s" = "s" := by decide
  have hmargins : Script.margin 0 = "" ∧ Script.margin 1 = "  " := by decide
  rw [hrun, Script.Draft.text_eq_closed (by simp)]
  simp only [Script.closed_cons, hname, hmargins]
  refine congrArg (fun text => Except.ok text) (String.toList_inj.mp ?_)
  simp [Script.closed]

/-- Strings survive compilation. A string that does not end with a backslash, bound to a name in a
    source, is one token with its value. The binding compiles, and the main function of the script
    is one line, which ends with a literal of printable ASCII characters that is read as the string
    and as nothing more. -/
theorem string_survives (name value : String) (h : value.toList.getLast? ≠ some '\\') :
    (tokenize (stringBinding value)).map Token.word =
        [.keyword (.statement .letWord), .name "s", .equals, ⟨.string, value⟩,
          ⟨.endOfInput, ""⟩] ∧
      ∃ c literal, compile name (stringBinding value) = .ok c ∧ c.succeeded = true ∧
        c.log.entries = [] ∧
        c.output = some (Script.preamble ++ "// Main program\n(function main() \x7b\n" ++
          ("  var s = " ++ literal ++ ";\n") ++ "\x7d)();\n") ∧
        (∀ d ∈ literal.toList, ' ' ≤ d ∧ d ≤ '~') ∧
        Text.readLiteral? literal.toList = some (value.toList, []) := by
  refine ⟨words_stringBinding h, ?_⟩
  obtain ⟨q, hparse, hbare⟩ := parse_stringBinding h
  have hnative := (parse_ok hparse).1
  have hanalyze : analyze q = .ok [] := by
    have hclean : analyze (stringTree value) = .ok [] := rfl
    have hsame := length_analyze_eq (by rw [hbare]; rfl) (analyze_eq_ok hnative) hclean
    rw [analyze_eq_ok hnative, List.eq_nil_of_length_eq_zero hsame]
  have hgenerate := generate_bare hnative
  rw [hbare, generate_stringTree] at hgenerate
  obtain ⟨c, hcompile, -, -, hreports⟩ :=
    Compilation.ofSource_reports ⟨name, stringBinding value⟩ hparse hanalyze hgenerate.symm
  have hstage := hreports.generated.mpr ⟨rfl, rfl⟩
  obtain ⟨hlog, houtput, -⟩ := hreports.withScript hstage
  refine ⟨c, Text.literal value, hcompile, by simp [Compilation.succeeded, hstage], hlog, houtput,
    Text.printable_of_mem_literal value, ?_⟩
  have hread := Text.readLiteral?_literal value []
  rwa [List.append_nil] at hread

/-- A quote, a backslash before a letter and before a quote, a line end, a line separator and a
    character beyond the first plane. -/
theorem string_survives_sample :
    let value := "\"\\n\\\"\n\u2028😀"
    value.toList.getLast? ≠ some '\\' ∧
      stringBinding value = "let s = \"\\\"\\n\\\\\"\n\u2028😀\"" ∧
      ∃ c literal, compile "a.mflow" (stringBinding value) = .ok c ∧ c.succeeded = true ∧
        c.output = some (Script.preamble ++ "// Main program\n(function main() \x7b\n" ++
          ("  var s = " ++ literal ++ ";\n") ++ "\x7d)();\n") ∧
        Text.readLiteral? literal.toList = some (value.toList, []) := by
  intro value
  have hlast : value.toList.getLast? ≠ some '\\' := by decide
  obtain ⟨-, c, literal, hcompile, hsucceeded, -, houtput, -, hread⟩ :=
    string_survives "a.mflow" value hlast
  exact ⟨hlast, by decide +kernel, c, literal, hcompile, hsucceeded, houtput, hread⟩

end Storyboard
