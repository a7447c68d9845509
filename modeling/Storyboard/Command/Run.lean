/-
  Storyboard.Command.Run

  The command: what it does with its arguments. It checks the built-in table, or
  compiles a text: a file, the text given as an argument, or the sample. The
  script, and on request the page and the tree, go to the output directory; after
  an error nothing is written there.
-/
import Storyboard.Command.Arguments
import Storyboard.Command.Files
import Storyboard.Script.Page
import Storyboard.SelfCheck.Table
import Storyboard.Tree.Outline

namespace Storyboard.Command

/-! ## Help -/

/-- How the command is called. -/
def usage : String :=
  "usage: mflow [-h] [--test] [--code CODE] [--input INPUT]\n" ++
  "             [--output-dir OUTPUT_DIR] [--html] [--ast] [-q]\n"

/-- What the switches are for. -/
def helpText : String :=
  usage ++
  "\n" ++
  "MFlow DSL Compiler\n" ++
  "\n" ++
  "options:\n" ++
  "  -h, --help            show this help message and exit\n" ++
  "  --test                run the built-in self-check table\n" ++
  "  --code CODE           source text to compile\n" ++
  "  --input INPUT         source file to compile\n" ++
  "  --output-dir OUTPUT_DIR\n" ++
  "  --html                also write preview.html\n" ++
  "  --ast                 also write ast.json\n" ++
  "  -q, --quiet           only report errors\n"

/-! ## What is written -/

/-- The path of a file in a directory. -/
def inDirectory (directory file : String) : String :=
  if directory.toList.getLast?.all (· = '/') then directory ++ file else directory ++ "/" ++ file

/-- The files of a successful compilation: the script, and on request the page and the tree. -/
def artifacts (settings : Settings) (script : String) (p : Program) : List (String × String) :=
  ("output.js", script) ::
    (if settings.html then [("preview.html", Script.page script Script.defaultTitle)] else []) ++
    (if settings.ast then [("ast.json", p.outline.render)] else [])

/-! ## The command -/

section

variable {m : Type → Type} [Monad m] [Host m]

/-- Checks the built-in table. -/
def runTable : m UInt32 := do
  match SelfCheck.run SelfCheck.table with
  | .ok summary =>
    Host.print summary.text
    return if summary.failed = 0 then 0 else 1
  | .error _ => return 1

/-- The text to compile and its name. A file counts before a text, an empty file name counts as
    none. There is nothing to compile if the switch for a text got none. -/
def chooseSource (settings : Settings) : m (Option SourceText) := do
  match settings.input with
  | some path =>
    if path = "" then return givenSource
    else
      let content ← Host.readText path
      return some ⟨path, String.ofList (Text.withNewlines content.toList)⟩
  | none => return givenSource
where
  /-- The text given as an argument, or the sample. -/
  givenSource : Option SourceText :=
    match settings.code with
    | some code => code.map (⟨"<code>", ·⟩)
    | none => some ⟨"<sample>", SelfCheck.sampleSource⟩

/-- Writes the files of a successful compilation. -/
def save (settings : Settings) (script : String) (p : Program) : m Unit := do
  match settings.outputDir with
  | none => Host.stop .noDirectory
  | some directory =>
    Host.makeDirectories directory
    for (file, content) in artifacts settings script p do
      Host.writeText (inDirectory directory file) content
    if !settings.quiet then Host.print ("\n✓ Output saved to " ++ directory ++ "/\n")

/-- Compiles a text, reports, and writes what came of it. -/
def compileWith (settings : Settings) (source : SourceText) : m UInt32 := do
  match Compilation.ofSource source with
  | .error _ => return 1
  | .ok c =>
    if !settings.quiet then Host.print c.report
    match c.output with
    | some script =>
      save settings script c.program
      return 0
    | none =>
      if settings.quiet then Host.printError (Compilation.closeLines c.rendered)
      return 1

/-- Does what the arguments ask for, and gives the exit code. -/
def run (arguments : List String) : m UInt32 := do
  match parseArguments arguments with
  | .error e =>
    Host.printError (usage ++ "mflow: error: " ++ e.text ++ "\n")
    return 2
  | .ok .help =>
    Host.print helpText
    return 0
  | .ok (.run settings) =>
    if settings.test then runTable
    else
      match ← chooseSource settings with
      | some source => compileWith settings source
      | none =>
        if !settings.quiet then Host.print Compilation.banner
        Host.stop .noSource

end

end Storyboard.Command
