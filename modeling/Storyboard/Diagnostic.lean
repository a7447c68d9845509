/-
  Storyboard.Diagnostic

  Diagnostics: what is wrong, where, and a hint. A diagnostic is shown as a
  summary line, the line of the source with a caret under the column, and the
  hint. Each stage has its own error type and turns it into a diagnostic here.
-/
import Storyboard.Source.Text
import Storyboard.Text.Basic

namespace Storyboard

/-- Which rules were broken: those of the grammar, those of names, or the compiler's own. -/
inductive Category where
  | grammar
  | naming
  | internal
  deriving DecidableEq, Inhabited

/-- The category as it stands in messages. -/
def Category.describe : Category → String
  | .grammar => "Syntax"
  | .naming => "Semantic"
  | .internal => "Internal"

/-- One message about a source text. -/
structure Diagnostic where
  category : Category
  text : String
  location : Option Location
  hint : Option String
  deriving DecidableEq, Inhabited

namespace Diagnostic

/-- The message on one line. -/
def summary (d : Diagnostic) : String :=
  let place := match d.location with
    | some location => " at " ++ location.describe
    | none => ""
  d.category.describe ++ " error" ++ place ++ ": " ++ d.text

/-- The line of the source that a place is on, with a caret under the column. A line of blanks
    only is not shown. A tab shows as one space, as it counts for one column. -/
def excerpt (source : SourceText) (location : Location) : List String :=
  let line := Text.dropEnd (· = '\r') (source.line location.line).toList
  if line.all Text.isBlank then []
  else
    let shown := line.map fun c => if c = '\t' then ' ' else c
    let pad := List.replicate (location.column - 1).toNat ' '
    ["    " ++ String.ofList shown, "    " ++ String.ofList pad ++ "^"]

/-- The hint, unless it is empty. -/
def hintLines (d : Diagnostic) : List String :=
  match d.hint with
  | some hint => if hint = "" then [] else ["    hint: " ++ hint]
  | none => []

/-- The summary, the excerpt if a source and a place are known, and the hint. -/
def render (source : Option SourceText) (d : Diagnostic) : String :=
  let shown := match source, d.location with
    | some source, some location => excerpt source location
    | _, _ => []
  "\n".intercalate (d.summary :: shown ++ d.hintLines)

end Diagnostic

/-- The diagnostics of one source, in the order in which they were found. -/
structure Log where
  source : Option SourceText
  entries : List Diagnostic
  deriving Inhabited

namespace Log

/-- A log with nothing in it. -/
def empty (source : Option SourceText) : Log := ⟨source, []⟩

/-- Adds diagnostics at the end. -/
def append (log : Log) (found : List Diagnostic) : Log :=
  { log with entries := log.entries ++ found }

/-- Whether anything was found. -/
def hasErrors (log : Log) : Bool := !log.entries.isEmpty

/-- A diagnostic with the lines of the log's source. -/
def render (log : Log) (d : Diagnostic) : String := d.render log.source

end Log

end Storyboard
