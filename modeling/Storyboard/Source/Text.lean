/-
  Storyboard.Source.Text

  A source text under a name, seen as a list of lines.
-/
import Storyboard.Source.Location
import Storyboard.Text.Basic

namespace Storyboard

/-- A source text and what it is called. -/
structure SourceText where
  name : String
  content : String
  deriving DecidableEq, Inhabited

namespace SourceText

/-- The lines of the text; a text has at least one. -/
def lines (source : SourceText) : List String := Text.lines source.content

/-- The line of a number counted from one, and nothing for a number out of range. -/
def line (source : SourceText) (number : Int) : String :=
  if 1 ≤ number then (source.lines[(number - 1).toNat]?).getD "" else ""

end SourceText

end Storyboard
