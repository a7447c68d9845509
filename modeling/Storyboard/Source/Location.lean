/-
  Storyboard.Source.Location

  A place in a source text: line and column, both counted from one in code
  points. A tab is one column. Places are plain integers, since a token or a
  message may be made by hand with any numbers.
-/

namespace Storyboard

/-- A line and a column. -/
structure Location where
  line : Int
  column : Int
  deriving DecidableEq, Inhabited

namespace Location

/-- Where a text begins. -/
def start : Location := ⟨1, 1⟩

/-- The place as it stands in messages. -/
def describe (location : Location) : String :=
  s!"line {location.line}, column {location.column}"

end Location

end Storyboard
