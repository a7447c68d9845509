/-
  Storyboard.Script.Name

  Names in scripts. A name of the program that a script cannot use, or that would
  hide something the script itself relies on, gets a mark at its end. The mark is
  no character of a name, so marked names never meet others.
-/

namespace Storyboard.Script

/-- Names that the script uses itself, and words that it cannot use as names. -/
def reservedNames : List String :=
  ["canvas", "ctx", "animationState", "resetTransform", "applyTransform", "clear", "main",
   "document", "window", "Math", "requestAnimationFrame", "undefined", "NaN", "Infinity",
   "arguments", "eval",
   "break", "case", "catch", "class", "const", "continue", "debugger", "default", "delete", "do",
   "else", "enum", "export",
   "extends", "false", "finally", "for", "function", "if", "import", "in", "instanceof", "let",
   "new", "null", "return",
   "static", "super", "switch", "this", "throw", "true", "try", "typeof", "var", "void", "while",
   "with", "yield", "await",
   "implements", "interface", "package", "private", "protected", "public"]

/-- How the names begin that the script makes up. -/
def generatedHeads : List String := ["__", "animate_", "scene_"]

/-- Whether a text begins with another. -/
def beginsWith (head text : String) : Bool := head.toList.isPrefixOf text.toList

/-- Whether a name of the program has to be marked. -/
def needsMark (name : String) : Bool :=
  reservedNames.contains name || generatedHeads.any fun head => beginsWith head name

/-- A name of the program as it stands in the script. -/
def userName (name : String) : String := if needsMark name then name ++ "$" else name

/-- The candidates for the name of a routine: the base, then the base with a number. -/
def candidate (base : String) : Nat → String
  | 0 => base
  | n + 1 => base ++ "_" ++ toString (n + 2)

/-- The first candidate that is not taken. Among one more candidates than there are names taken
    there is one. -/
def freshName (taken : List String) (base : String) : String :=
  let candidates := (List.range (taken.length + 1)).map (candidate base)
  (candidates.find? fun name => !taken.contains name).getD base

end Storyboard.Script
