/-
  Storyboard.Script.Program

  Whole scripts: a preamble with the canvas, the state of the animation and the
  routines that every script uses, and then the statements of the program in a
  function of their own.
-/
import Storyboard.Script.Stmt

namespace Storyboard.Script

/-- The id of the canvas in the page. -/
def canvasId : String := "mflow-canvas"

/-- What every script begins with. -/
def preamble : String :=
  "\n".intercalate
    ["// MFlow compiled output",
     "const canvas = document.getElementById(\"" ++ canvasId ++ "\");",
     "const ctx = canvas.getContext(\"2d\");",
     "",
     "// Animation state",
     "let animationState = \x7b",
     "  x: 0,",
     "  y: 0,",
     "  rotation: 0,",
     "  scale: 1,",
     "  opacity: 1",
     "\x7d;",
     "",
     "// Helper functions",
     "function resetTransform() \x7b",
     "  ctx.setTransform(1, 0, 0, 1, 0, 0);",
     "\x7d",
     "",
     "function applyTransform(x, y) \x7b",
     "  ctx.translate(x + animationState.x, y + animationState.y);",
     "  ctx.rotate(animationState.rotation * Math.PI / 180);",
     "  ctx.scale(animationState.scale, animationState.scale);",
     "  ctx.globalAlpha = animationState.opacity;",
     "\x7d",
     "",
     "// Clear canvas",
     "function clear() \x7b",
     "  resetTransform();",
     "  ctx.clearRect(0, 0, canvas.width, canvas.height);",
     "\x7d",
     "",
     ""]

/-- Writes the statements of a program into a function that is called at once. -/
def mainFunction (body : List Stmt) : Writer Unit := do
  emit "// Main program"
  emit "(function main() \x7b"
  deeper (each body)
  emit "\x7d)();"

/-- The text of the lines written so far, each closed by a newline. -/
def Draft.text (d : Draft) : String :=
  let body := "\n".intercalate d.lines
  if body = "" then "" else body ++ "\n"

/-- Writes a whole script into a fresh draft, whatever was written before. A program without
    statements is just the preamble. -/
def program (p : Program) : Writer String := do
  set Draft.fresh
  if !p.body.isEmpty then mainFunction p.body
  return preamble ++ (← get).text

end Storyboard.Script

namespace Storyboard

/-- The script of a program, or the foreign value in it that has none. -/
def generate (p : Program) : Except Foreign String :=
  match Script.program p .fresh with
  | .ok text _ => .ok text
  | .error value _ => .error value

end Storyboard
