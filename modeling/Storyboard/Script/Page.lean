/-
  Storyboard.Script.Page

  The page that shows a script.
-/
import Storyboard.Script.Program

namespace Storyboard.Script

/-- Width and height of the canvas in the page. -/
def pageSize : Nat × Nat := (500, 500)

/-- The title of a page that is given none. -/
def defaultTitle : String := "MFlow preview"

/-- A page with a canvas and the script, without newlines at the script's end. -/
def page (script title : String) : String :=
  let (width, height) := pageSize
  "\n".intercalate
    ["<!DOCTYPE html>",
     "<html>",
     "<head>",
     "<meta charset=\"utf-8\">",
     "<title>" ++ title ++ "</title>",
     "<style>body\x7bmargin:0;background:#111;display:flex;justify-content:center;" ++
       "align-items:center;height:100vh\x7dcanvas\x7bbackground:#000\x7d</style>",
     "</head>",
     "<body>",
     "<canvas id=\"" ++ canvasId ++ "\" width=\"" ++ toString width ++ "\" height=\"" ++
       toString height ++ "\"></canvas>",
     "<script>",
     String.ofList (Text.dropEnd (· = '\n') script.toList),
     "</script>",
     "</body>",
     "</html>",
     ""]

end Storyboard.Script
