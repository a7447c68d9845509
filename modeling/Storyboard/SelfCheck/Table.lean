/-
  Storyboard.SelfCheck.Table

  The built-in table of the self-check, and the program that is compiled when no
  other is given.
-/
import Storyboard.SelfCheck

namespace Storyboard.SelfCheck

/-- The program that is compiled when no other is given. -/
def sampleSource : String :=
  "// Complex scene\n" ++
  "scene main \x7b\n" ++
  "  circle at (150, 150) size 40 color #00FFFF\n" ++
  "  rect at (350, 150) width 60 height 60 color #FF00FF\n" ++
  "  triangle (250, 300) (200, 400) (300, 400) color #FFFF00\n" ++
  "\n" ++
  "  animate \x7b\n" ++
  "    move 1 right\n" ++
  "    rotate 0.5\n" ++
  "  \x7d\n" ++
  "\x7d\n"

/-- Valid programs of one kind each. -/
def basicCases : List Case :=
  [⟨"Basic: Empty program", "", true, [.excludes ["function main"]]⟩,
   ⟨"Basic: Only comments", "// nothing to draw", true, [.excludes ["function main"]]⟩,
   ⟨"Basic: Single circle", "circle at (200, 200) size 50 color #00FFFF", true,
    [.contains ["ctx.arc(0, 0, __size, 0, Math.PI * 2);", "const __color = \"#00FFFF\";"]]⟩,
   ⟨"Basic: Rect centered", "rect at (400, 200) width 80 height 80 color #FF00FF", true,
    [.contains ["ctx.fillRect(-__w / 2, -__h / 2, __w, __h);"]]⟩,
   ⟨"Basic: Line", "line (0, 0) (100, 100) color #FFFFFF", true,
    [.contains ["const __x2 = 100;", "ctx.moveTo(__x1, __y1);", "ctx.lineTo(__x2, __y2);",
      "ctx.stroke();"]]⟩,
   ⟨"Basic: Triangle", "triangle (250, 300) (200, 400) (300, 400) color #FFFF00", true,
    [.contains ["const __x1 = 250;", "const __y3 = 400;", "ctx.moveTo(__x1, __y1);",
      "ctx.lineTo(__x2, __y2);", "ctx.lineTo(__x3, __y3);", "ctx.closePath();"]]⟩,
   ⟨"Basic: Sample program", sampleSource, true, [.contains ["function scene_main() \x7b"]]⟩]

/-- Bindings and where they can be seen. -/
def bindingCases : List Case :=
  [⟨"Vars: Let binding", "let x = 100", true, [.contains ["var x = 100;"]]⟩,
   ⟨"Vars: Use after let", "let r = 10\ncircle at (r, r) size r color #000", true,
    [.contains ["const __size = r;"]]⟩,
   ⟨"Vars: Undefined", "let x = y", false,
    [.stage .semanticFailed, .errorCount 1, .errorContains "Undefined variable 'y'"]⟩,
   ⟨"Vars: Self reference", "let x = x", false,
    [.stage .semanticFailed, .errorCount 1, .errorContains "Undefined variable 'x'"]⟩,
   ⟨"Vars: Duplicate global", "let a = 1\nlet a = 2", false,
    [.stage .semanticFailed, .errorContains "Variable 'a' is already declared"]⟩,
   ⟨"Vars: Case preserved", "let Size2 = 3\nlet other = Size2", true,
    [.contains ["var other = Size2;"]]⟩,
   ⟨"Vars: Keywords ignore case", "let SIZE = 3", false,
    [.stage .syntaxFailed, .errorContains "Expected variable name"]⟩,
   ⟨"Vars: Errors are exhaustive", "let a = b\nlet c = d + e", false, [.errorCount 3]⟩]

/-- Operators, numbers, strings and colours. -/
def expressionCases : List Case :=
  [⟨"Expr: Precedence", "let a = 1 + 2 * 3", true, [.contains ["var a = (1 + (2 * 3));"]]⟩,
   ⟨"Expr: Left associative", "let a = 10 - 4 - 3", true, [.contains ["var a = ((10 - 4) - 3);"]]⟩,
   ⟨"Expr: Parentheses", "let a = (1 + 2) * 3", true, [.contains ["var a = ((1 + 2) * 3);"]]⟩,
   ⟨"Expr: Comparison lowest", "let a = 1 + 1 == 2", true,
    [.contains ["var a = ((1 + 1) == 2);"]]⟩,
   ⟨"Expr: Comparison does not chain", "let a = 1 < 2 < 3", false, [.stage .syntaxFailed]⟩,
   ⟨"Expr: Modulo", "let a = 7 % 3", true, [.contains ["var a = (7 % 3);"]]⟩,
   ⟨"Expr: Decimal", "let a = 0.5", true, [.contains ["var a = 0.5;"]]⟩,
   ⟨"Expr: Trailing dot", "let a = 1.", true, [.contains ["var a = 1;"]]⟩,
   ⟨"Expr: Second dot ends number", "let a = 1.2.3", false, [.stage .syntaxFailed]⟩,
   ⟨"Expr: Escaped quote", "let s = \"hi \\\"there\\\"\"", true,
    [.contains ["var s = \"hi \\\"there\\\"\";"]]⟩,
   ⟨"Expr: Unterminated string", "let s = \"open", true, [.contains ["var s = \"open\";"]]⟩,
   ⟨"Expr: Bare hash color", "let c = #", true, [.contains ["var c = \"#\";"]]⟩]

/-- Functions, parameters and calls. -/
def functionCases : List Case :=
  [⟨"Fn: Declare and call", "fn grow(r) \x7b\n  return r * 2\n\x7d\nlet big = grow(10)", true,
    [.contains ["function grow(r) \x7b", "return (r * 2);", "var big = grow(10);"]]⟩,
   ⟨"Fn: Forward call", "let v = twice(2)\nfn twice(n) \x7b\n  return n + n\n\x7d", true, []⟩,
   ⟨"Fn: Duplicate local", "fn f()\x7b let a = 1 let a = 2 \x7d", false,
    [.stage .semanticFailed, .errorCount 1, .errorContains "Variable 'a' is already declared"]⟩,
   ⟨"Fn: Parameters are local", "fn f(p) \x7b\n  return p\n\x7d\nlet q = p", false,
    [.errorContains "Undefined variable 'p'"]⟩,
   ⟨"Fn: Shadowing allowed", "let a = 1\nfn f() \x7b\n  let a = 2\n  return a\n\x7d", true, []⟩,
   ⟨"Fn: Duplicate parameter", "fn f(a, a) \x7b\n\x7d", false, [.errorContains "Parameter 'a'"]⟩,
   ⟨"Fn: Duplicate function", "fn f() \x7b\n\x7d\nfn f() \x7b\n\x7d", false,
    [.errorContains "Function 'f'"]⟩,
   ⟨"Fn: Bare return", "fn f() \x7b\n  return\n\x7d", true, [.contains ["return;"]]⟩,
   ⟨"Fn: Shape argument",
    "fn draw(s) \x7b\n  return s\n\x7d\ndraw(circle at (1, 1) size 2 color #000)", true,
    [.contains ["draw((function() \x7b"]]⟩,
   ⟨"Fn: Missing parenthesis", "fn f \x7b\n\x7d", false,
    [.stage .syntaxFailed, .errorContains "Expected ( after function name"]⟩]

/-- Branches and loops. -/
def controlCases : List Case :=
  [⟨"If: Body shares scope",
    "fn f() \x7b\n  if 1 == 1 \x7b\n    let a = 1\n  \x7d\n  return a\n\x7d", true,
    []⟩,
   ⟨"If: Else branch",
    "let c = 1\nif c > 0 \x7b\n  circle at (0, 0) size 1 color #fff" ++
      "\n\x7d else \x7b\n  let d = c\n\x7d", true,
    [.contains ["if (c > 0) \x7b", "\x7d else \x7b"]]⟩,
   ⟨"If: Else if", "let c = 1\nif c == 0 \x7b\n\x7d else if c == 1 \x7b\n\x7d", true,
    [.contains ["if (c == 1) \x7b"]]⟩,
   ⟨"If: Identifier condition", "let c = 1\nif c \x7b\n\x7d", true, [.contains ["if (c) \x7b"]]⟩,
   ⟨"Repeat: Counted loop", "repeat 3 \x7b circle at (0,0) size 1 color #000000 \x7d", true,
    [.contains ["for (let __i0 = 0, __n0 = 3; __i0 < __n0; __i0++) \x7b"]]⟩,
   ⟨"Repeat: Nested loops", "repeat 2 \x7b\n  repeat 3 \x7b\n  \x7d\n\x7d", true,
    [.contains ["__n0 = 2", "__n1 = 3"]]⟩,
   ⟨"Repeat: Body shares scope", "let x = 100\nrepeat 5 \x7b\n  let x = x + 80\n\x7d", false,
    [.stage .semanticFailed, .errorContains "already declared"]⟩]

/-- Animation commands. -/
def animationCases : List Case :=
  [⟨"Animate: Move left", "animate \x7b move 5 left \x7d", true,
    [.contains ["animationState.x -= 5;"]]⟩,
   ⟨"Animate: Move down", "animate \x7b move 5 down \x7d", true,
    [.contains ["animationState.y += 5;"]]⟩,
   ⟨"Animate: Move up", "animate \x7b move 5 up \x7d", true,
    [.contains ["animationState.y -= 5;"]]⟩,
   ⟨"Animate: Default direction", "animate \x7b move 2 \x7d", true,
    [.contains ["animationState.x += 2;"]]⟩,
   ⟨"Animate: All commands", "animate \x7b\n  rotate 1\n  scale 1.01\n  fade 0.01\n\x7d", true,
    [.contains ["animationState.rotation += 1;", "animationState.scale *= 1.01;",
      "animationState.opacity -= 0.01;", "requestAnimationFrame(animate);", "animate();"]]⟩,
   ⟨"Animate: Magnitudes unchecked", "animate \x7b move speedy right \x7d", true,
    [.contains ["animationState.x += speedy;"]]⟩,
   ⟨"Animate: Other tokens skipped", "animate \x7b circle 42 move 1 up \x7d", true,
    [.contains ["animationState.y -= 1;"]]⟩,
   ⟨"Animate: Two blocks", "animate \x7b rotate 1 \x7d\nanimate \x7b rotate 2 \x7d", true,
    [.contains ["function animate_2() \x7b", "requestAnimationFrame(animate_2);"]]⟩,
   ⟨"Animate: Missing brace", "animate move 1", false,
    [.stage .syntaxFailed, .errorContains "Expected \x7b after animate"]⟩]

/-- Scenes. -/
def sceneCases : List Case :=
  [⟨"Scene: Wrapped and invoked", "scene intro \x7b\n  let a = 1\n\x7d", true,
    [.contains ["// Scene: intro", "function scene_intro() \x7b", "scene_intro();"]]⟩,
   ⟨"Scene: Own scope", "scene intro \x7b\n  let a = 1\n\x7d\nlet b = a", false,
    [.stage .semanticFailed, .errorContains "Undefined variable 'a'"]⟩,
   ⟨"Scene: Repeated name", "scene s \x7b\n\x7d\nscene s \x7b\n\x7d", true,
    [.contains ["function scene_s_2() \x7b"]]⟩]

/-- Syntax errors, and how reading goes on after them. -/
def recoveryCases : List Case :=
  [⟨"SyntaxErr: Missing size", "circle at (1,2) color #ABCDEF", false,
    [.stage .syntaxFailed, .errorContains "Expected \"size\" keyword"]⟩,
   ⟨"SyntaxErr: Clauses reordered", "circle at (1, 2) color #fff size 3", false,
    [.stage .syntaxFailed]⟩,
   ⟨"SyntaxErr: Missing at", "rect (0, 0) width 1 height 1 color #fff", false,
    [.errorContains "Expected \"at\" after rect"]⟩,
   ⟨"SyntaxErr: Illegal character", "let a = 1 @ 2", false,
    [.stage .syntaxFailed, .errorContains "Unexpected character '@'"]⟩,
   ⟨"SyntaxErr: Lone bang", "let a = !1", false, [.stage .syntaxFailed]⟩,
   ⟨"SyntaxErr: Stray brace", "\x7d", false, [.stage .syntaxFailed]⟩,
   ⟨"SyntaxErr: Unclosed block", "fn f() \x7b\n  let a = 1\n", false,
    [.errorContains "Expected \x7d after function body"]⟩,
   ⟨"SyntaxErr: Semantic skipped", "let a = nope\nlet = 1", false,
    [.stage .syntaxFailed, .errorCount 1]⟩,
   ⟨"Recovery: One error per line", "let = 1\nlet b = \nlet c = 3", false, [.errorCount 2]⟩,
   ⟨"Recovery: Inside block", "fn f() \x7b\n  let = 1\n  let b = 2\n\x7d\nlet c = 3", false,
    [.errorCount 1]⟩,
   ⟨"Recovery: Deep nesting",
    "let a = " ++ Text.copies 200 "(" ++ "1" ++ Text.copies 200 ")", false,
    [.stage .syntaxFailed, .errorCount 1, .errorContains "Nesting too deep"]⟩,
   ⟨"Recovery: Long else-if chain",
    "let c = 1\nif c == 0 \x7b\n\x7d" ++ Text.copies 600 " else if c == 1 \x7b\n\x7d", false,
    [.stage .syntaxFailed, .errorContains "Nesting too deep"]⟩,
   ⟨"Recovery: Long operator chain",
    "let a = " ++ " + ".intercalate (List.replicate 2000 "1"), false,
    [.stage .syntaxFailed, .errorCount 1, .errorContains "Nesting too deep"]⟩,
   ⟨"Recovery: Stops at block end", "fn f() \x7b let = 1 \x7d\nlet c = 3", false, [.errorCount 1]⟩]

/-- Names that the script cannot use. -/
def nameCases : List Case :=
  [⟨"Names: Runtime binding renamed", "let ctx = 5\ncircle at (ctx, ctx) size 1 color #000", true,
    [.contains ["var ctx$ = 5;", "const __x = ctx$;", "ctx.save();"]]⟩,
   ⟨"Names: Reserved word renamed", "let new = 1\nlet b = new", true,
    [.contains ["var b = new$;"]]⟩]

/-- Blanks, comments and line ends. -/
def layoutCases : List Case :=
  [⟨"WS: Trailing comment", "// header\nlet a = 1 // trailing", true, [.contains ["var a = 1;"]]⟩,
   ⟨"WS: Carriage returns", "let a = 1\r\nlet b = a\r\n", true, []⟩,
   ⟨"WS: Tabs", "let\ta\t=\t1", true, []⟩,
   ⟨"WS: Blank lines", "\n\n\nlet a = 1\n\n\n", true, []⟩]

/-- The whole table. -/
def table : List Case :=
  basicCases ++ bindingCases ++ expressionCases ++ functionCases ++
    controlCases ++ animationCases ++ sceneCases ++ recoveryCases ++ nameCases ++ layoutCases

end Storyboard.SelfCheck
