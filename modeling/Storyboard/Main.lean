/-
  Storyboard.Main

  The command on real files and channels.
-/
import Storyboard.Command.Run

namespace Storyboard.Command

instance : Host IO where
  readText path := do
    match String.fromUTF8? (← IO.FS.readBinFile path) with
    | some text => return text
    | none => throw (IO.userError ("not UTF-8: " ++ path))
  makeDirectories path := IO.FS.createDirAll path
  writeText path content := IO.FS.writeFile path content
  print text := do (← IO.getStdout).putStr text
  printError text := do (← IO.getStderr).putStr text
  stop fault := throw (IO.userError fault.text)

end Storyboard.Command

/-- Runs the command and exits with its code. -/
def main (arguments : List String) : IO UInt32 := Storyboard.Command.run arguments
