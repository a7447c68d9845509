/-
  Storyboard.Token.Call

  A scanner that is used call by call. The calls may come in any order and at any
  place of the text, also where a scan of the whole text would never make them.
-/
import Storyboard.Token.Scanner

namespace Storyboard.Scanner

/-- What a scanner can be asked for. -/
inductive Call where
  | peek (ahead : Nat)
  | atEnd
  | location
  | advance
  | skipGap
  | scanNumber
  | scanString
  | scanColor
  | scanWord
  | tokens
  deriving DecidableEq, Inhabited

/-- What a call is answered with. -/
inductive Answer where
  | done
  | character (c : Char)
  | truth (holds : Bool)
  | place (location : Location)
  | token (token : Token)
  | tokens (tokens : List Token)
  deriving DecidableEq, Inhabited

/-- The answer to a call, and the scanner after it. -/
def step (s : Scanner) : Call → Answer × Scanner
  | .peek ahead => (.character (s.peek ahead), s)
  | .atEnd => (.truth s.atEnd, s)
  | .location => (.place s.location, s)
  | .advance => (.character s.advance.1, s.advance.2)
  | .skipGap => (.done, s.skipGap)
  | .scanNumber => (.token s.scanNumber.1, s.scanNumber.2)
  | .scanString => (.token s.scanString.1, s.scanString.2)
  | .scanColor => (.token s.scanColor.1, s.scanColor.2)
  | .scanWord => (.token s.scanWord.1, s.scanWord.2)
  | .tokens => (.tokens s.tokens.1, s.tokens.2)

/-- The scanner after calls made one after the other. -/
def run (s : Scanner) (calls : List Call) : Scanner :=
  calls.foldl (fun s call => (s.step call).2) s

end Storyboard.Scanner
