import Storyboard.Command.Arguments
import Storyboard.Command.Files
import Storyboard.Command.Run
import Storyboard.Compile
import Storyboard.Compile.Session
import Storyboard.Diagnostic
import Storyboard.Main
import Storyboard.Number.Binary64
import Storyboard.Number.Numeral
import Storyboard.Number.Shortest
import Storyboard.Number.Written
import Storyboard.Parse.Basic
import Storyboard.Parse.Counting
import Storyboard.Parse.Cursor
import Storyboard.Parse.Expr
import Storyboard.Parse.Session
import Storyboard.Parse.Stmt
import Storyboard.Scope
import Storyboard.Scope.Check
import Storyboard.Scope.Step
import Storyboard.Script.Expr
import Storyboard.Script.Name
import Storyboard.Script.Page
import Storyboard.Script.Program
import Storyboard.Script.Stmt
import Storyboard.SelfCheck
import Storyboard.SelfCheck.Table
import Storyboard.Source.Location
import Storyboard.Source.Text
import Storyboard.Text.Basic
import Storyboard.Text.Printable
import Storyboard.Text.Quoted
import Storyboard.Token
import Storyboard.Token.Call
import Storyboard.Token.Scanner
import Storyboard.Tree
import Storyboard.Tree.Outline
import Storyboard.Proofs.Parse.Grammar
import Storyboard.Proofs.Parse.ExprSound
import Storyboard.Proofs.Parse.ExprPrinted
import Storyboard.Proofs.Parse.RoundTrip
import Storyboard.Proofs.Scope.Actions
import Storyboard.Proofs.Scope.Declaring
import Storyboard.Proofs.Scope.Hoisting
import Storyboard.Proofs.Token.Splitting
import Storyboard.Proofs.Token.Joining
import Storyboard.Proofs.Token.Respelling
import Storyboard.Proofs.Compile.Totality
import Storyboard.Proofs.Parse.Blame
import Storyboard.Proofs.Parse.Depth
import Storyboard.Proofs.Parse.Newlines
import Storyboard.Proofs.Parse.Containment
import Storyboard.Proofs.Parse.Composition
import Storyboard.Proofs.Parse.Stepwise
import Storyboard.Proofs.Script.Names
import Storyboard.Proofs.Script.Routines
import Storyboard.Proofs.Script.Strays
import Storyboard.Proofs.Script.Effects
import Storyboard.Proofs.Parse.Provenance
import Storyboard.Proofs.Script.Brackets
import Storyboard.Proofs.Script.Inline
import Storyboard.Proofs.Compile.Locations
import Storyboard.Proofs.Script.ExprLayout
import Storyboard.Proofs.Script.StmtLayout
import Storyboard.Proofs.Compile.Sense
import Storyboard.Proofs.Parse.Sense
import Storyboard.Proofs.Scope.Sense
import Storyboard.Proofs.Script.Sense
import Storyboard.Proofs.Compile.Memory
import Storyboard.Proofs.Scope.Memory
import Storyboard.Proofs.Script.EndTag
import Storyboard.Proofs.Script.Literals
import Storyboard.Proofs.Script.Preview
import Storyboard.Proofs.Command.Tree
import Storyboard.Proofs.Command.Saving
import Storyboard.Proofs.Parse.Completeness
import Storyboard.Proofs.Text.Decoding
import Storyboard.Proofs.Compile.Strings
import Storyboard.Proofs.Number.Rounding
import Storyboard.Proofs.Number.Shortest
import Storyboard.Proofs.Number.Written
import Storyboard.Proofs.Tree.Parts
import Storyboard.Proofs.Script.Shapes
import Storyboard.Proofs.Script.Spine
import Storyboard.Proofs.Script.Readable
import Storyboard.Proofs.Script.Lines
import Storyboard.Proofs.Script.Marks
import Storyboard.Proofs.Script.Drawing
import Storyboard.Proofs.Scope.Restoring
import Storyboard.Proofs.SelfCheck.Report
import Storyboard.Proofs.Parse.Counting
import Storyboard.Proofs.Parse.Entries
import Storyboard.Proofs.Tree.Decoding
import Storyboard.Proofs.Token.Tracking
