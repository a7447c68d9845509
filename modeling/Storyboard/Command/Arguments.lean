/-
  Storyboard.Command.Arguments

  Arguments of the command line. Every argument is first classed by its looks: a
  switch, something that looks like a switch and is none, or a value. Then
  switches are carried out from left to right. A switch that needs a value takes
  what is attached to it, or else the next argument, which has to be a value.

  A long switch may be shortened as long as only one begins that way, and short
  ones may stand together behind one dash. After `--` all arguments are values.
  What no switch takes is left over, and that is an error at the end.

  Conventions for such lines differ in two places, and these are meant here. Two dashes
  mark the end of the switches wherever they stand, so as an attached value (`--input=--`)
  they are taken out and the switch is left without one. And an equals sign right behind
  a first short switch is dropped, so what follows it is read as more short switches:
  `-q=q` is `-qq`.
-/
import Storyboard.Text.Basic
import Storyboard.Text.Quoted

namespace Storyboard.Command

/-- The switches. -/
inductive Switch where
  | help
  | test
  | code
  | input
  | outputDir
  | html
  | ast
  | quiet
  deriving DecidableEq, Inhabited

namespace Switch

/-- All spellings of switches, short and long. -/
def spellings : List (String × Switch) :=
  [("-h", .help), ("--help", .help), ("--test", .test), ("--code", .code), ("--input", .input),
   ("--output-dir", .outputDir), ("--html", .html), ("--ast", .ast), ("-q", .quiet),
   ("--quiet", .quiet)]

/-- Whether a switch needs a value. -/
def needsValue : Switch → Bool
  | .code | .input | .outputDir => true
  | _ => false

/-- A switch as errors name it: all its spellings. -/
def label (switch : Switch) : String :=
  "/".intercalate ((spellings.filter fun entry => entry.2 = switch).map Prod.fst)

end Switch

/-! ## Errors -/

/-- What is wrong with the arguments. -/
inductive UsageError where
  | ambiguous (argument : String) (candidates : List String)
  | valueMissing (switch : Switch)
  | valueIgnored (switch : Switch) (value : String)
  | unrecognized (arguments : List String)
  deriving DecidableEq, Inhabited

/-- The error in words. -/
def UsageError.text : UsageError → String
  | .ambiguous argument candidates =>
    "ambiguous option: " ++ argument ++ " could match " ++ ", ".intercalate candidates
  | .valueMissing switch => "argument " ++ switch.label ++ ": expected one argument"
  | .valueIgnored switch value =>
    "argument " ++ switch.label ++ ": ignored explicit argument " ++ Text.quoted value
  | .unrecognized arguments => "unrecognized arguments: " ++ " ".intercalate arguments

/-! ## Classes of arguments -/

/-- A spelling of a switch, and the text attached to it, if any. -/
structure Use where
  switch : Switch
  spelling : String
  attached : Option (List Char)
  deriving DecidableEq, Inhabited

/-- What an argument looks like. -/
inductive Looks where
  | value
  | separator
  | use (use : Use)
  | unknownSwitch
  deriving DecidableEq, Inhabited

/-- A text cut at its first equals sign. -/
def cutAtEquals (cs : List Char) : Option (List Char × List Char) :=
  match cs.dropWhile (· ≠ '=') with
  | [] => none
  | _ :: value => some (cs.takeWhile (· ≠ '='), value)

/-- The switch that is spelled in full before an equals sign. -/
def assigned? (argument : String) : Option Use := do
  let (spelling, value) ← cutAtEquals argument.toList
  let switch ← Switch.spellings.lookup (String.ofList spelling)
  return ⟨switch, String.ofList spelling, some value⟩

/-- The switches that an argument with two dashes may be short for. -/
def longUses (cs : List Char) : List Use :=
  let (head, attached) := match cutAtEquals cs with
    | some (head, value) => (head, some value)
    | none => (cs, none)
  Switch.spellings.filterMap fun (spelling, switch) =>
    if head.isPrefixOf spelling.toList then some ⟨switch, spelling, attached⟩ else none

/-- The switches that an argument with one dash may mean: a short one with the rest attached to
    it, or one that begins with the whole argument. -/
def shortUses (cs : List Char) : List Use :=
  Switch.spellings.filterMap fun (spelling, switch) =>
    if spelling.toList = cs.take 2 then some ⟨switch, spelling, some (cs.drop 2)⟩
    else if cs.isPrefixOf spelling.toList then some ⟨switch, spelling, none⟩
    else none

/-- Whether a text is a negative number: a dash and digits with at most one dot, which a digit
    follows. A newline at the end does not count. -/
def isNegativeNumber : List Char → Bool
  | '-' :: cs =>
    let isDigit (c : Char) : Bool := (Text.digitValue? c).isSome
    let cs := if cs.getLast? = some '\n' then cs.dropLast else cs
    match cs.dropWhile isDigit with
    | [] => !cs.isEmpty
    | '.' :: fraction => !fraction.isEmpty && fraction.all isDigit
    | _ => false
  | _ => false

/-- Classes an argument that begins with a dash and is not a full spelling. -/
def dashed (argument : String) : Except UsageError Looks :=
  let cs := argument.toList
  let uses := match cs with
    | _ :: '-' :: _ => longUses cs
    | _ => shortUses cs
  match uses with
  | [use] => pure (.use use)
  | [] => pure (if isNegativeNumber cs || cs.contains ' ' then .value else .unknownSwitch)
  | _ => throw (.ambiguous argument (uses.map Use.spelling))

/-- Classes an argument before any `--`. -/
def classify (argument : String) : Except UsageError Looks :=
  match argument.toList with
  | '-' :: _ :: _ =>
    match Switch.spellings.lookup argument with
    | some switch => pure (.use ⟨switch, argument, none⟩)
    | none =>
      match assigned? argument with
      | some use => pure (.use use)
      | none => dashed argument
  | _ => pure .value

/-- Classes all arguments. -/
def classifyAll : List String → Except UsageError (List (String × Looks))
  | [] => pure []
  | argument :: others =>
    if argument = "--" then pure ((argument, .separator) :: others.map (·, .value))
    else do
      let looks ← classify argument
      let classed ← classifyAll others
      return (argument, looks) :: classed

/-! ## Settings -/

/-- What the switches set. -/
structure Settings where
  test : Bool
  /-- The source text to compile, if the switch for it is used; the switch may have got no
      text. -/
  code : Option (Option String)
  /-- The source file. -/
  input : Option String
  /-- The output directory, unless its switch has got no text. -/
  outputDir : Option String
  html : Bool
  ast : Bool
  quiet : Bool
  deriving DecidableEq, Inhabited

/-- What is set without any switch. -/
def Settings.default : Settings := ⟨false, none, none, some ".", false, false, false⟩

/-- What is asked for: help, or a run with settings. -/
inductive Request where
  | help
  | run (settings : Settings)
  deriving DecidableEq, Inhabited

/-- The text in a value. Two dashes only mark where switches end, so that there is none in
    them. -/
def valueText (value : String) : Option String := if value = "--" then none else some value

/-- Sets what a switch sets; help ends it all. -/
def Settings.apply (settings : Settings) (switch : Switch) (value : String) : Option Settings :=
  match switch with
  | .help => none
  | .test => some { settings with test := true }
  | .code => some { settings with code := some (valueText value) }
  | .input => some { settings with input := valueText value }
  | .outputDir => some { settings with outputDir := valueText value }
  | .html => some { settings with html := true }
  | .ast => some { settings with ast := true }
  | .quiet => some { settings with quiet := true }

/-- What one argument means: switches, and the value of the last one if it is attached. -/
structure Meaning where
  switches : List Switch
  value : Option String
  deriving DecidableEq, Inhabited

/-- Puts a switch in front of those that an argument means. -/
def Meaning.after (switch : Switch) (meaning : Meaning) : Meaning :=
  { meaning with switches := switch :: meaning.switches }

/-- What a switch with an attached text means. A switch that needs a value takes the text. Behind
    a short one that needs none, each character of the text has to be a short switch as well; any
    other text is refused. -/
def attachedMeaning (short : Bool) (switch : Switch) : List Char → Except UsageError Meaning
  | [] => if switch.needsValue then pure ⟨[switch], some ""⟩ else throw (.valueIgnored switch "")
  | c :: cs =>
    let text := String.ofList (c :: cs)
    if switch.needsValue then pure ⟨[switch], some text⟩
    else if short then
      match Switch.spellings.lookup (String.ofList ['-', c]) with
      | none => throw (.valueIgnored switch text)
      | some next =>
        if cs.isEmpty then pure ⟨[switch, next], none⟩
        else Meaning.after switch <$> attachedMeaning true next cs
    else throw (.valueIgnored switch text)

/-- What a use of a switch means. -/
def Use.meaning (use : Use) : Except UsageError Meaning :=
  match use.attached with
  | none => pure ⟨[use.switch], none⟩
  | some text =>
    let short := match use.spelling.toList with
      | _ :: '-' :: _ => false
      | _ => true
    attachedMeaning short use.switch text

/-- Sets what several switches set, the value being that of the last. -/
def Settings.applyAll (settings : Settings) (value : String) : List Switch → Option Settings
  | [] => some settings
  | switch :: others => (settings.apply switch value).bind fun s => s.applyAll value others

/-- Whether an argument needs the next one as the value of its last switch. -/
def Meaning.needsNext (meaning : Meaning) : Bool :=
  meaning.value.isNone && meaning.switches.getLast?.any Switch.needsValue

/-- Carries out arguments from left to right. -/
def interpret (settings : Settings) (extras : List String) :
    List (String × Looks) → Except UsageError Request
  | [] => if extras.isEmpty then pure (.run settings) else throw (.unrecognized extras)
  | (_, .use use) :: others => do
    let meaning ← use.meaning
    if meaning.needsNext then
      match others with
      | (value, .value) :: rest =>
        match settings.applyAll value meaning.switches with
        | none => return .help
        | some settings => interpret settings extras rest
      | _ => throw (.valueMissing (meaning.switches.getLast?.getD use.switch))
    else
      match settings.applyAll (meaning.value.getD "") meaning.switches with
      | none => return .help
      | some settings => interpret settings extras others
  | (argument, _) :: others => interpret settings (extras ++ [argument]) others

/-- What the arguments ask for. -/
def parseArguments (arguments : List String) : Except UsageError Request := do
  interpret .default [] (← classifyAll arguments)

end Storyboard.Command
