import WitxFrontEnd.Text.DecimalDigit
import WitxFrontEnd.Text.Quoted

/-!
# Options of the command line

How arguments become options. Every argument is first told apart by its text alone: a switch, which
may be shortened as long as only one fits, an unknown switch, or a word. Then they are taken from
left to right. The first word is the source; what is left over is an error in the end, and so is a
missing source. Behind `--` everything is a word.
-/

namespace WitxFrontEnd.CommandLine

/-- What can be switched on. -/
inductive Switch where
  | help
  | text
  | tree
  | tokens
  | docs
  | positions
  | verbose
deriving DecidableEq, Repr

/-- What the program shows. -/
inductive Mode where
  | tree
  | tokens
  | docs
deriving DecidableEq, Repr

/-- What the arguments ask for. -/
structure Options where
  /-- A path, or the source itself if `isText` is set. -/
  source : String
  isText : Bool
  mode : Mode
  positions : Bool
  verbose : Bool
deriving DecidableEq, Repr

namespace Switch

/-- Each way to write a switch in full. Where several fit, a message lists them in this order. -/
def spellings : List (String × Switch) :=
  [("-h", .help), ("--help", .help), ("--text", .text), ("--tree", .tree), ("--tokens", .tokens),
    ("--docs", .docs), ("--pos", .positions), ("--verbose", .verbose), ("-v", .verbose)]

/-- The switch of one letter. -/
def ofLetter? (letter : Char) : Option Switch :=
  spellings.lookup (String.ofList ['-', letter])

/-- The switch's name in a message. -/
def display : Switch → String
  | .help => "-h/--help"
  | .text => "--text"
  | .tree => "--tree"
  | .tokens => "--tokens"
  | .docs => "--docs"
  | .positions => "--pos"
  | .verbose => "--verbose/-v"

/-- The mode that a switch selects. -/
def mode? : Switch → Option Mode
  | .tree => some .tree
  | .tokens => some .tokens
  | .docs => some .docs
  | .help | .text | .positions | .verbose => none

end Switch

/-- A mistake in the arguments. -/
inductive UsageError where
  /-- A shortened switch that several fit. -/
  | ambiguous (argument : String) (candidates : List String)
  /-- A switch with a value behind it. -/
  | ignoredValue (switch : Switch) (value : List Char)
  /-- Two switches that select different modes. -/
  | conflict (later earlier : Switch)
  | missingSource
  | unrecognized (arguments : List String)
deriving DecidableEq, Repr

/-- The wording of a mistake in the arguments. -/
def UsageError.message : UsageError → String
  | .ambiguous argument candidates =>
    "ambiguous option: " ++ argument ++ " could match " ++ String.intercalate ", " candidates
  | .ignoredValue switch value =>
    "argument " ++ switch.display ++ ": ignored explicit argument " ++
      String.ofList (Text.quoted value)
  | .conflict later earlier =>
    "argument " ++ later.display ++ ": not allowed with argument " ++ earlier.display
  | .missingSource => "the following arguments are required: source"
  | .unrecognized arguments => "unrecognized arguments: " ++ String.intercalate " " arguments

/-! ## Telling arguments apart -/

/-- What an argument is. -/
inductive Argument where
  | word (text : String)
  /-- A switch by its full spelling, and what follows in the same argument. -/
  | switch (spelling : String) (switch : Switch) (value : Option (List Char))
  | unknown (text : String)
  /-- The argument behind which everything is a word. -/
  | separator
deriving DecidableEq, Repr

/-- A text before its first equals sign, and behind it if there is one. -/
def splitValue (cs : List Char) : List Char × Option (List Char) :=
  (cs.takeWhile (· != '='), (cs.dropWhile (· != '=')).tail?)

/-- Whether a text is a negative number: a minus sign and then digits, of which a point may
separate or precede the last. One line feed may follow. -/
def isNegativeNumber (cs : List Char) : Bool :=
  match cs with
  | '-' :: rest =>
    let fraction := fun ds : List Char =>
      !(ds.takeWhile Text.isDecimalDigit).isEmpty &&
        (ds.dropWhile Text.isDecimalDigit == [] || ds.dropWhile Text.isDecimalDigit == ['\n'])
    match rest.dropWhile Text.isDecimalDigit with
    | '.' :: ds => fraction ds
    | _ => fraction rest
  | _ => false

/-- The switches that an argument shortens or runs together with a value, each with its full
spelling and the value. Two dashes begin a shortened switch, one dash a switch of one letter. -/
def candidates (cs : List Char) : List (String × Switch × Option (List Char)) :=
  match cs with
  | '-' :: '-' :: _ =>
    let (name, value) := splitValue cs
    (Switch.spellings.filter fun entry => name.isPrefixOf entry.1.toList).map
      fun (spelling, switch) => (spelling, switch, value)
  | '-' :: letter :: rest =>
    match Switch.ofLetter? letter with
    | some switch => [(String.ofList ['-', letter], switch, some rest)]
    | none => []
  | _ => []

/-- Tells what an argument is that does not stand behind `--`. -/
def classify (argument : String) : Except UsageError Argument :=
  let cs := argument.toList
  if cs.head? != some '-' then .ok (.word argument)
  else
    match Switch.spellings.lookup argument with
    | some switch => .ok (.switch argument switch none)
    | none =>
      let (name, value) := splitValue cs
      if cs == ['-'] then .ok (.word argument)
      else
        match value, Switch.spellings.lookup (String.ofList name) with
        | some value, some switch => .ok (.switch (String.ofList name) switch (some value))
        | _, _ =>
          match candidates cs with
          | [(spelling, switch, value)] => .ok (.switch spelling switch value)
          | [] =>
            if isNegativeNumber cs || cs.contains ' ' then .ok (.word argument)
            else .ok (.unknown argument)
          | several => .error (.ambiguous argument (several.map Prod.fst))

/-- Tells what all arguments are. -/
def classifyAll : List String → Except UsageError (List Argument)
  | [] => .ok []
  | argument :: rest =>
    if argument == "--" then .ok (.separator :: rest.map .word)
    else do
      let first ← classify argument
      let others ← classifyAll rest
      return first :: others

/-! ## Taking arguments -/

/-- Why arguments lead to no options. -/
inductive Stop where
  | help
  | usage (e : UsageError)
deriving DecidableEq, Repr

/-- What has been taken so far: the source, the switches in order, and what was left over. -/
structure Taken where
  source : Option String
  switches : List Switch
  extras : List String
deriving DecidableEq, Repr

/-- The switches that letters run together name, after a first switch. -/
def cluster (switch : Switch) : List Char → Except UsageError (List Switch)
  | [] => .ok [switch]
  | letter :: rest =>
    match Switch.ofLetter? letter with
    | some next => (cluster next rest).map (switch :: ·)
    | none => .error (.ignoredValue switch (letter :: rest))

/-- The switches that one argument names. A value goes only with a switch of one letter, and has to
be more such letters. -/
def expand (spelling : String) (switch : Switch) :
    Option (List Char) → Except UsageError (List Switch)
  | none => .ok [switch]
  | some value =>
    if spelling.toList.length != 2 || value.isEmpty then .error (.ignoredValue switch value)
    else cluster switch value

namespace Taken

/-- Takes a switch. Help is given at once; a mode must not differ from one taken before. -/
def takeSwitch (taken : Taken) (switch : Switch) : Except Stop Taken :=
  if switch = .help then .error .help
  else
    match taken.switches.find? fun earlier => earlier.mode?.isSome && switch.mode?.isSome &&
        earlier != switch with
    | some earlier => .error (.usage (.conflict switch earlier))
    | none => .ok { taken with switches := taken.switches ++ [switch] }

/-- Takes arguments from left to right. A separator goes with the word that becomes the source, on
whichever side of it, and is left over otherwise. -/
def takeAll (taken : Taken) : List Argument → Except Stop Taken
  | [] => .ok taken
  | .switch spelling switch value :: rest =>
    match expand spelling switch value with
    | .error e => .error (.usage e)
    | .ok switches => do takeAll (← switches.foldlM takeSwitch taken) rest
  | .unknown text :: rest => takeAll { taken with extras := taken.extras ++ [text] } rest
  | .separator :: .word text :: rest =>
    if taken.source.isNone then takeAll { taken with source := some text } rest
    else takeAll { taken with extras := taken.extras ++ ["--", text] } rest
  | .separator :: rest => takeAll { taken with extras := taken.extras ++ ["--"] } rest
  | .word text :: rest =>
    if taken.source.isSome then takeAll { taken with extras := taken.extras ++ [text] } rest
    else
      match rest with
      | .separator :: rest => takeAll { taken with source := some text } rest
      | rest => takeAll { taken with source := some text } rest

/-- The options, if there is a source and nothing was left over. -/
def options (taken : Taken) : Except Stop Options :=
  match taken.source, taken.extras with
  | none, _ => .error (.usage .missingSource)
  | some _, extra :: extras => .error (.usage (.unrecognized (extra :: extras)))
  | some source, [] =>
    .ok {
      source
      isText := taken.switches.contains .text
      mode := (taken.switches.findSome? Switch.mode?).getD .tree
      positions := taken.switches.contains .positions
      verbose := taken.switches.contains .verbose }

end Taken

/-- The options that arguments ask for. -/
def Options.ofArguments (arguments : List String) : Except Stop Options :=
  match classifyAll arguments with
  | .error e => .error (.usage e)
  | .ok arguments => do (← Taken.takeAll ⟨none, [], []⟩ arguments).options

end WitxFrontEnd.CommandLine
