import WitxFrontEnd.CommandLine.Options
import WitxFrontEnd.Files
import WitxFrontEnd.Listing
import WitxFrontEnd.Node

/-!
# Running the command line

What the program prints and which code it ends with, as a function of its arguments and of what is
found at the path that they name. A run that ends with code one prints nothing on the standard
output, and one that ends with code two never looked at a source.

A run may also end in a failure that the program does not handle: what it reads is not UTF-8, or the
listing of tokens is nested too deep for the stack. How much the stack has room for is a parameter.

A file is read twice unless tokens are listed: once for the lines that a report shows, and once more
by `Document.parseFile`.
-/

namespace WitxFrontEnd.CommandLine

/-- The end of a run that the program itself ends. -/
structure Output where
  code : Nat
  stdout : String
  stderr : String
deriving DecidableEq, Repr

/-- A failure that the program does not handle. -/
inductive Failure where
  | read (e : ReadError)
  /-- More calls inside each other than the stack has room for. -/
  | stackOverflow
deriving DecidableEq, Repr

/-- How a run ends: with a code, or in a failure and with what was printed up to then. -/
inductive Ending where
  | exit (output : Output)
  | failed (failure : Failure) (stdout stderr : String)
deriving DecidableEq, Repr

/-- Lines as a text that ends each of them. -/
def unlines (lines : List String) : String :=
  String.join (lines.map (· ++ "\n"))

/-! ## Usage -/

/-- How the program is called. -/
def usageLines : List String :=
  ["usage: witx [-h] [--text] [--tree | --tokens | --docs] [--pos] [--verbose]",
    "            source"]

/-- The help of the program. -/
def helpLines : List String :=
  usageLines ++
    ["",
    "Witx interface description parser",
    "",
    "positional arguments:",
    "  source         Witx source file to parse",
    "",
    "options:",
    "  -h, --help     show this help message and exit",
    "  --text         Treat source as witx text to be parsed",
    "  --tree         Show the parsed syntax tree (default)",
    "  --tokens       Show the Lark token tree",
    "  --docs         Show the documentation attached to each declaration",
    "  --pos          Show line:column positions with --tokens",
    "  --verbose, -v  Enable debug logging"]

/-- The end of a run whose arguments lead to no options. -/
def Stop.output : Stop → Output
  | .help => ⟨0, unlines helpLines, ""⟩
  | .usage e => ⟨2, "", unlines (usageLines ++ ["witx: error: " ++ e.message])⟩

/-! ## Showing a source -/

/-- What the program shows of a document, apart from the forest it is read from. -/
def showDocument (mode : Mode) (document : Document) : String :=
  match mode with
  | .docs => unlines (Documentation.listing document)
  | .tree | .tokens => unlines [(Node.document document).outline]

/-- The lines of the log, if it is shown. -/
def showLog (options : Options) (log : List LogRecord) : String :=
  if options.verbose then unlines (log.map LogRecord.toString) else ""

/-- The end of a run that found a mistake in the source. -/
def mistake (log : String) (e : ParseError) (source : String) : Output :=
  ⟨1, "", log ++ unlines [e.report source]⟩

/-- Shows what came of parsing a source, behind the log of reading it. -/
def showParsed (options : Options) (source : String) :
    Except FileError Document × List LogRecord → Ending
  | (.ok document, log) =>
    .exit ⟨0, showDocument options.mode document,
      showLog options (log ++ [.read document.items.length])⟩
  | (.error (.parse e), log) => .exit (mistake (showLog options log) e source)
  | (.error (.read e), log) => .failed (.read e) "" (showLog options log)

/-- Shows the tokens of a source that was read from the given file, if it was read from one. -/
def showTokens (room : Nat) (options : Options) (filename : Option String) (source : String) :
    Ending :=
  match Forest.read source filename with
  | .ok forest =>
    let printout := forest.ruleTree.print options.positions room 0
    let stdout := unlines printout.lines
    if printout.complete then .exit ⟨0, stdout, ""⟩ else .failed .stackOverflow stdout ""
  | .error e => .exit (mistake "" e source)

/-! ## Whole runs -/

/-- How many calls of the printer the stack has room for. The limit is of a thousand calls inside
each other, and a few are under way before the printer is called. -/
def defaultRoom : Nat := 990

/-- Shows the source that is given as text. -/
def runText (room : Nat) (options : Options) : Ending :=
  match options.mode with
  | .tokens => showTokens room options none options.source
  | .tree | .docs =>
    showParsed options options.source
      ((Document.parse options.source none).mapError .parse, [])

/-- Shows the source in the file at a path, given what is found there. -/
def runFile (room : Nat) (options : Options) (found : FileStatus) : Ending :=
  let path := normalizePath options.source
  match found with
  | .file _ =>
    match found.source with
    | .error e => .failed (.read e) "" ""
    | .ok source =>
      match options.mode with
      | .tokens => showTokens room options (some path) source
      | .tree | .docs => showParsed options source (Document.parseFile options.source found)
  | .directory | .missing | .notDirectory =>
    .exit ⟨1, "", unlines ["error: file not found: " ++ path]⟩

/-- A run with the given options, given what is found at the path they name. -/
def runOptions (room : Nat) (options : Options) (found : FileStatus) : Ending :=
  if options.isText then runText room options else runFile room options found

/-- A run with the given arguments in the given directory. Reference: `main`. -/
def run (room : Nat) (arguments : List String) (files : FileTree) : Ending :=
  match Options.ofArguments arguments with
  | .error stop => .exit stop.output
  | .ok options => runOptions room options (files.status options.source)

end WitxFrontEnd.CommandLine
