import WitxFrontEnd.CommandLine.Run

/-!
# The program

The outer layer of the command line: it reads the file that the arguments name, if they name one,
and prints what the run of the command line says.
-/

namespace WitxFrontEnd.CommandLine

/-- What is found at a path. Whatever cannot be read counts as missing. -/
def look (path : String) : IO FileStatus := do
  try
    return .file (← IO.FS.readBinFile path)
  catch _ => return .missing

/-- Prints what a run printed. -/
def emit (stdout stderr : String) : IO Unit := do
  (← IO.getStdout).putStr stdout
  (← IO.getStderr).putStr stderr

/-- Prints the end of a run and gives its code, or throws the failure that it ends in. -/
def finish : Ending → IO UInt32
  | .exit output => do
    emit output.stdout output.stderr
    return UInt32.ofNat output.code
  | .failed failure stdout stderr => do
    emit stdout stderr
    throw (IO.userError (reprStr failure))

/-- Runs the program with the given options. -/
def start (options : Options) : IO UInt32 := do
  let found ← if options.isText then pure .missing else look (normalizePath options.source)
  finish (runOptions defaultRoom options found)

end WitxFrontEnd.CommandLine

def main (arguments : List String) : IO UInt32 :=
  match WitxFrontEnd.CommandLine.Options.ofArguments arguments with
  | .error stop => WitxFrontEnd.CommandLine.finish (.exit stop.output)
  | .ok options => WitxFrontEnd.CommandLine.start options
