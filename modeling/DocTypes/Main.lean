import DocTypes.CommandLine.Run

/-!
# The command

Reads the command line and the files it names, and writes what the run gives. A command
line that cannot be read ends with status 2, a run that ends early with status 1.
-/

namespace DocTypes

namespace CommandLine

/-- What the command is, for those who ask. -/
def versionText : String := "doctypes 0.1.0"

/-- How the command is called. -/
def helpText : String :=
  "Scope, class hierarchy and type analysis for JSDoc-annotated JavaScript\n\n" ++
  "Usage: doctypes [OPTIONS] <FILES>...\n\n" ++
  "Arguments:\n" ++
  "  <FILES>...         Syntax tree files (JSON) to analyze, one compilation unit each\n\n" ++
  "Options:\n" ++
  "      --externs      Treat every input as an externs file\n" ++
  "      --format <F>   Output format: text or json [default: text]\n" ++
  "      --dump-values  Print the value bound to every node\n" ++
  "      --dump-types   Print the type recorded for every node\n" ++
  "      --color <C>    When to color text: auto, always or never [default: auto]\n" ++
  "  -h, --help         Print help\n" ++
  "  -V, --version      Print version"

/-- What is wrong with a command line. -/
def UsageError.message : UsageError → String
  | .missingFiles => "error: no file is named"
  | .unknownOption => "error: unexpected argument"
  | .invalidValue => "error: invalid value"
  | .repeatedOption => "error: an option cannot be used multiple times"
  | .unexpectedValue => "error: unexpected value for an option"
  | .helpRequested => helpText
  | .versionRequested => versionText

/-- The text of a file, if it can be read. -/
def readText? (path : String) : IO (Option String) := do
  try
    return some (← IO.FS.readFile path)
  catch _ =>
    return none

/-- Carry out a command line on the files of the machine. -/
def Arguments.perform (x : Arguments) : IO UInt32 := do
  let out ← IO.getStdout
  let texts ← x.files.mapM fun path => do return (path, ← readText? path)
  match x.run (fun path => (texts.lookup path).join) (← out.isTty) with
  | .error e =>
    (← IO.getStderr).putStrLn ("Error: " ++ e.message)
    return 1
  | .ok outcome =>
    out.putStr outcome.output
    out.flush
    return outcome.status.toUInt32

end CommandLine

end DocTypes

open DocTypes.CommandLine in
/-- The command. -/
def main (arguments : List String) : IO UInt32 := do
  match Arguments.ofList arguments with
  | .ok x => x.perform
  | .error e =>
    if e = .helpRequested || e = .versionRequested then
      (← IO.getStdout).putStrLn e.message
      return 0
    else
      (← IO.getStderr).putStrLn e.message
      return 2
