import DocTypes.CommandLine.Arguments
import DocTypes.Report.Render

/-!
# Carrying out a command line

Every file is read and analyzed in turn. The first file that cannot be read or is no tree
ends the run, and nothing is written then. Otherwise the reports are written, and the
status says whether there was any diagnostic.
-/

namespace DocTypes

namespace CommandLine

/-- Why a run ends before anything is written. -/
inductive RunError where
  | unreadable (path : String)
  | invalidTree (path : String)
  deriving DecidableEq, Repr

/-- The message for an error. -/
def RunError.message : RunError → String
  | .unreadable path => "failed to read " ++ path
  | .invalidTree path => path ++ ": invalid syntax tree"

/-- What a run writes, and its status. -/
structure Outcome where
  status : Nat
  output : String
  deriving DecidableEq, Repr

namespace Arguments

/-- How the files are analyzed. -/
def options (x : Arguments) : Options := if x.externs then Options.externs else {}

/-- Which tables are written. -/
def dumps (x : Arguments) : Dumps := { values := x.dumpValues, types := x.dumpTypes }

/-- The report of one file. -/
def report (x : Arguments) (read : String → Option String) (path : String) :
    Except RunError UnitReport :=
  match read path with
  | none => .error (.unreadable path)
  | some source =>
    match UnitReport.ofText path source x.options x.dumps with
    | .ok report => .ok report
    | .error _ => .error (.invalidTree path)

/-- The reports as they are written. -/
def write (x : Arguments) (color : Bool) (reports : List UnitReport) : String :=
  match x.format with
  | .json => (Json.Document.list (reports.map (·.document))).pretty ++ "\n"
  | .text => UnitReport.renderAll color reports

/-- Carry out a command line. -/
def run (x : Arguments) (read : String → Option String) (terminal : Bool) :
    Except RunError Outcome := do
  let reports ← x.files.mapM (x.report read)
  return {
    status := if reports.any (!·.diagnostics.isEmpty) then 1 else 0
    output := x.write (x.color.enabled terminal) reports }

end Arguments

end CommandLine

end DocTypes
