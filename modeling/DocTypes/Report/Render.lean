import DocTypes.Report.Unit

/-!
# Reports as text

Every diagnostic is a line that begins with the name of its file. The tables of a file
follow its diagnostics, and a summary follows the last file if there was any diagnostic.

On a terminal file names, codes and the summary are coloured. The end of a colour inside
a painted text would end the paint, so the paint is put on again after it.
-/

namespace DocTypes

/-- A colour or weight of text, by its number on a terminal. -/
structure Paint where
  code : String
  deriving DecidableEq, Repr

namespace Paint

def file : Paint := ⟨"36"⟩

def problem : Paint := ⟨"1;31"⟩

def summary : Paint := ⟨"1"⟩

/-- What begins a painted text. -/
def start (p : Paint) : String := "\x1b[" ++ p.code ++ "m"

/-- What ends a painted text. -/
def stop : String := "\x1b[0m"

/-- A text in paint, if there is to be any. -/
def apply (p : Paint) (color : Bool) (text : String) : String :=
  if color then p.start ++ text.replace stop (stop ++ p.start) ++ stop else text

end Paint

namespace UnitReport

/-- The line of a diagnostic, with the related place on a line of its own. -/
def diagnosticLine (color : Bool) (file : String) (d : Diagnostic) : String :=
  Paint.file.apply color file ++ ": " ++ Paint.problem.apply color d.problem.code ++ "@"
    ++ d.span.render ++ Diagnostic.relatedLine d.related ++ "\n"

/-- The beginning of a line about a node. -/
def nodeLine (node : Nat) (kind : NodeKind) (span : Span) : String :=
  "  #" ++ toString node ++ " " ++ kind.name ++ "@" ++ span.render

/-- The line of a value entry. -/
def valueLine (e : ValueEntry) : String :=
  nodeLine e.node e.kind e.span ++ " -> " ++ e.valueKind ++ " #" ++ toString e.value.index ++ "\n"

/-- The line of a type entry. -/
def typeLine (e : TypeEntry) : String :=
  nodeLine e.node e.kind e.span ++ " : " ++ e.type ++ "\n"

/-- A table under its heading, nothing if it is empty. -/
def table (color : Bool) (file heading : String) (lines : List String) : String :=
  if lines.isEmpty then ""
  else Paint.file.apply color file ++ ": " ++ heading ++ "\n" ++ String.join lines

/-- The text of one report. -/
def render (color : Bool) (r : UnitReport) : String :=
  String.join (r.diagnostics.map (diagnosticLine color r.file))
    ++ table color r.file "values" (r.values.map valueLine)
    ++ table color r.file "types" (r.types.map typeLine)

/-- A count with its noun. -/
def counted (n : Nat) (noun : String) : String :=
  toString n ++ " " ++ noun ++ if n = 1 then "" else "s"

/-- The line at the end, if there was any diagnostic. -/
def summary (color : Bool) (reports : List UnitReport) : String :=
  let total := reports.foldl (fun n r => n + r.diagnostics.length) 0
  let files := reports.countP fun r => !r.diagnostics.isEmpty
  if total = 0 then ""
  else Paint.summary.apply color
    ("Found " ++ counted total "error" ++ " in " ++ counted files "file" ++ ".") ++ "\n"

/-- The text of all reports. -/
def renderAll (color : Bool) (reports : List UnitReport) : String :=
  String.join (reports.map (render color)) ++ summary color reports

end UnitReport

end DocTypes
