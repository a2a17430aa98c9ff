/-!
# Log formats

A log is written in one of three forms, chosen by name. Names are read in any case, and
a name that is not known means plain text. The three names are ASCII, and no letter
outside ASCII has a lower case within them, so ASCII lower case suffices.
-/

namespace DocTypes

namespace CommandLine

/-- How a log is written. -/
inductive LogFormat where
  | text
  /-- Indented by nesting. -/
  | tree
  | json
  deriving DecidableEq, Repr

namespace LogFormat

/-- The format of a name. -/
def ofName (name : String) : LogFormat :=
  match String.ofList (name.toList.map Char.toLower) with
  | "tree" => .tree
  | "json" => .json
  | _ => .text

/-- The written form of a format. -/
def render : LogFormat → String
  | .text => "Text"
  | .tree => "Tree"
  | .json => "Json"

end LogFormat

end CommandLine

end DocTypes
