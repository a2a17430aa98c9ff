/-!
# Command line arguments

`Arguments.ofList` reads a command line. Every argument that does not begin with a dash
names a file. `--` ends the options: what follows it names files.

An option that takes a value takes it from the next argument, or after `=` from its own.
The value is looked at when the next option or file comes, or at the end. This decides
which of two faults is reported: an unknown option is reported at once, also after a
value that is wrong.
-/

namespace DocTypes

namespace CommandLine

/-- How reports are written. -/
inductive Format where
  | text
  | json
  deriving DecidableEq, Repr

/-- The format of a name in any case. -/
def Format.ofName? (name : String) : Option Format :=
  match String.ofList (name.toList.map Char.toLower) with
  | "text" => some .text
  | "json" => some .json
  | _ => none

/-- When text is coloured. -/
inductive ColorMode where
  | auto
  | always
  | never
  deriving DecidableEq, Repr

namespace ColorMode

/-- The mode of a name. -/
def ofName? : String → Option ColorMode
  | "auto" => some .auto
  | "always" => some .always
  | "never" => some .never
  | _ => none

/-- Whether text is coloured on a terminal or elsewhere. -/
def enabled (mode : ColorMode) (terminal : Bool) : Bool :=
  match mode with
  | .auto => terminal
  | .always => true
  | .never => false

end ColorMode

/-- What a command line asks for. -/
structure Arguments where
  files : List String
  externs : Bool := false
  dumpValues : Bool := false
  dumpTypes : Bool := false
  format : Format := .text
  color : ColorMode := .auto
  deriving DecidableEq, Repr

/-- Why a command line is not carried out. -/
inductive UsageError where
  | missingFiles
  | unknownOption
  /-- The value of an option is missing or not one of its values, or a file has no name. -/
  | invalidValue
  | repeatedOption
  /-- A value for an option that takes none. -/
  | unexpectedValue
  | helpRequested
  | versionRequested
  deriving DecidableEq, Repr

/-- The options that take no value. -/
inductive Switch where
  | externs
  | dumpValues
  | dumpTypes
  | help
  | version
  deriving DecidableEq, Repr

/-- The options that take a value. -/
inductive Setting where
  | format
  | color
  deriving DecidableEq, Repr

/-- An option. -/
inductive Flag where
  | switch (s : Switch)
  | setting (s : Setting)
  deriving DecidableEq, Repr

/-- The option of a long name. -/
def Flag.ofName? : String → Option Flag
  | "externs" => some (.switch .externs)
  | "dump-values" => some (.switch .dumpValues)
  | "dump-types" => some (.switch .dumpTypes)
  | "help" => some (.switch .help)
  | "version" => some (.switch .version)
  | "format" => some (.setting .format)
  | "color" => some (.setting .color)
  | _ => none

/-- The option of a short name. -/
def Switch.ofChar? : Char → Option Switch
  | 'h' => some .help
  | 'V' => some .version
  | _ => none

/-- What was read and is not looked at yet. -/
inductive Pending where
  | value (s : Setting) (text : Option String)
  | files (names : List String)
  deriving DecidableEq, Repr

/-- A command line read in part. -/
structure Reading where
  files : List String := []
  switches : List Switch := []
  format : Option Format := none
  color : Option ColorMode := none
  pending : Option Pending := none
  /-- Whether `--` was met. -/
  onlyFiles : Bool := false
  deriving DecidableEq, Repr

namespace Reading

/-- Give an option that has none a value. -/
def set (r : Reading) (s : Setting) (text : String) : Except UsageError Reading :=
  match s with
  | .format =>
    if r.format.isSome then .error .repeatedOption
    else match Format.ofName? text with
      | some format => .ok { r with format := some format }
      | none => .error .invalidValue
  | .color =>
    if r.color.isSome then .error .repeatedOption
    else match ColorMode.ofName? text with
      | some color => .ok { r with color := some color }
      | none => .error .invalidValue

/-- Look at what is pending. -/
def settle (r : Reading) : Except UsageError Reading :=
  let settled := { r with pending := none }
  match r.pending with
  | none => .ok settled
  | some (.value _ none) => .error .invalidValue
  | some (.value s (some text)) => settled.set s text
  | some (.files names) =>
    if names.contains "" then .error .invalidValue
    else .ok { settled with files := r.files ++ names }

/-- Read an option that takes no value. -/
def switch (r : Reading) (s : Switch) : Except UsageError Reading := do
  let r ← r.settle
  match s with
  | .help => .error .helpRequested
  | .version => .error .versionRequested
  | _ =>
    if r.switches.contains s then .error .repeatedOption
    else .ok { r with switches := r.switches ++ [s] }

/-- Read an option with a long name, and the value after `=` if there is one. -/
def long (r : Reading) (name : String) (value : Option String) : Except UsageError Reading := do
  match Flag.ofName? name, value with
  | none, _ => .error .unknownOption
  | some (.switch _), some _ => .error .unexpectedValue
  | some (.switch s), none => r.switch s
  | some (.setting s), some text => (← r.settle).set s text
  | some (.setting s), none =>
    let r ← r.settle
    return { r with pending := some (.value s none) }

/-- Read options with short names, which are written together. -/
def short (r : Reading) : List Char → Except UsageError Reading
  | [] => .ok r
  | c :: rest => do
    match Switch.ofChar? c with
    | some s => (← r.switch s).short rest
    | none => .error .unknownOption

/-- Read the name of a file. -/
def file (r : Reading) (name : String) : Except UsageError Reading := do
  match r.pending with
  | some (.files names) => return { r with pending := some (.files (names ++ [name])) }
  | _ =>
    let r ← r.settle
    return { r with pending := some (.files [name]) }

/-- Read an argument that is no option: the value of the option before it, or a file. -/
def operand (r : Reading) (text : String) : Except UsageError Reading :=
  match r.pending with
  | some (.value s none) => .ok { r with pending := some (.value s (some text)) }
  | _ => r.file text

/-- A name and what follows the first `=` in it. -/
def splitValue (cs : List Char) : String × Option String :=
  (String.ofList (cs.takeWhile (· ≠ '=')),
    match cs.dropWhile (· ≠ '=') with
    | [] => none
    | _ :: value => some (String.ofList value))

/-- Read one argument. -/
def next (r : Reading) (argument : String) : Except UsageError Reading :=
  if r.onlyFiles then r.file argument
  else match argument.toList with
    | ['-', '-'] => .ok { r with onlyFiles := true }
    | '-' :: '-' :: cs => r.long (splitValue cs).1 (splitValue cs).2
    | '-' :: c :: cs => r.short (c :: cs)
    | _ => r.operand argument

/-- What was read, with the defaults for what was not. -/
def arguments (r : Reading) : Arguments where
  files := r.files
  externs := r.switches.contains .externs
  dumpValues := r.switches.contains .dumpValues
  dumpTypes := r.switches.contains .dumpTypes
  format := r.format.getD .text
  color := r.color.getD .auto

/-- What a command line that was read to its end asks for. -/
def finish (r : Reading) : Except UsageError Arguments := do
  let r ← r.settle
  if r.files.isEmpty then .error .missingFiles else .ok r.arguments

end Reading

/-- Read a command line. -/
def Arguments.ofList (arguments : List String) : Except UsageError Arguments := do
  (← arguments.foldlM Reading.next {}).finish

end CommandLine

end DocTypes
