import DocTypes.Json.Token
import DocTypes.Tree.Arena

/-!
# Outlines: trees as they are written down

An `Outline` is a syntax tree as a front end hands it over: each node says its kind,
its span, its name if it has one, the names of its flags, and its children in order,
with `Outline.absent` for a child that is left out. Nothing has been checked yet; the
flags may be unknown and a span may end before it starts.
-/

namespace DocTypes

/-- A syntax tree as it is written down. -/
inductive Outline where
  /-- An optional child that is left out. -/
  | absent
  | node (kind : NodeKind) (start stop : Nat) (name : Option String) (flags : List String)
      (children : List Outline)
  deriving Repr

/-- Why a text is not a syntax tree. -/
inductive LoadError where
  /-- The text is not JSON. -/
  | malformed
  /-- The text is JSON of another shape. -/
  | wrongShape
  /-- Arrays and objects are nested too deeply. -/
  | tooDeep
  /-- A flag of no known name. -/
  | unknownFlag (name : String)
  /-- A node that ends before it starts. -/
  | inverted (kind : NodeKind) (start stop : Nat)
  deriving DecidableEq, Repr

namespace LoadError

/-- What is wrong with a node of a tree that could be read. -/
def message? : LoadError → Option String
  | .malformed | .wrongShape | .tooDeep => none
  | .unknownFlag name => some ("unknown node flag `" ++ name ++ "`")
  | .inverted kind start stop =>
    some (kind.name ++ " node ends (" ++ toString stop ++ ") before it starts ("
      ++ toString start ++ ")")

end LoadError

end DocTypes
