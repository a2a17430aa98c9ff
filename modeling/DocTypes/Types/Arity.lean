import DocTypes.Diagnostic
import DocTypes.Types.Key

/-!
# Arities

The parameters of a function come in order: required ones, then optional ones, then at
most one rest parameter. `ArityCount` takes the kinds of a parameter list from the left,
reports each one that is out of order, and counts all of them.
-/

namespace DocTypes

/-- How a parameter may be left out. -/
inductive ParameterKind where
  | required
  | optional
  | rest
  deriving DecidableEq, Repr

namespace ParameterKind

/-- The kind that a parameter's type expression gives it. -/
def ofTypeKind : Option NodeKind → ParameterKind
  | some .optionalType => .optional
  | some .restType => .rest
  | _ => .required

/-- The name of a kind. -/
def name : ParameterKind → String
  | .required => "Required"
  | .optional => "Optional"
  | .rest => "Rest"

/-- The kind of a name. -/
def ofName? : String → Option ParameterKind
  | "Required" => some .required
  | "Optional" => some .optional
  | "Rest" => some .rest
  | _ => none

end ParameterKind

/-- The parameters counted so far, and the furthest kind that was met. -/
structure ArityCount where
  reached : ParameterKind := .required
  arity : Arity := {}
  deriving DecidableEq, Repr

namespace ArityCount

/-- What is wrong with a parameter after the furthest kind that was met. -/
def problem? : (reached kind : ParameterKind) → Option Problem
  | .optional, .required | .rest, .required => some .unexpectedRequired
  | .rest, .optional => some .unexpectedOptional
  | .rest, .rest => some .unexpectedRest
  | _, _ => none

/-- The furthest kind after one more parameter. -/
def furthest : (reached kind : ParameterKind) → ParameterKind
  | _, .rest => .rest
  | .required, .optional => .optional
  | reached, _ => reached

/-- Count one more parameter. -/
def push (c : ArityCount) (kind : ParameterKind) : Option Problem × ArityCount :=
  (problem? c.reached kind,
    { reached := furthest c.reached kind
      arity :=
        { min := if kind = .required ∧ c.reached = .required then c.arity.min + 1 else c.arity.min
          max := c.arity.max + 1
          hasRest := c.arity.hasRest || kind == .rest } })

end ArityCount

end DocTypes
