import DocTypes.Source.Span

/-!
# Diagnostics

A problem found in a tree is a value, never a failure: the analysis notes it and
goes on. A `Diagnostic` says which `Problem` was met, at which span, and, where a
second place explains the first (the earlier binding of a name that is bound
twice), at which related span.

Each problem belongs to one `Category`, the part of the analysis that looks for
it, and `Problem.code` is its written form.
-/

namespace DocTypes

/-- The part of the analysis that reports a problem. -/
inductive Category where
  | environment
  | typeResolver
  | jsDoc
  | classTree
  deriving DecidableEq, Repr

/-- The name of a category in a written code. -/
def Category.name : Category → String
  | .environment => "ENVIRONMENT"
  | .typeResolver => "TYPE_RESOLVER"
  | .jsDoc => "JSDOC"
  | .classTree => "CLASS_TREE"

/-- What can be wrong with an annotated program. -/
inductive Problem where
  /-- A name is bound again in the scope that binds it already. -/
  | duplicateBinding
  /-- A reference that no scope binds. -/
  | undefinedVariable
  /-- A type name that no scope binds. -/
  | undefinedType
  /-- A declaring comment on something that declares nothing. -/
  | unexpectedComment
  /-- A tag that may occur once occurs again. -/
  | repeatedTag
  /-- A second `@param` for one name. -/
  | repeatedParameter
  /-- A second `@template` for one name. -/
  | repeatedTypeParameter
  /-- A tag that does not fit the kind of the comment. -/
  | unexpectedTag
  /-- A visibility tag on something that is not a member. -/
  | unexpectedVisibility
  /-- A tag of no known name. -/
  | unknownTag
  /-- Classes that inherit from each other. -/
  | inheritanceCycle
  /-- A base that names nothing. -/
  | undefinedClass
  /-- A base that should be a class. -/
  | expectedClass
  /-- A base that should be an interface. -/
  | expectedInterface
  /-- A non-null mark on a type without null. -/
  | expectedNullable
  /-- An optional mark outside a parameter list, or after a rest parameter. -/
  | unexpectedOptional
  /-- A rest mark outside a parameter list, or after a rest parameter. -/
  | unexpectedRest
  /-- A record label that occurs again. -/
  | duplicateLabel
  /-- A generic class applied to the wrong number of arguments. -/
  | invalidArity
  /-- Type arguments for something that is not a generic class. -/
  | expectedGenericClass
  /-- A required parameter after an optional or rest one. -/
  | unexpectedRequired
  /-- A default value for a parameter whose type is already optional or rest. -/
  | unexpectedInitializer
  /-- A `@param` that names no parameter. -/
  | undefinedParameter
  /-- A parameter without `@param` beside parameters with one. -/
  | expectedParameterTag
  /-- A `@typedef` or `@enum` that is defined through itself. -/
  | cyclicTypedef
  deriving DecidableEq, Repr

namespace Problem

/-- Every problem, in the order of the numbering that tools use. -/
def all : List Problem :=
  [.duplicateBinding, .undefinedVariable, .undefinedType, .unexpectedComment,
    .repeatedTag, .repeatedParameter, .repeatedTypeParameter, .unexpectedTag,
    .unexpectedVisibility, .unknownTag,
    .inheritanceCycle, .undefinedClass, .expectedClass, .expectedInterface,
    .expectedNullable, .unexpectedOptional, .unexpectedRest, .duplicateLabel, .invalidArity,
    .expectedGenericClass, .unexpectedRequired, .unexpectedInitializer, .undefinedParameter,
    .expectedParameterTag, .cyclicTypedef]

theorem mem_all (p : Problem) : p ∈ all := by
  cases p <;> decide

/-- Which part of the analysis reports the problem. -/
def category : Problem → Category
  | .duplicateBinding | .undefinedVariable | .undefinedType | .unexpectedComment =>
    .environment
  | .repeatedTag | .repeatedParameter | .repeatedTypeParameter | .unexpectedTag
  | .unexpectedVisibility | .unknownTag => .jsDoc
  | .inheritanceCycle | .undefinedClass | .expectedClass | .expectedInterface => .classTree
  | .expectedNullable | .unexpectedOptional | .unexpectedRest | .duplicateLabel
  | .invalidArity | .expectedGenericClass | .unexpectedRequired | .unexpectedInitializer
  | .undefinedParameter | .expectedParameterTag | .cyclicTypedef => .typeResolver

/-- The part of the written code that tells problems of one category apart. -/
def reason : Problem → String
  | .duplicateBinding => "MULTIPLE_OCCURRENCES"
  | .undefinedVariable => "UNDEFINED_VARIABLE"
  | .undefinedType => "UNDEFINED_TYPE"
  | .unexpectedComment => "UNEXPECT_ANNOTATION"
  | .repeatedTag => "MULTIPLE_TAG"
  | .repeatedParameter => "MULTIPLE_PARAMETER"
  | .repeatedTypeParameter => "MULTIPLE_TYPE_PARAMETER"
  | .unexpectedTag => "UNEXPECT_TAG"
  | .unexpectedVisibility => "UNEXPECT_VISIBILITY"
  | .unknownTag => "UNKNOWN_TAG"
  | .inheritanceCycle => "CYCLE"
  | .undefinedClass => "UNDEFINED_CLASS"
  | .expectedClass => "EXPECT_CLASS"
  | .expectedInterface => "EXPECT_INTERFACE"
  | .expectedNullable => "EXPECT_NULLABLE_TYPE"
  | .unexpectedOptional => "UNEXPECT_OPTIONAL"
  | .unexpectedRest => "UNEXPECT_REST"
  | .duplicateLabel => "MULTIPLE_OCCURRENCES"
  | .invalidArity => "INVALID_ARITY"
  | .expectedGenericClass => "EXPECT_GENERIC_CLASS"
  | .unexpectedRequired => "UNEXPECT_REQUIRED"
  | .unexpectedInitializer => "UNEXPECT_INITIALIZER"
  | .undefinedParameter => "UNDEFINED_PARAMETER"
  | .expectedParameterTag => "EXPECT_PARAMETER_TAG"
  | .cyclicTypedef => "CYCLIC_TYPEDEF"

/-- The written code of a problem. -/
def code (p : Problem) : String :=
  "ANALYZER_ERROR_" ++ p.category.name ++ "_" ++ p.reason

/-- Whether the problem is a name that resolves nowhere, which externs do not report. -/
def isUndefinedName : Problem → Bool
  | .undefinedVariable | .undefinedType => true
  | _ => false

end Problem

/-- A problem at a place, with the place that explains it if there is one. -/
structure Diagnostic where
  problem : Problem
  span : Span
  related : Option Span := none
  deriving DecidableEq, Repr

namespace Diagnostic

/-- The line `code@start:stop`. -/
def headline (d : Diagnostic) : String := d.problem.code ++ "@" ++ d.span.render

/-- The indented line that names the related place. -/
def relatedLine : Option Span → String
  | some span => "\n  related@" ++ span.render
  | none => ""

/-- The full record: the headline, and the related place on a line of its own. -/
def render (d : Diagnostic) : String := d.headline ++ relatedLine d.related

end Diagnostic

end DocTypes
