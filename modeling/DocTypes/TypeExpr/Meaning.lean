import DocTypes.Analysis.Denotation
import DocTypes.Binding.Names
import DocTypes.Comment.Tag
import DocTypes.Types.Arity

/-!
# What a type expression means

`TypeExpr.meaning` gives the type of one type expression, once the expressions below it
have theirs. A class name means the class or null. A `@typedef` or `@enum` name means what
its tag says; if that is not known yet, the meaning is an `expansion`, and the tag's own
type expression comes first.

Problems are reported where they stand, and a type is given all the same.
-/

namespace DocTypes

/-- Where a type expression stands. Optional and rest marks belong to parameters. -/
inductive Position where
  | plain
  | parameter
  deriving DecidableEq, Repr

/-- The position of a name. -/
def Position.ofName? : String → Option Position
  | "Plain" => some .plain
  | "Parameter" => some .parameter
  | _ => none

/-- What one type expression means, given the meanings below it. -/
inductive Meaning where
  | type (t : TypeId)
  /-- The node is part of a type expression and has no type of its own. -/
  | nothing
  /-- What the alias stands for, which the type expression `operand` says. -/
  | expansion (t : TypeId) (operand : Nat)
  deriving DecidableEq, Repr

namespace TypeExpr

/-- The types of the children of a node, from a position on. -/
def childTypes (a : Arena) (n : Nat) (skip : Nat) : Analyze (List TypeId) := do
  let x ← get
  return ((a.children (some n)).drop skip).map x.typeOf

/-- The type of a child of a node. -/
def childType (a : Arena) (r : NodeRef) (i : Nat) : Analyze TypeId := do
  return (← get).typeOf (a.child r i)

/-- The union of two types. -/
def union2 (t u : TypeId) : Analyze TypeId := Analysis.onTypes (·.union [t, u])

/-! ## Names -/

/-- What an alias stands for if its tag has no type expression. -/
def defaultTarget (a : Arena) (t : TypeId) (tag : NodeRef) : Analyze TypeId := do
  let target := if a.text tag = "enum" then TypeId.number else .unspecified
  Analysis.onTypes fun types => ((), types.setAliasTarget t target)
  return target

/-- What a name that is bound to a type means where it is used. -/
def named (a : Arena) (t : TypeId) : Analyze Meaning := do
  let types := (← get).store.types
  match types.key? t with
  | some (.instanceOf _) | some (.constructedInstanceOf _) => return .type (← union2 t .null)
  | some (.aliasOf _ tag) =>
    match types.aliasTarget? t with
    | some target => return .type target
    | none =>
      match a.typeOperand tag with
      | some operand => return .expansion t operand
      | none => return .type (← defaultTarget a t tag)
  | _ => return .type t

/-- What a type name means. A name that is bound nowhere was reported before. -/
def typeName (a : Arena) (n : Nat) : Analyze Meaning := do
  let reference := a.child (some n) 0
  let x ← get
  match a.kind? reference with
  | some .identifier =>
    match x.typeOf? reference with
    | some t => named a t
    | none => return .type ((builtinType? (a.text reference)).getD .unspecified)
  | some .memberExpression =>
    match x.resolvePath a reference with
    | some v =>
      match x.namedType? v with
      | some t => named a t
      | none =>
        let denoted := x.denote v
        let t ←
          if x.store.values.isClassLike denoted then (Store.instanceType denoted : StateM Store _)
          else Analysis.onTypes (·.reference denoted)
        return .type (← union2 t .null)
    | none =>
      if (x.valueOf? (a.pathRoot reference)).isSome then
        Analysis.reportAt a .undefinedType (some n)
      return .type .unspecified
  | _ => return .type .unspecified

/-- What the name of an applied type is bound to: nothing, something else than a class
(`some none`), or a class. -/
def appliedClass? (x : Analysis) (a : Arena) (name : NodeRef) : Option (Option ValueId) :=
  let reference := a.child name 0
  match a.kind? reference with
  | some .identifier =>
    match x.typeOf? reference with
    | some t =>
      match x.store.types.key? t with
      | some (.instanceOf cls) => some (some cls)
      | _ => some none
    | none => (builtinType? (a.text reference)).map fun _ => none
  | some .memberExpression =>
    (x.resolvePath a reference).map fun v =>
      if (x.store.values.class? (x.denote v)).isSome then some (x.denote v) else none
  | _ => none

/-- A generic class applied to types. With the wrong number of types it means the class
itself. -/
def application (a : Arena) (n : Nat) : Analyze TypeId := do
  let x ← get
  match appliedClass? x a (a.child (some n) 0) with
  | none => return .unspecified
  | some none =>
    Analysis.reportAt a .expectedGenericClass (some n)
    return .unspecified
  | some (some cls) =>
    let arguments ← childTypes a n 1
    let count := ((x.store.values.class? cls).map (·.typeParameters.length)).getD 0
    let raw ← Analysis.onTypes (·.instanceOf cls)
    if count = 0 then
      Analysis.reportAt a .expectedGenericClass (some n)
      union2 raw .null
    else if count ≠ arguments.length then
      Analysis.reportAt a .invalidArity (some n)
      union2 raw .null
    else
      let arguments ← Analysis.onTypes (·.internList arguments)
      let constructed ← Analysis.onValues (·.newConstructedClass (some n) cls arguments)
      let t ← Analysis.onTypes (·.constructedInstanceOf constructed)
      union2 t .null

/-! ## Composite types -/

/-- Types that say nothing about null. -/
def isNeutral (types : TypeStore) (t : TypeId) : Bool :=
  t = .any || t = .unspecified || t = .invalid ||
    match types.key? t with
    | some (.parameter _ _) => true
    | _ => false

/-- A type without null. -/
def nonNullable (a : Arena) (n : Nat) : Analyze TypeId := do
  let inner ← childType a (some n) 0
  let types := (← get).store.types
  if types.hasMember inner .null then Analysis.onTypes (·.removeMember inner .null)
  else
    if !isNeutral types inner then Analysis.reportAt a .expectedNullable (some n)
    return inner

/-- The type a member of a record has; every value if it says none. -/
def memberType (x : Analysis) (a : Arena) (member : NodeRef) : TypeId :=
  match a.child member 1 with
  | none => .any
  | type => x.typeOf type

/-- The fields of a record, the first of each label. A label that occurs again is reported
once. -/
def fields (a : Arena) (read : List (Atom × TypeId)) (reported : List Atom) :
    List NodeRef → Analyze (List (Atom × TypeId))
  | [] => return read
  | member :: rest => do
    let label := a.atom (a.child member 0)
    if read.any (·.1 = label) then
      if reported.contains label then fields a read reported rest
      else
        Analysis.reportAt a .duplicateLabel member
        fields a read (label :: reported) rest
    else fields a (read ++ [(label, memberType (← get) a member)]) reported rest

/-- A function type under construction. -/
structure Signature where
  kind : FunctionKind := .normal
  thisType : TypeId := .unspecified
  parameters : List TypeId := []
  count : ArityCount := {}

/-- Add one entry of a parameter list to a function type. -/
def pushParameter (a : Arena) (s : Signature) (param : NodeRef) : Analyze Signature := do
  match a.kind? param with
  | some .thisType => return { s with thisType := ← childType a param 0 }
  | some .newType => return { s with kind := .constructor, thisType := ← childType a param 0 }
  | kind =>
    let (problem?, count) := s.count.push (.ofTypeKind kind)
    match problem? with
    | some problem => Analysis.reportAt a problem param
    | none => pure ()
    return { s with parameters := s.parameters ++ [(← get).typeOf param], count }

/-- A function type. -/
def function (a : Arena) (n : Nat) : Analyze TypeId := do
  let signature ← (a.children (a.child (some n) 0)).foldlM (pushParameter a) {}
  let x ← get
  let returnType := match a.child (some n) 1 with
    | none => TypeId.void
    | result => x.typeOf result
  let parameters ← Analysis.onTypes (·.internList signature.parameters)
  Analysis.onTypes (·.function
    { kind := signature.kind, parameters, arity := signature.count.arity
      thisType := signature.thisType, returnType })

/-- What a type expression means, given the meanings below it. -/
def meaning (a : Arena) (n : Nat) (position : Position) : Analyze Meaning := do
  match a.kind? (some n) with
  | some .anyType => return .type .any
  | some .unknownType => return .type .unspecified
  | some .voidType => return .type .void
  | some .typeName => typeName a n
  | some .typeApplication => return .type (← application a n)
  | some .nullableType => return .type (← union2 (← childType a (some n) 0) .null)
  | some .nonNullableType => return .type (← nonNullable a n)
  | some .optionalType =>
    let inner ← childType a (some n) 0
    match position with
    | .parameter => return .type (← union2 inner .void)
    | .plain =>
      Analysis.reportAt a .unexpectedOptional (some n)
      return .type inner
  | some .restType =>
    if position = .plain then Analysis.reportAt a .unexpectedRest (some n)
    return .type (← childType a (some n) 0)
  | some .unionType =>
    let types ← childTypes a n 0
    return .type (← Analysis.onTypes (·.union types))
  | some .tupleType =>
    let types ← childTypes a n 0
    return .type (← Analysis.onTypes (·.tuple types))
  | some .recordMember =>
    let type := memberType (← get) a (some n)
    return .type (← Analysis.onTypes (·.labeled (a.atom (a.child (some n) 0)) type))
  | some .recordType =>
    let fields ← fields a [] [] (a.children (some n))
    return .type (← Analysis.onTypes (·.record fields))
  | some .functionType => return .type (← function a n)
  | some .thisType | some .newType => return .type (← childType a (some n) 0)
  | _ => return .nothing

end TypeExpr

end DocTypes
