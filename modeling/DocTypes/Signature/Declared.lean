import DocTypes.Signature.Parameters

/-!
# Declared types

The type that a comment gives to the declaration below it: a function type for a function
or constructor, the type of the instances for an interface, the type in the tag for
`@type` and `@define`, and an alias for `@typedef` and `@enum`.
-/

namespace DocTypes

/-- What a comment stands on. -/
structure Declaration where
  /-- The function that is defined. -/
  function : NodeRef := none
  /-- The class that is declared. -/
  cls : Option ValueId := none
  /-- The type of the object a method is installed on. -/
  receiver : Option TypeId := none
  /-- The name under which an alias is declared. -/
  name : Atom := .empty

namespace Signature

/-- The type of the instances of a class that may be missing. -/
def instanceTypeOf (cls : Option ValueId) : Analyze TypeId :=
  match cls with
  | some v => Analysis.onTypes (·.instanceOf v)
  | none => return .unspecified

/-- The receiver of a function: what `@this` says, else the object it is installed on. -/
def receiverType (a : Arena) (doc : Option DocComment) (d : Declaration) :
    Analyze TypeId := do
  match doc.bind (·.typeOf a .thisTag) with
  | some operand =>
    let type ← TypeExpr.transform a (some operand) .plain
    Analysis.onTypes (·.removeMember type .null)
  | none => return d.receiver.getD .unspecified

/-- What a function returns: nothing, unless a tag says otherwise. -/
def returnType (a : Arena) (doc : Option DocComment) : Analyze TypeId :=
  match doc.bind (·.typeOf a .returnTag) with
  | some operand => TypeExpr.transform a (some operand) .plain
  | none => return .void

/-- The types of the `@template` names. -/
def typeParameters (x : Analysis) (doc : Option DocComment) : List TypeId :=
  match doc with
  | some doc => doc.typeParameters.filterMap fun name => x.typeOf? (some name)
  | none => []

/-- The type of a function. -/
def functionType (a : Arena) (doc : Option DocComment) (d : Declaration)
    (kind : FunctionKind) : Analyze TypeId := do
  let thisType ← match kind with
    | .constructor => instanceTypeOf d.cls
    | .normal => receiverType a doc d
  let parameters ← parameters a doc d.function
  let returnType ← returnType a doc
  let typeParameters := typeParameters (← get) doc
  let types ← Analysis.onTypes (·.internList parameters.types)
  let typeParameters ← Analysis.onTypes (·.internList typeParameters)
  Analysis.onTypes (·.function
    { kind, parameters := types, arity := parameters.count.arity, thisType, returnType
      typeParameters })

/-- The alias that a tag declares. What it stands for is worked out now. -/
def aliasType (a : Arena) (doc : DocComment) (slot : TagSlot) (name : Atom) :
    Analyze TypeId := do
  let t ← Analysis.onTypes (·.aliasOf name (doc.tag slot))
  let _ ← TypeExpr.resolveAlias a t
  return t

/-- The type that a comment declares. -/
def declaredType (a : Arena) (doc : DocComment) (d : Declaration) : Analyze TypeId :=
  match doc.kind with
  | .constructor => functionType a (some doc) d .constructor
  | .interface => instanceTypeOf d.cls
  | .function => functionType a (some doc) d .normal
  | .type => TypeExpr.transform a (doc.typeOf a .typeTag) .plain
  | .define => TypeExpr.transform a (doc.typeOf a .defineTag) .plain
  | .typedef => aliasType a doc .typedefTag d.name
  | .enum => aliasType a doc .enumTag d.name
  | .dict => return .any
  | .plain =>
    if d.function.isSome then functionType a (some doc) d .normal
    else return .unspecified

/-- The type of a function without a comment. -/
def plainFunctionType (a : Arena) (d : Declaration) : Analyze TypeId :=
  functionType a none d .normal

/-- The type of a class body, whose function is its `constructor` method. -/
def constructorType (a : Arena) (doc : Option DocComment) (d : Declaration) :
    Analyze TypeId :=
  functionType a doc d .constructor

end Signature

end DocTypes
