import DocTypes.Handle
import DocTypes.Tree.Arena

/-!
# Type keys

A `TypeKey` is the structure of one type, with the types inside it named by number. Two
types are the same if and only if they have the same key, so a key says all there is to
say about a type; only an alias keeps what it stands for elsewhere, because it is named
before it is understood.

A key is stored as a `StoredKey`, which names the signature of a function by number too.

Keys and signatures are ordered by their codes. The order has no meaning of its own; it lets one
be found among many.

## Main statements

* `TypeKey.code_injective`: different keys have different codes.
* `StoredKey.code_injective`: and so have different stored keys.
-/

namespace DocTypes

/-- The types of primitive values. -/
inductive Primitive where
  | boolean
  | number
  | string
  | symbol
  deriving DecidableEq, Repr

namespace Primitive

/-- The primitives, in the order of their types' numbers. -/
def all : List Primitive := [.boolean, .number, .string, .symbol]

/-- The name of a primitive type. -/
def name : Primitive → String
  | .boolean => "boolean"
  | .number => "number"
  | .string => "string"
  | .symbol => "symbol"

/-- The primitive type of a name. -/
def ofName? (s : String) : Option Primitive := all.find? (·.name == s)

/-- The number of a primitive type. -/
def typeId : Primitive → TypeId
  | .boolean => .boolean
  | .number => .number
  | .string => .string
  | .symbol => .symbol

end Primitive

/-- Whether a function is called or constructs. -/
inductive FunctionKind where
  | normal
  | constructor
  deriving DecidableEq, Repr

namespace FunctionKind

/-- The name of a kind. -/
def name : FunctionKind → String
  | .normal => "Normal"
  | .constructor => "Constructor"

/-- The kind of a name. -/
def ofName? : String → Option FunctionKind
  | "Normal" => some .normal
  | "Constructor" => some .constructor
  | _ => none

end FunctionKind

/-- How many arguments a function takes. `max` counts every parameter, a rest parameter
included; with `hasRest` there is no upper bound. -/
structure Arity where
  min : Nat := 0
  max : Nat := 0
  hasRest : Bool := false
  deriving DecidableEq, Repr, Inhabited

/-- The signature of a function. -/
structure FunctionShape where
  kind : FunctionKind := .normal
  parameters : ListId := .empty
  arity : Arity := {}
  /-- The receiver; `TypeId.unspecified` if nothing is known of it. -/
  thisType : TypeId := .unspecified
  returnType : TypeId := .void
  typeParameters : ListId := .empty
  deriving DecidableEq, Repr

/-- The structure of a type. -/
inductive TypeKey where
  | any
  | invalid
  | nil
  | null
  | void
  | unspecified
  | primitive (p : Primitive)
  /-- Instances of a class. -/
  | instanceOf (cls : ValueId)
  /-- Instances of a generic class applied to types. -/
  | constructedInstanceOf (cls : ValueId)
  | function (shape : FunctionShape)
  /-- Two or more members, in increasing order. -/
  | union (members : ListId)
  | tuple (elements : ListId)
  /-- Labelled types, in the order of their labels. -/
  | record (fields : ListId)
  | labeled (label : Atom) (type : TypeId)
  /-- A `@template` name, with the node that declares it. -/
  | parameter (name : Atom) (node : NodeRef)
  /-- A `@typedef` or `@enum` name, with the tag that declares it. -/
  | aliasOf (name : Atom) (tag : NodeRef)
  /-- A value that is named as a type and is no class. -/
  | reference (value : ValueId)
  deriving DecidableEq, Repr

namespace TypeKey

/-- The signature in the key of a function. -/
def shape? : TypeKey → Option FunctionShape
  | .function shape => some shape
  | _ => none

theorem shape?_eq_some_iff {key : TypeKey} {shape : FunctionShape} :
    key.shape? = some shape ↔ key = .function shape := by
  cases key <;> simp [shape?]

/-- The keys of the intrinsic types, by number. -/
def intrinsics : List TypeKey :=
  [.any, .invalid, .nil, .null, .void, .unspecified, .primitive .boolean, .primitive .number,
    .primitive .string, .primitive .symbol]

/-- The number of an intrinsic type. -/
def intrinsic? : TypeKey → Option TypeId
  | .any => some .any
  | .invalid => some .invalid
  | .nil => some .nil
  | .null => some .null
  | .void => some .void
  | .unspecified => some .unspecified
  | .primitive p => some p.typeId
  | _ => none

/-- The key of an intrinsic type by its name. -/
def ofIntrinsicName? : String → Option TypeKey
  | "Any" => some .any
  | "Invalid" => some .invalid
  | "Nil" => some .nil
  | "Null" => some .null
  | "Void" => some .void
  | "Unspecified" => some .unspecified
  | name => (Primitive.ofName? name).map .primitive

theorem intrinsics_getElem?_of_intrinsic? {key : TypeKey} {t : TypeId}
    (h : key.intrinsic? = some t) : intrinsics[t.index]? = some key := by
  cases key with
  | primitive p => cases p <;> cases h <;> rfl
  | _ => cases h <;> rfl

/-! ## Codes -/

/-- A primitive type as a number. -/
def primitiveCode : Primitive → Nat
  | .boolean => 0
  | .number => 1
  | .string => 2
  | .symbol => 3

/-- A node as a number. -/
def nodeCode : NodeRef → Nat
  | none => 0
  | some n => n + 1

/-- The parts of a signature as numbers. -/
def shapeCode (shape : FunctionShape) : List Nat :=
  [if shape.kind = .normal then 0 else 1, shape.parameters.index, shape.arity.min,
    shape.arity.max, shape.arity.hasRest.toNat, shape.thisType.index, shape.returnType.index,
    shape.typeParameters.index]

/-- A key as a list of numbers: its sort, then its parts. -/
def code : TypeKey → List Nat
  | .any => [0]
  | .invalid => [1]
  | .nil => [2]
  | .null => [3]
  | .void => [4]
  | .unspecified => [5]
  | .primitive p => [6, primitiveCode p]
  | .instanceOf cls => [7, cls.index]
  | .constructedInstanceOf cls => [8, cls.index]
  | .function shape => 9 :: shapeCode shape
  | .union members => [10, members.index]
  | .tuple elements => [11, elements.index]
  | .record fields => [12, fields.index]
  | .labeled label type => [13, label.index, type.index]
  | .parameter name node => [14, name.index, nodeCode node]
  | .aliasOf name tag => [15, name.index, nodeCode tag]
  | .reference value => [16, value.index]

theorem primitiveCode_injective {p q : Primitive} (h : primitiveCode p = primitiveCode q) :
    p = q := by
  cases p <;> cases q <;> simp_all [primitiveCode]

theorem nodeCode_injective {r q : NodeRef} (h : nodeCode r = nodeCode q) : r = q := by
  cases r <;> cases q <;> simp_all [nodeCode]

theorem shapeCode_injective {x y : FunctionShape} (h : shapeCode x = shapeCode y) : x = y := by
  obtain ⟨xk, ⟨xp⟩, ⟨xmin, xmax, xrest⟩, ⟨xthis⟩, ⟨xret⟩, ⟨xt⟩⟩ := x
  obtain ⟨yk, ⟨yp⟩, ⟨ymin, ymax, yrest⟩, ⟨ythis⟩, ⟨yret⟩, ⟨yt⟩⟩ := y
  simp only [shapeCode, List.cons.injEq] at h
  obtain ⟨hk, hp, hmin, hmax, hrest, hthis, hret, ht, _⟩ := h
  have hkind : xk = yk := by
    cases xk <;> cases yk <;> simp_all
  have hbool : xrest = yrest := by
    cases xrest <;> cases yrest <;> simp_all
  simp_all

/-- Different keys have different codes. -/
theorem code_injective {k l : TypeKey} (h : k.code = l.code) : k = l := by
  cases k <;> cases l <;> simp [code] at h ⊢
  case primitive.primitive => exact primitiveCode_injective h
  case instanceOf.instanceOf v w => cases v; cases w; simpa using h
  case constructedInstanceOf.constructedInstanceOf v w => cases v; cases w; simpa using h
  case function.function => exact shapeCode_injective h
  case union.union l m => cases l; cases m; simpa using h
  case tuple.tuple l m => cases l; cases m; simpa using h
  case record.record l m => cases l; cases m; simpa using h
  case labeled.labeled x t y u => cases x; cases t; cases y; cases u; simpa using h
  case parameter.parameter x r y q =>
    cases x
    cases y
    simpa using And.imp_right nodeCode_injective h
  case aliasOf.aliasOf x r y q =>
    cases x
    cases y
    simpa using And.imp_right nodeCode_injective h
  case reference.reference v w => cases v; cases w; simpa using h

end TypeKey

namespace FunctionShape

instance : Ord FunctionShape := ⟨compareOn TypeKey.shapeCode⟩

instance : Std.TransOrd FunctionShape :=
  inferInstanceAs (Std.TransCmp (compareOn TypeKey.shapeCode))

instance : Std.LawfulEqOrd FunctionShape where
  eq_of_compare h := TypeKey.shapeCode_injective (Std.LawfulEqOrd.eq_of_compare h)

end FunctionShape

/-- A key as it is stored. The signature of a function has a number of its own. -/
inductive StoredKey where
  | function (shape : ShapeId)
  | other (key : TypeKey) (plain : key.shape? = none)

namespace StoredKey

/-- A stored key as a list of numbers. -/
def code : StoredKey → List Nat
  | .function shape => [0, shape.index]
  | .other key _ => 1 :: key.code

/-- Different stored keys have different codes. -/
theorem code_injective {k l : StoredKey} (h : k.code = l.code) : k = l := by
  cases k <;> cases l <;> simp [code] at h ⊢
  case function.function x y =>
    cases x
    cases y
    simpa using h
  case other.other => exact TypeKey.code_injective h

instance : Ord StoredKey := ⟨compareOn code⟩

instance : Std.TransOrd StoredKey := inferInstanceAs (Std.TransCmp (compareOn code))

instance : Std.LawfulEqOrd StoredKey where
  eq_of_compare h := code_injective (Std.LawfulEqOrd.eq_of_compare h)

end StoredKey

end DocTypes
