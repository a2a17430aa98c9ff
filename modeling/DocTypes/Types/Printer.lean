import DocTypes.Store

/-!
# Types as text

Types are written as they are in documentation comments: `?Foo` for a class or null,
`(number|string)` for a union, `function(new:Foo, number=): void` for a function. Below
`printDepth` levels the text is cut off with dots.
-/

namespace DocTypes

/-- How many levels of a type are written. -/
def printDepth : Nat := 17

/-- What types are written from: the store of a run and its names. -/
structure Printer where
  store : Store
  atoms : AtomTable

namespace Printer

/-- The text of a name. -/
def name (p : Printer) (atom : Atom) : String := (p.atoms.text? atom).getD "<unknown>"

/-- The name of a variable or property. -/
def slotName (p : Printer) (v : ValueId) : String :=
  match p.store.values.get? v with
  | some { data := .variableSlot name _, .. } => p.name name
  | some { data := .propertySlot (.name name) _ _, .. } => p.name name
  | some { data := .propertySlot (.computed text) _ _, .. } => "[" ++ text ++ "]"
  | _ => "<reference>"

/-- The name of a class, where `type` writes the arguments of a constructed one. There are
at most `size` classes to go through. -/
def classNameWith (p : Printer) (type : TypeId → String) : (size : Nat) → ValueId → String
  | 0, _ => "<unknown>"
  | size + 1, v =>
    match p.store.values.get? v with
    | none => "<unknown>"
    | some { data := .classValue cls, .. } => if cls.name.isEmpty then "<anonymous>" else cls.name
    | some { data := .constructedClass cls, .. } =>
      p.classNameWith type size cls.generic ++ "<"
        ++ ", ".intercalate ((p.store.types.list cls.arguments).map type) ++ ">"
    | some _ => p.slotName v

/-- One parameter of a function: dots before a rest parameter, `=` after an optional one. -/
def parameter (arity : Arity) (count i : Nat) (text : String) : String :=
  if arity.hasRest && i + 1 == count then "..." ++ text
  else if arity.min ≤ i then text ++ "=" else text

/-- The parameters of a function, in order. -/
def parameters (arity : Arity) (texts : List String) : List String :=
  texts.mapIdx fun i text => parameter arity texts.length i text

/-- The receiver of a function, as far as it is written. -/
def receiver (type : TypeId → String) (shape : FunctionShape) : List String :=
  match shape.kind with
  | .constructor => ["new:" ++ type shape.thisType]
  | .normal =>
    if shape.thisType = TypeId.unspecified then [] else ["this:" ++ type shape.thisType]

/-- A type through at most `depth` levels. -/
def typeTo (p : Printer) : (depth : Nat) → TypeId → String
  | 0, _ => "..."
  | depth + 1, t =>
    let type := p.typeTo depth
    let types := p.store.types
    match types.key? t with
    | none => "<type " ++ toString t.index ++ ">"
    | some .any => "*"
    | some .invalid => "<invalid>"
    | some .nil => "<nil>"
    | some .null => "null"
    | some .void => "void"
    | some .unspecified => "?"
    | some (.primitive prim) => prim.name
    | some (.instanceOf cls) | some (.constructedInstanceOf cls) =>
      p.classNameWith type (p.store.values.size + 1) cls
    | some (.union l) =>
      match types.list l with
      | [a, b] =>
        if a = TypeId.null then "?" ++ type b
        else if b = TypeId.null then "?" ++ type a
        else "(" ++ type a ++ "|" ++ type b ++ ")"
      | members => "(" ++ "|".intercalate (members.map type) ++ ")"
    | some (.tuple l) => "[" ++ ", ".intercalate ((types.list l).map type) ++ "]"
    | some (.record l) => "\x7b" ++ ", ".intercalate ((types.list l).map type) ++ "\x7d"
    | some (.labeled label inner) => p.name label ++ ": " ++ type inner
    | some (.function shape) =>
      "function(" ++ ", ".intercalate (receiver type shape ++
        parameters shape.arity ((types.list shape.parameters).map type))
        ++ "): " ++ type shape.returnType
    | some (.parameter name _) | some (.aliasOf name _) => p.name name
    | some (.reference value) => p.slotName value

/-- The text of a type. -/
def type (p : Printer) (t : TypeId) : String := p.typeTo printDepth t

/-- The name of a class or constructed class. -/
def className (p : Printer) (v : ValueId) : String :=
  p.classNameWith (p.typeTo printDepth) (p.store.values.size + 1) v

end Printer

end DocTypes
