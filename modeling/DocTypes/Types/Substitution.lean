import DocTypes.Store

/-!
# Substitution in types

A `Substitution` gives types for type parameters. `Store.instantiate` replaces the
parameters of a type, all at once: what is put in is not looked at again. Unions and
records inside the type get their normal form anew, and a generic class applied to types
is applied to the types that come out.

Types are followed through a bounded number of levels, `instantiationDepth`. What lies
deeper is left as it is.
-/

namespace DocTypes

/-- Types for type parameters; the first entry of a parameter counts. -/
abbrev Substitution := List (TypeId × TypeId)

namespace Substitution

/-- The substitution of a list of pairs, of which a later one replaces an earlier one. -/
def ofPairs (pairs : List (TypeId × TypeId)) : Substitution := pairs.reverse

/-- Parameters with their arguments. What is left over on either side is ignored. -/
def ofArguments (parameters arguments : List TypeId) : Substitution :=
  ofPairs (parameters.zip arguments)

/-- The type for a parameter. -/
def get? (s : Substitution) (parameter : TypeId) : Option TypeId := s.lookup parameter

end Substitution

/-- How many levels of a type are followed. -/
def instantiationDepth : Nat := 50

namespace Store

/-- Apply a generic class again, to its arguments as `inst` changes them. A value that is
no constructed class stays as it is. -/
def instantiateClassWith (inst : TypeId → StateM Store TypeId) (cls : ValueId) :
    StateM Store ValueId := do
  match (← get).values.get? cls with
  | some { node, data := .constructedClass data, .. } =>
    let arguments ← ((← get).types.list data.arguments).mapM inst
    let arguments ← onTypes (·.internList arguments)
    onValues (·.newConstructedClass node data.generic arguments)
  | _ => return cls

/-- The fields of a record, with their types changed. -/
def instantiateFields (inst : TypeId → StateM Store TypeId) :
    List TypeId → StateM Store (List (Atom × TypeId))
  | [] => return []
  | field :: rest => do
    match (← get).types.key? field with
    | some (.labeled label type) =>
      let type ← inst type
      return (label, type) :: (← instantiateFields inst rest)
    | _ => instantiateFields inst rest

/-- Replace the type parameters of a type, through at most `depth` levels. -/
def instantiateTo (s : Substitution) : (depth : Nat) → TypeId → StateM Store TypeId
  | 0, t => return t
  | depth + 1, t => do
    if s.isEmpty || t.isIntrinsic then return t
    let inst := instantiateTo s depth
    match (← get).types.key? t with
    | some (.parameter _ _) => return (s.get? t).getD t
    | some (.union l) =>
      let types ← ((← get).types.list l).mapM inst
      onTypes (·.union types)
    | some (.tuple l) =>
      let types ← ((← get).types.list l).mapM inst
      onTypes (·.tuple types)
    | some (.record l) =>
      let fields ← instantiateFields inst ((← get).types.list l)
      onTypes (·.record fields)
    | some (.labeled label type) =>
      let type ← inst type
      onTypes (·.labeled label type)
    | some (.function shape) =>
      let parameters ← ((← get).types.list shape.parameters).mapM inst
      let parameters ← onTypes (·.internList parameters)
      let thisType ← inst shape.thisType
      let returnType ← inst shape.returnType
      onTypes (·.function { shape with parameters, thisType, returnType })
    | some (.constructedInstanceOf cls) =>
      let cls ← instantiateClassWith inst cls
      onTypes (·.constructedInstanceOf cls)
    | _ => return t

/-- Replace the type parameters of a type. -/
def instantiate (s : Substitution) (t : TypeId) : StateM Store TypeId :=
  instantiateTo s instantiationDepth t

/-- Replace the type parameters in the arguments of a constructed class. -/
def instantiateClass (s : Substitution) (cls : ValueId) : StateM Store ValueId :=
  instantiateClassWith (instantiateTo s instantiationDepth) cls

end Store

end DocTypes
