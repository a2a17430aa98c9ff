import DocTypes.Types.Store
import DocTypes.Values.Store

/-!
# The store of a run

The types and the values of one run grow together: a class gives a type of instances,
and a type expression may apply a generic class, which gives a value.
-/

namespace DocTypes

/-- The types and the values of one run. -/
structure Store where
  types : TypeStore
  values : ValueStore

namespace Store

/-- No types and no values. -/
def new (prototypeName : Atom) : Store := ⟨TypeStore.new, ValueStore.new prototypeName⟩

/-- A step on the types. -/
def onTypes {α : Type} (f : TypeStore → α × TypeStore) : StateM Store α := fun s =>
  let (x, types) := f s.types
  (x, { s with types })

/-- A step on the values. -/
def onValues {α : Type} (f : ValueStore → α × ValueStore) : StateM Store α := fun s =>
  let (x, values) := f s.values
  (x, { s with values })

/-- The type of the instances of a class or constructed class. -/
def instanceType (cls : ValueId) : StateM Store TypeId := do
  if ((← get).values.constructed? cls).isSome then onTypes (·.constructedInstanceOf cls)
  else onTypes (·.instanceOf cls)

end Store

end DocTypes
