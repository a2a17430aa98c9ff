import DocTypes.Proofs.Types.Arities
import DocTypes.Proofs.Types.Interning

/-!
# Function types that fit their arities

The arity of a function is counted beside the list of its parameters, and nothing in a
`FunctionShape` says that the two go together. `TypeStore.Fits` says so: there are as many
parameters as the arity counts, no more of them are required, and fewer are if the last one takes
the rest. A shape whose arity was counted from as many kinds as it has parameters fits
(`Fits.ofCovers`).

## Main statements

* `TypeStore.ShapesFit.interns`, `TypeStore.ShapesFit.function`: what keeps the shapes of a store
  fitting.
-/

namespace DocTypes

/-- A key that is no function. -/
def TypeKey.Shapeless (key : TypeKey) : Prop := ∀ shape, key ≠ .function shape

/-- The counter was given one kind for each of the types. -/
def ArityCount.Covers (c : ArityCount) (types : List TypeId) : Prop :=
  ∃ kinds, c.Counts kinds ∧ types.length = kinds.length

namespace ArityCount

theorem covers_nil : Covers {} [] := ⟨[], Counts.nil, rfl⟩

theorem Covers.push {c : ArityCount} {types : List TypeId} (h : c.Covers types)
    (kind : ParameterKind) (t : TypeId) : (c.push kind).2.Covers (types ++ [t]) := by
  obtain ⟨kinds, hcounts, hlength⟩ := h
  refine ⟨kinds ++ [kind], hcounts.push kind, ?_⟩
  rw [List.length_append, List.length_append, hlength]
  rfl

end ArityCount

namespace TypeStore

/-- The arity of a function goes with the list of its parameters. -/
structure Fits (types : TypeStore) (shape : FunctionShape) : Prop where
  known : (types.lists.get? shape.parameters.index).isSome
  max : shape.arity.max = (types.list shape.parameters).length
  min_le : shape.arity.min ≤ shape.arity.max
  min_lt : shape.arity.hasRest = true → shape.arity.min < shape.arity.max

/-- Every function type has an arity that goes with its parameters. -/
def ShapesFit (types : TypeStore) : Prop :=
  ∀ t shape, types.key? t = some (.function shape) → types.Fits shape

variable {types types' : TypeStore} {shape : FunctionShape}

/-- A shape with the arity of a counter that was given a kind for each parameter. -/
theorem Fits.ofCovers {c : ArityCount} {ts : List TypeId} (hc : c.Covers ts)
    (harity : shape.arity = c.arity)
    (hlist : types.lists.get? shape.parameters.index = some ts) : types.Fits shape := by
  obtain ⟨kinds, hcounts, hlength⟩ := hc
  refine ⟨Option.isSome_of_eq_some hlist, ?_, harity ▸ hcounts.min_le_max,
    harity ▸ hcounts.min_lt_max⟩
  rw [harity, hcounts.max, TypeStore.list, hlist, Option.getD_some, hlength]

/-- What fits goes on to fit when lists keep their types. -/
theorem Fits.mono (h : types.Fits shape) (hlists : ∀ ts,
    types.lists.get? shape.parameters.index = some ts →
      types'.lists.get? shape.parameters.index = some ts) : types'.Fits shape where
  known := by
    obtain ⟨ts, hts⟩ := Option.isSome_iff_exists.mp h.known
    exact Option.isSome_of_eq_some (hlists ts hts)
  max := by
    obtain ⟨ts, hts⟩ := Option.isSome_iff_exists.mp h.known
    have hmax := h.max
    rw [TypeStore.list, hts] at hmax
    rw [TypeStore.list, hlists ts hts, hmax]
  min_le := h.min_le
  min_lt := h.min_lt

/-- What matters of a shape is its arity and the length of its list. -/
theorem Fits.withParameters {shape' : FunctionShape} {ts : List TypeId} (h : types.Fits shape)
    (harity : shape'.arity = shape.arity)
    (hlist : types'.lists.get? shape'.parameters.index = some ts)
    (hlength : ts.length = (types.list shape.parameters).length) : types'.Fits shape' where
  known := Option.isSome_of_eq_some hlist
  max := by
    rw [harity, h.max, ← hlength, TypeStore.list, hlist, Option.getD_some]
  min_le := harity ▸ h.min_le
  min_lt := harity ▸ h.min_lt

/-- Numbering lists, and keys that are no functions. -/
theorem ShapesFit.interns (h : types.ShapesFit)
    (hinterns : types.Interns TypeKey.Shapeless types') :
    types'.ShapesFit := by
  intro t shape ht
  rcases hinterns.key?_cases ht with hold | hnew
  · exact (h t shape hold).mono fun _ => hinterns.list_eq
  · exact absurd rfl (hnew shape)

/-- Numbering a function that fits. -/
theorem ShapesFit.function (h : types.ShapesFit) (hshape : types.Fits shape) :
    (types.function shape).2.ShapesFit := by
  have hlists : (types.function shape).2.lists = types.lists := types.lists_intern (.function shape)
  intro t other ht
  have hfits : types.Fits other := by
    rcases key?_intern_cases ht with hold | ⟨-, hnew, -⟩
    · exact h t other hold
    · exact TypeKey.function.inj hnew ▸ hshape
  exact hfits.mono fun ts hts => hlists ▸ hts

end TypeStore

end DocTypes
