import DocTypes.Types.Store
import Mathlib.Order.Defs.Unbundled

/-!
# Numbering keys

Every step on the types, apart from noting what an alias stands for, numbers keys and lists
one after another. `TypeStore.Interns P` says so, for keys that have the property `P`. What one
number more does not change is then not changed by a union or a record either.

## Main statements

* `TypeStore.Interns.union`, `TypeStore.Interns.record` and the lemmas beside them: which keys
  a step numbers.
* `TypeStore.Interns.key?_of_some`: no key that is there changes.
* `TypeStore.Interns.key?_cases`: a key that is new has the property.
* `TypeStore.Interns.shapesUsed`: no signature gets a number without a type that has it.
-/

namespace DocTypes

namespace TypeStore

/-- Keys with a property, and any lists, get numbers. -/
inductive Interns (P : TypeKey → Prop) (s : TypeStore) : TypeStore → Prop
  | refl : Interns P s s
  | key {s' : TypeStore} (h : Interns P s s') (key : TypeKey) (hkey : P key) :
    Interns P s (s'.intern key).2
  | list {s' : TypeStore} (h : Interns P s s') (types : List TypeId) :
    Interns P s (s'.internList types).2

namespace Interns

variable {P : TypeKey → Prop} {s s' s'' : TypeStore}

theorem trans (h : Interns P s s') (h' : Interns P s' s'') : Interns P s s'' := by
  induction h' with
  | refl => exact h
  | key _ key hkey ih => exact ih.key key hkey
  | list _ types ih => exact ih.list types

instance : IsTrans TypeStore (Interns P) := ⟨fun _ _ _ => trans⟩

theorem mono {Q : TypeKey → Prop} (h : Interns P s s') (hPQ : ∀ key, P key → Q key) :
    Interns Q s s' := by
  induction h with
  | refl => exact .refl
  | key _ key hkey ih => exact ih.key key (hPQ key hkey)
  | list _ types ih => exact ih.list types

theorem intern (s : TypeStore) {key : TypeKey} (hkey : P key) : Interns P s (s.intern key).2 :=
  .key .refl key hkey

theorem internList (s : TypeStore) (types : List TypeId) : Interns P s (s.internList types).2 :=
  .list .refl types

section Composite

variable (s)

theorem tuple (hP : ∀ l, P (.tuple l)) (elements : List TypeId) :
    Interns P s (s.tuple elements).2 := (internList s elements).key _ (hP _)

theorem normalUnion (hP : ∀ l, P (.union l)) (flat : List TypeId) :
    Interns P s (s.normalUnion flat).2 := by
  unfold TypeStore.normalUnion
  simp only
  split
  · exact .refl
  split
  · exact .refl
  · exact .refl
  · exact (internList s _).key _ (hP _)

theorem union (hP : ∀ l, P (.union l)) (types : List TypeId) : Interns P s (s.union types).2 :=
  normalUnion s hP _

theorem removeMember (hP : ∀ l, P (.union l)) (t m : TypeId) :
    Interns P s (s.removeMember t m).2 := normalUnion s hP _

theorem labelAll (hP : ∀ label type, P (.labeled label type)) (fields : List (Atom × TypeId)) :
    Interns P s (s.labelAll fields).2 := by
  induction fields generalizing s with
  | nil => exact .refl
  | cons field rest ih =>
    have hlabel : Interns P s (s.labeled field.1 field.2).2 := intern s (hP _ _)
    exact hlabel.trans (ih _)

theorem record (hlabeled : ∀ label type, P (.labeled label type)) (hP : ∀ l, P (.record l))
    (fields : List (Atom × TypeId)) : Interns P s (s.record fields).2 :=
  ((labelAll s hlabeled _).list _).key _ (hP _)

end Composite

/-- No key that is there changes. -/
theorem key?_of_some (h : Interns P s s') {t : TypeId} {key : TypeKey} (ht : s.key? t = some key) :
    s'.key? t = some key := by
  induction h with
  | refl => exact ht
  | key _ key _ ih => exact key?_intern_of_some key ih
  | list _ _ ih => exact ih

/-- A key that is new has the property. -/
theorem key?_cases (h : Interns P s s') {t : TypeId} {key : TypeKey} (ht : s'.key? t = some key) :
    s.key? t = some key ∨ P key := by
  induction h with
  | refl => exact .inl ht
  | key _ other hother ih =>
    rcases key?_intern_cases ht with ht | ⟨-, rfl, -⟩
    · exact ih ht
    · exact .inr hother
  | list _ _ ih => exact ih ht

/-- Lists that have numbers keep them. -/
theorem list_eq (h : Interns P s s') {l : ListId} {ts : List TypeId}
    (hl : s.lists.get? l.index = some ts) : s'.lists.get? l.index = some ts := by
  induction h with
  | refl => exact hl
  | key _ key _ ih => rwa [TypeStore.lists_intern]
  | list _ us ih => exact Registry.get?_intern_of_some us ih

/-- What aliases stand for stays as it is. -/
theorem aliasTargets_eq (h : Interns P s s') : s'.aliasTargets = s.aliasTargets := by
  induction h with
  | refl => rfl
  | key _ key _ ih => exact (aliasTargets_intern _ key).trans ih
  | list _ _ ih => exact ih

end Interns

/-! ## Signatures -/

/-- Every signature is that of an interned type. -/
def ShapesUsed (s : TypeStore) : Prop :=
  ∀ id shape, s.shape? id = some shape → ∃ t, s.key? t = some (.function shape)

/-- A signature that is there after a key was numbered was there before, or is that of the key. -/
theorem shape?_intern_cases {s : TypeStore} {key : TypeKey} {id : ShapeId} {shape : FunctionShape}
    (h : (s.intern key).2.shape? id = some shape) :
    s.shape? id = some shape ∨ key = .function shape := by
  unfold intern at h
  split at h
  · exact .inl h
  · have hfiled : (s.file key).2.shape? id = some shape := h
    unfold file at hfiled
    split at hfiled
    · next shape' hshape =>
      rcases Registry.get?_intern_cases hfiled with hold | ⟨-, rfl⟩
      · exact .inl hold
      · exact .inr (TypeKey.shape?_eq_some_iff.1 hshape)
    · exact .inl hfiled

theorem Interns.shapesUsed {P : TypeKey → Prop} {s s' : TypeStore} (h : Interns P s s')
    (hs : s.ShapesUsed) : s'.ShapesUsed := by
  induction h with
  | refl => exact hs
  | @key u h key hkey ih =>
    intro id shape hid
    rcases shape?_intern_cases hid with hold | rfl
    · obtain ⟨t, ht⟩ := ih id shape hold
      exact ⟨t, key?_intern_of_some key ht⟩
    · exact ⟨_, u.key?_intern _⟩
  | list _ _ ih => exact ih

end TypeStore

end DocTypes
