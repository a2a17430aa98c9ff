import Std.Data.TreeMap

/-!
# Registries

A `Registry` holds different items, numbered from zero in the order in which they came.
An item that comes again keeps its number, so the number stands for the item. A search
tree finds the number of an item; the registry carries the proof that the tree and the
items agree.

## Main statements

* `Registry.find?_eq_some_iff`: an item has a number if and only if it stands there.
* `Registry.get?_intern`, `Registry.get?_intern_of_some`: a number that was given is read
  back as its item, also after more items came.
* `Registry.eq_of_get?_eq`: an item has one number.
* `Registry.toList_insert_of_mem`, `Registry.toList_insert_of_not_mem`: an item that is
  there changes nothing, and one that is new comes last.
* `Registry.nodup_toList`: no item stands twice.
-/

namespace DocTypes

/-- Different items, by number. -/
structure Registry (α : Type) [Ord α] where
  items : Array α
  index : Std.TreeMap α Nat
  index_iff : ∀ (x : α) (i : Nat), index[x]? = some i ↔ items[i]? = some x

namespace Registry

variable {α : Type} [Ord α]

/-- No items. -/
def empty : Registry α where
  items := #[]
  index := {}
  index_iff _ _ := by
    constructor
    · intro h
      cases h
    · intro h
      simp at h

/-- How many items there are. -/
def size (r : Registry α) : Nat := r.items.size

/-- The items in the order of their numbers. -/
def toList (r : Registry α) : List α := r.items.toList

/-- The item at a number. -/
def get? (r : Registry α) (i : Nat) : Option α := r.items[i]?

/-- The number of an item. -/
def find? (r : Registry α) (x : α) : Option Nat := r.index[x]?

/-- Whether there is such an item. -/
def contains (r : Registry α) (x : α) : Bool := (r.find? x).isSome

theorem find?_eq_some_iff {r : Registry α} {x : α} {i : Nat} :
    r.find? x = some i ↔ r.get? i = some x := r.index_iff x i

theorem contains_iff_mem {r : Registry α} {x : α} : r.contains x = true ↔ x ∈ r.toList := by
  simp only [contains, Option.isSome_iff_exists, find?_eq_some_iff, get?, toList,
    Array.mem_toList_iff, Array.mem_iff_getElem?]

/-- An item has one number. -/
theorem eq_of_get?_eq {r : Registry α} {i j : Nat} {x : α} (hi : r.get? i = some x)
    (hj : r.get? j = some x) : i = j :=
  Option.some.inj ((find?_eq_some_iff.2 hi).symm.trans (find?_eq_some_iff.2 hj))

/-- No item stands twice. -/
theorem nodup_toList (r : Registry α) : r.toList.Nodup := by
  rw [List.Nodup, List.pairwise_iff_getElem]
  intro i j hi hj hij heq
  have hfirst : r.get? i = some r.toList[i] := by
    simp [get?, toList]
  have hsecond : r.get? j = some r.toList[i] := by
    rw [heq]
    simp [get?, toList]
  have hnumber := eq_of_get?_eq hfirst hsecond
  omega

theorem lt_size_of_get? {r : Registry α} {i : Nat} {x : α} (h : r.get? i = some x) :
    i < r.size := (Array.getElem?_eq_some_iff.1 h).1

variable [Std.TransOrd α] [Std.LawfulEqOrd α]

/-- Add an item that has no number yet. -/
def push (r : Registry α) (x : α) (h : r.find? x = none) : Registry α where
  items := r.items.push x
  index := r.index.insert x r.items.size
  index_iff y i := by
    rw [Std.TreeMap.getElem?_insert, Array.getElem?_push]
    by_cases hxy : x = y
    · subst hxy
      have hnot : r.items[i]? ≠ some x := fun hi => by
        have := (r.index_iff x i).2 hi
        simp [find?] at h
        simp [h] at this
      by_cases hi : i = r.items.size
      · simp [hi]
      · simp [hi, hnot, Ne.symm hi]
    · have hcmp : compare x y ≠ .eq := fun hc => hxy (Std.LawfulEqOrd.eq_of_compare hc)
      by_cases hi : i = r.items.size
      · have hnot : r.index[y]? ≠ some r.items.size := fun hy => by
          have := (r.index_iff y _).1 hy
          simp at this
        simp [hcmp, hi, hnot, hxy]
      · simp [hcmp, hi, r.index_iff]

/-- The number of an item, which is the next free one if the item is new. -/
def intern (r : Registry α) (x : α) : Nat × Registry α :=
  match h : r.find? x with
  | some i => (i, r)
  | none => (r.size, r.push x h)

/-- The registry with an item added, unless it is there. -/
def insert (r : Registry α) (x : α) : Registry α := (r.intern x).2

/-! ## Reading back -/

/-- A number that is given is read back as its item. -/
theorem get?_intern (r : Registry α) (x : α) : (r.intern x).2.get? (r.intern x).1 = some x := by
  unfold intern
  split
  · next i h => exact find?_eq_some_iff.1 h
  · simp [push, get?, size]

/-- No item that is there loses its number. -/
theorem get?_intern_of_some {r : Registry α} {i : Nat} {y : α} (x : α)
    (h : r.get? i = some y) : (r.intern x).2.get? i = some y := by
  unfold intern
  split
  · exact h
  · simp only [push, get?] at h ⊢
    obtain ⟨hlt, heq⟩ := Array.getElem?_eq_some_iff.1 h
    rw [Array.getElem?_push_lt hlt, heq]

/-- What is found after an item came was there before, or is that item under the next free
number. -/
theorem get?_intern_cases {r : Registry α} {i : Nat} {x y : α}
    (h : (r.intern x).2.get? i = some y) : r.get? i = some y ∨ (i = r.size ∧ y = x) := by
  unfold intern at h
  split at h
  · exact .inl h
  · simp only [push, get?, Array.getElem?_push] at h
    split at h
    · next hi => exact .inr ⟨hi, (Option.some.inj h).symm⟩
    · exact .inl h

/-- An item that is there changes nothing. -/
theorem toList_insert_of_mem {r : Registry α} {x : α} (h : x ∈ r.toList) :
    (r.insert x).toList = r.toList := by
  have hsome : (r.find? x).isSome = true := contains_iff_mem.2 h
  unfold insert intern
  split
  · rfl
  · next hnone => simp [hnone] at hsome

/-- An item that is new comes last. -/
theorem toList_insert_of_not_mem {r : Registry α} {x : α} (h : x ∉ r.toList) :
    (r.insert x).toList = r.toList ++ [x] := by
  have hnone : ¬(r.find? x).isSome = true := fun hx => h (contains_iff_mem.1 hx)
  unfold insert intern
  split
  · next i hi => simp [hi] at hnone
  · simp [push, toList]

/-- What is added is an item, and every item that was there still is. -/
theorem mem_toList_insert {r : Registry α} {x y : α} :
    y ∈ (r.insert x).toList ↔ y ∈ r.toList ∨ y = x := by
  by_cases h : x ∈ r.toList
  · rw [toList_insert_of_mem h]
    exact ⟨Or.inl, fun hy => hy.elim id fun hyx => hyx ▸ h⟩
  · simp [toList_insert_of_not_mem h]

end Registry

end DocTypes
