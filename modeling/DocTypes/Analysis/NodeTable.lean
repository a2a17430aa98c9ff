import DocTypes.Tree.Arena

/-!
# Tables by node

A `NodeTable` gives some nodes an entry. The absent node may have one too: a malformed
tree can make the analysis write to a child that is not there, and what was written is
read back.

## Main statement

* `NodeTable.get?_insert`: an entry is read back, and no other one changes.
-/

namespace DocTypes

/-- Entries for nodes. -/
structure NodeTable (α : Type) where
  present : Array (Option α) := #[]
  absent : Option α := none
  deriving Repr

namespace NodeTable

variable {α : Type}

/-- No entries. -/
def empty : NodeTable α := {}

/-- The entry of a node. -/
def get? (t : NodeTable α) : NodeRef → Option α
  | none => t.absent
  | some n => t.present[n]?.join

/-- Whether a node has an entry. -/
def contains (t : NodeTable α) (r : NodeRef) : Bool := (t.get? r).isSome

/-- Make room for an entry at a node. -/
def grow (entries : Array (Option α)) (n : Nat) : Array (Option α) :=
  entries ++ Array.replicate (n + 1 - entries.size) none

/-- Give a node an entry, in place of one it may have. -/
def insert (t : NodeTable α) (r : NodeRef) (x : α) : NodeTable α :=
  match r with
  | none => { t with absent := some x }
  | some n => { t with present := (grow t.present n).setIfInBounds n (some x) }

/-- Give a node an entry unless it has one. -/
def insertIfNew (t : NodeTable α) (r : NodeRef) (x : α) : NodeTable α :=
  if t.contains r then t else t.insert r x

/-- The entries in the order of their nodes, the absent node last. -/
def toList (t : NodeTable α) : List (NodeRef × α) :=
  (t.present.toList.zipIdx.filterMap fun (entry, n) => entry.map fun x => (some n, x))
    ++ (t.absent.map fun x => (none, x)).toList

@[simp] theorem get?_empty (r : NodeRef) : (empty : NodeTable α).get? r = none := by
  cases r <;> simp [empty, get?]

theorem join_getElem?_grow (entries : Array (Option α)) (n i : Nat) :
    (grow entries n)[i]?.join = entries[i]?.join := by
  simp only [grow, Array.getElem?_append]
  split
  · rfl
  · next h =>
    rw [Array.getElem?_eq_none (Nat.le_of_not_lt h), Array.getElem?_replicate]
    split <;> rfl

/-- An entry is read back, and no other one changes. -/
theorem get?_insert (t : NodeTable α) (r q : NodeRef) (x : α) :
    (t.insert r x).get? q = if r = q then some x else t.get? q := by
  cases r with
  | none => cases q <;> simp [insert, get?]
  | some n =>
    cases q with
    | none => simp [insert, get?]
    | some m =>
      simp only [insert, get?, Option.some.injEq, Array.getElem?_setIfInBounds]
      by_cases h : n = m
      · subst h
        have : n < (grow t.present n).size := by
          simp only [grow, Array.size_append, Array.size_replicate]
          omega
        simp [this]
      · simp [h, join_getElem?_grow]

theorem get?_insertIfNew (t : NodeTable α) (r q : NodeRef) (x : α) :
    (t.insertIfNew r x).get? q = if r = q then some ((t.get? q).getD x) else t.get? q := by
  unfold insertIfNew contains
  by_cases h : r = q
  · subst h
    cases hq : t.get? r <;> simp [hq, get?_insert]
  · split <;> simp [h, get?_insert]

end NodeTable

end DocTypes
