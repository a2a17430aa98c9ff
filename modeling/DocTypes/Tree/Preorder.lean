import DocTypes.Tree.Arena

/-!
# Pre-order

Two ways to list a subtree, a node before what is below it, children from left to
right, without the absent ones.

`Arena.preorder` is the recursive listing. `Walk` is the same listing one node at a
time: a stack of the nodes still to be shown, from which a caller takes the next
node and may then decide not to go below it. The descent may be cut at any node by
a test `skip`; both take that test.
-/

namespace DocTypes

namespace Arena

/-- The nodes at and below `r`, a node before its children. Below a node that `skip`
accepts, nothing is listed. -/
def preorder (a : Arena) (skip : Nat → Bool) (r : NodeRef) : List Nat :=
  match r with
  | none => []
  | some n =>
    if (a.node? (some n)).isNone then []
    else if skip n then [n]
    else n :: (a.presentChildren (some n)).attach.flatMap fun ⟨c, _⟩ => preorder a skip (some c)
termination_by r.rank
decreasing_by exact Nat.succ_lt_succ (lt_of_mem_presentChildren ‹_›)

/-- The sum of numbers. -/
def total : List Nat → Nat
  | [] => 0
  | n :: rest => n + total rest

theorem total_append (xs ys : List Nat) : total (xs ++ ys) = total xs + total ys := by
  induction xs with
  | nil => simp [total]
  | cons x xs ih =>
    simp only [List.cons_append, total, ih]
    omega

/-- The number of nodes a full listing from `n` shows. A node that several parents list
counts once for each of them. -/
def weight (a : Arena) (n : Nat) : Nat :=
  1 + total ((a.presentChildren (some n)).attach.map fun ⟨c, _⟩ => weight a c)
termination_by n
decreasing_by exact lt_of_mem_presentChildren ‹_›

theorem weight_eq (a : Arena) (n : Nat) :
    a.weight n = 1 + total ((a.presentChildren (some n)).map a.weight) := by
  rw [weight]
  simp only [List.map_attach_eq_pmap, List.pmap_eq_map]

end Arena

/-- A listing under way: the nodes still to be shown, the next one first. -/
structure Walk where
  stack : List Nat
  deriving Repr

namespace Walk

/-- A walk over the subtree at `root`, over nothing if there is no such node. -/
def start (a : Arena) (root : NodeRef) : Walk :=
  match root with
  | none => ⟨[]⟩
  | some n => if (a.node? (some n)).isSome then ⟨[n]⟩ else ⟨[]⟩

/-- The next node, and the walk that goes on below it. -/
def next? (a : Arena) : Walk → Option (Nat × Walk)
  | ⟨[]⟩ => none
  | ⟨n :: rest⟩ => some (n, ⟨a.presentChildren (some n) ++ rest⟩)

/-- Leave out what is below `n`, the node shown last. -/
def skipChildren (a : Arena) (n : Nat) (w : Walk) : Walk :=
  ⟨w.stack.drop (a.presentChildren (some n)).length⟩

/-- How many nodes the walk can still show. -/
def weight (a : Arena) (w : Walk) : Nat := Arena.total (w.stack.map a.weight)

theorem weight_next? {a : Arena} {w w' : Walk} {n : Nat} (h : w.next? a = some (n, w')) :
    w'.weight a + 1 = w.weight a := by
  match w with
  | ⟨[]⟩ => simp [next?] at h
  | ⟨m :: rest⟩ =>
    simp only [next?, Option.some.injEq, Prod.mk.injEq] at h
    obtain ⟨rfl, rfl⟩ := h
    simp only [weight, List.map_append, Arena.total_append, List.map_cons, Arena.total,
      Arena.weight_eq a m]
    omega

theorem weight_skipChildren_le (a : Arena) (n : Nat) (w : Walk) :
    (w.skipChildren a n).weight a ≤ w.weight a := by
  simp only [weight, skipChildren, List.map_drop]
  generalize (a.presentChildren (some n)).length = k
  induction k generalizing w with
  | zero => simp
  | succ k ih =>
    match w with
    | ⟨[]⟩ => simp
    | ⟨m :: rest⟩ =>
      have := ih ⟨rest⟩
      simp only [List.map_cons, List.drop_succ_cons, Arena.total] at this ⊢
      omega

/-- Every node the walk shows when the descent is cut below the nodes that `skip` accepts. -/
def toList (a : Arena) (skip : Nat → Bool) (w : Walk) : List Nat :=
  match _h : w.next? a with
  | none => []
  | some (n, rest) =>
    if skip n then n :: toList a skip (rest.skipChildren a n) else n :: toList a skip rest
termination_by w.weight a
decreasing_by
  · have := weight_next? _h
    have := weight_skipChildren_le a n rest
    omega
  · have := weight_next? _h
    omega

end Walk

end DocTypes
