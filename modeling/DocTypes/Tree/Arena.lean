import DocTypes.Source.Span
import DocTypes.Text.Atom
import DocTypes.Tree.Flags
import DocTypes.Tree.Kind

/-!
# The node arena

The nodes of a tree lie in one array and refer to each other by index. A tree is
built from the leaves up, so a node only lists nodes that were there before it.
That order is part of the type: in every `Arena` a present child has a smaller
index than its parent (`Arena.children_lt`), and the recorded parent of a node a
larger one (`Arena.parents_gt`). Walks down to children and up to parents end for
that reason alone.

A child may be absent (`none`), and a node may be listed by several parents; its
recorded parent is then the last that took it.

## Main statements

* `Arena.rank_child_lt`: stepping to a child makes the rank smaller.
* `Arena.lt_of_parent_eq_some`: stepping to the parent makes the index larger.
* `Arena.children_addNode_self`, `Arena.node?_addNode_of_lt`: a new node lists the
  children it was given, and the nodes before it stay as they are.
-/

namespace DocTypes

/-- A node by its index in the arena, or the absence of one where a child is optional. -/
abbrev NodeRef := Option Nat

/-- How far down a walk from here can go: `0` for no node, else one more than the index. -/
def NodeRef.rank : NodeRef → Nat
  | none => 0
  | some n => n + 1

/-- A node of a syntax tree. -/
structure Node where
  kind : NodeKind
  flags : Flags
  span : Span
  /-- A name, an operator, a tag or a literal's text; `Atom.empty` if there is none. -/
  atom : Atom
  children : List NodeRef
  deriving DecidableEq, Repr

/-- Make `index` the parent of every present child in the list. -/
def adopt (index : Nat) (parents : Array NodeRef) : List NodeRef → Array NodeRef
  | [] => parents
  | none :: rest => adopt index parents rest
  | some child :: rest => adopt index (parents.setIfInBounds child (some index)) rest

@[simp] theorem size_adopt (index : Nat) (parents : Array NodeRef) (children : List NodeRef) :
    (adopt index parents children).size = parents.size := by
  induction children generalizing parents with
  | nil => rfl
  | cons c rest ih => cases c <;> simp [adopt, ih]

/-- An adopted child has the new parent; every other node keeps its own. -/
theorem getElem?_adopt (index : Nat) (parents : Array NodeRef) (children : List NodeRef)
    (i : Nat) :
    (adopt index parents children)[i]? =
      if some i ∈ children ∧ i < parents.size then some (some index) else parents[i]? := by
  induction children generalizing parents with
  | nil => simp [adopt]
  | cons c rest ih =>
    cases c with
    | none => simp [adopt, ih]
    | some child =>
      rw [adopt, ih]
      simp only [Array.size_setIfInBounds, List.mem_cons, Option.some.injEq,
        Array.getElem?_setIfInBounds]
      by_cases hrest : some i ∈ rest <;> by_cases hi : i < parents.size <;>
        by_cases hc : i = child <;> simp_all [eq_comm]

/-- The nodes of a tree, each before its parents, with the names they use. -/
structure Arena where
  nodes : Array Node
  parents : Array NodeRef
  atoms : AtomTable
  /-- A present child was there before the node that lists it. -/
  children_lt : ∀ (i : Nat) (node : Node), nodes[i]? = some node →
    ∀ c, some c ∈ node.children → c < i
  /-- There is one parent entry a node. -/
  parents_size : parents.size = nodes.size
  /-- A recorded parent is a later node of the arena. -/
  parents_gt : ∀ (i p : Nat), parents[i]? = some (some p) → i < p ∧ p < nodes.size

namespace Arena

/-- The arena without nodes; its names are the common ones. -/
def empty : Arena where
  nodes := #[]
  parents := #[]
  atoms := AtomTable.new.withCommonNames
  children_lt := by simp
  parents_size := rfl
  parents_gt := by simp

/-- How many nodes there are. -/
def size (a : Arena) : Nat := a.nodes.size

/-- A reference to a node that exists; any other one becomes absent. -/
def existing (a : Arena) (r : NodeRef) : NodeRef := r.filter (· < a.nodes.size)

theorem lt_of_mem_map_existing {a : Arena} {children : List NodeRef} {c : Nat}
    (h : some c ∈ children.map a.existing) : c < a.nodes.size := by
  simp only [List.mem_map, existing, Option.filter_eq_some_iff] at h
  obtain ⟨_, _, _, h⟩ := h
  simpa using h

/-- The atom of a text, added to the arena's names if it is new. -/
def intern (a : Arena) (text : String) : Atom × Arena :=
  let (atom, atoms) := a.atoms.intern text
  (atom, { a with atoms })

/-- Add a node over children that are already there. The children get it as their parent. -/
def addNode (a : Arena) (kind : NodeKind) (flags : Flags) (span : Span) (atom : Atom)
    (children : List NodeRef) : Nat × Arena :=
  let children := children.map a.existing
  let index := a.nodes.size
  (index,
    { nodes := a.nodes.push { kind, flags, span, atom, children }
      parents := adopt index (a.parents.push none) children
      atoms := a.atoms
      children_lt := by
        intro i node hi c hc
        rw [Array.getElem?_push] at hi
        split at hi
        · next heq =>
          obtain rfl := Option.some.inj hi
          exact heq ▸ lt_of_mem_map_existing hc
        · exact a.children_lt i node hi c hc
      parents_size := by simp [a.parents_size]
      parents_gt := by
        intro i p h
        rw [getElem?_adopt] at h
        split at h
        · next hmem =>
          obtain rfl := Option.some.inj (Option.some.inj h)
          exact ⟨lt_of_mem_map_existing hmem.1, by simp [index]⟩
        · rw [Array.getElem?_push] at h
          split at h
          · simp at h
          · have := a.parents_gt i p h
            simp only [Array.size_push]
            omega })

/-! ## Reading nodes -/

/-- The node at a reference. -/
def node? (a : Arena) (r : NodeRef) : Option Node := r.bind (a.nodes[·]?)

/-- The kind of a node. -/
def kind? (a : Arena) (r : NodeRef) : Option NodeKind := (a.node? r).map (·.kind)

/-- Whether a reference is a node of the given kind. -/
def isKind (a : Arena) (r : NodeRef) (kind : NodeKind) : Bool := a.kind? r == some kind

/-- The flags of a node, none for an absent one. -/
def flags (a : Arena) (r : NodeRef) : Flags := ((a.node? r).map (·.flags)).getD Flags.empty

/-- The span of a node, the empty span at `0` for an absent one. -/
def span (a : Arena) (r : NodeRef) : Span := ((a.node? r).map (·.span)).getD Span.zero

/-- The atom of a node, `Atom.empty` for an absent one. -/
def atom (a : Arena) (r : NodeRef) : Atom := ((a.node? r).map (·.atom)).getD Atom.empty

/-- The text of a node's atom. -/
def text (a : Arena) (r : NodeRef) : String := a.atoms.text (a.atom r)

/-- The children of a node in order, absent ones included. -/
def children (a : Arena) (r : NodeRef) : List NodeRef :=
  ((a.node? r).map (·.children)).getD []

/-- The children of a node that are present. -/
def presentChildren (a : Arena) (r : NodeRef) : List Nat := (a.children r).filterMap id

/-- The child at a position, absent past the end. -/
def child (a : Arena) (r : NodeRef) (i : Nat) : NodeRef := ((a.children r)[i]?).join

/-- The node that took this one as a child last. -/
def parent (a : Arena) (r : NodeRef) : NodeRef := (r.bind (a.parents[·]?)).join

/-! ## The order of nodes -/

theorem lt_of_mem_children {a : Arena} {n c : Nat} (h : some c ∈ a.children (some n)) :
    c < n := by
  simp only [children, node?, Option.bind_some] at h
  cases hn : a.nodes[n]? with
  | none => simp [hn] at h
  | some node => exact a.children_lt n node hn c (by simpa [hn] using h)

theorem lt_of_mem_presentChildren {a : Arena} {n c : Nat}
    (h : c ∈ a.presentChildren (some n)) : c < n := by
  simp only [presentChildren, List.mem_filterMap, id_eq] at h
  obtain ⟨_, hmem, rfl⟩ := h
  exact lt_of_mem_children hmem

theorem mem_children_of_child_eq_some {a : Arena} {r : NodeRef} {i c : Nat}
    (h : a.child r i = some c) : some c ∈ a.children r := by
  simp only [child, Option.join_eq_some_iff] at h
  exact List.mem_of_getElem? h

theorem rank_lt_of_mem_children {a : Arena} {n : Nat} {c : NodeRef}
    (h : c ∈ a.children (some n)) : c.rank < n + 1 := by
  cases c with
  | none => simp [NodeRef.rank]
  | some c =>
    exact Nat.succ_lt_succ (lt_of_mem_children h)

/-- A child ranks below its node, present or not. -/
theorem rank_child_lt (a : Arena) (n : Nat) (i : Nat) :
    (a.child (some n) i).rank < n + 1 := by
  cases h : a.child (some n) i with
  | none => simp [NodeRef.rank]
  | some c => exact rank_lt_of_mem_children (mem_children_of_child_eq_some h)

/-- A child never ranks above its node. -/
theorem rank_child_le (a : Arena) (r : NodeRef) (i : Nat) : (a.child r i).rank ≤ r.rank := by
  cases r with
  | none => simp [child, children, node?, NodeRef.rank]
  | some n => exact Nat.le_of_lt (rank_child_lt a n i)

/-- A parent is a later node of the arena. -/
theorem lt_of_parent_eq_some {a : Arena} {n p : Nat} (h : a.parent (some n) = some p) :
    n < p ∧ p < a.size := by
  simp only [parent, Option.bind_some, Option.join_eq_some_iff] at h
  exact a.parents_gt n p h

/-! ## Adding nodes -/

theorem map_existing_eq_self {a : Arena} {children : List NodeRef}
    (h : ∀ c, some c ∈ children → c < a.size) : children.map a.existing = children := by
  refine (List.map_congr_left fun r hr => ?_).trans (List.map_id' children)
  cases r with
  | none => rfl
  | some c => simpa [existing, Option.filter_eq_some_iff, size] using h c hr

theorem size_addNode (a : Arena) (kind : NodeKind) (flags : Flags) (span : Span) (atom : Atom)
    (children : List NodeRef) :
    (a.addNode kind flags span atom children).2.size = a.size + 1 := by
  simp [addNode, size]

/-- A new node lists the children it was given, if they were there. -/
theorem children_addNode_self (a : Arena) (kind : NodeKind) (flags : Flags) (span : Span)
    (atom : Atom) (children : List NodeRef) (h : ∀ c, some c ∈ children → c < a.size) :
    (a.addNode kind flags span atom children).2.children
      (some (a.addNode kind flags span atom children).1) = children := by
  simp [addNode, Arena.children, node?, map_existing_eq_self h]

/-- The nodes that were there before stay as they are. -/
theorem node?_addNode_of_lt {a : Arena} {n : Nat} (kind : NodeKind) (flags : Flags)
    (span : Span) (atom : Atom) (children : List NodeRef) (h : n < a.size) :
    (a.addNode kind flags span atom children).2.node? (some n) = a.node? (some n) := by
  simp only [addNode, node?, Option.bind_some]
  exact Array.getElem?_push_lt h |>.trans (Array.getElem?_eq_getElem h).symm

end Arena

end DocTypes
