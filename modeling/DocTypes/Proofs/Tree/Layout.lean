import DocTypes.Proofs.Tree.Loading
import DocTypes.Proofs.Tree.Loops
import DocTypes.Tree.Builder
import DocTypes.Tree.Packed
import Mathlib.Order.Bounds.Basic

/-!
# How nodes lie in an arena

A tree is made by adding nodes, each after its children, with names interned in between.
`Arena.Adds a nodes b` says that `b` is `a` after such a sequence of steps, and `nodes` are the
nodes that were added, in order. Every tree that is loaded, and every tree that is put together with
the builder, comes about in this way.

The sequence settles the layout (`Arena.LaidOut`): the node with number `n` is the one that
was added `n`-th, and the parent of a node is the last node that listed it, which is the one
with the largest number. A node that is adopted again has a new parent, but no list of
children ever changes. The same sequence of nodes packed into one buffer of children gives the
same tree (`Packed.Represents`).

## Main statement

* `Arena.adds_layout`: the layout after every sequence of additions, packed or not, and the loops
  over the tree that end because of it.
-/

namespace DocTypes

namespace Arena

/-- `b` is `a` after nodes were added one by one, each after its children, and names in between. -/
inductive Adds (a : Arena) : List Node → Arena → Prop
  | refl : Adds a [] a
  | name {nodes : List Node} {b : Arena} (text : String) :
      Adds a nodes b → Adds a nodes (b.intern text).2
  | node {nodes : List Node} {b : Arena} (node : Node) :
      Adds a nodes b → (∀ c, some c ∈ node.children → c < b.size) →
      Adds a (nodes ++ [node]) (b.addNode node.kind node.flags node.span node.atom node.children).2

/-- The numbers, lists of children and parents of the nodes of an arena, by the nodes
that were added to it. -/
structure LaidOut (a : Arena) (nodes : List Node) : Prop where
  /-- A node has the number of its addition and keeps the list that it was given. -/
  node : ∀ n, a.node? (some n) = nodes[n]?
  earlier : ∀ n c, some c ∈ a.children (some n) → c < n
  /-- The parent is the last node that lists the child. -/
  parent : ∀ c p, a.parent (some c) = some p ↔ IsGreatest {q | some c ∈ a.children (some q)} p
  orphan : ∀ c, a.parent (some c) = none ↔ ∀ q, some c ∉ a.children (some q)
  later : ∀ c p, a.parent (some c) = some p → c < p

namespace Adds

variable {a b c : Arena} {nodes more : List Node}

theorem trans (h : a.Adds nodes b) (h' : b.Adds more c) : a.Adds (nodes ++ more) c := by
  induction h' with
  | refl =>
    rw [List.append_nil]
    exact h
  | name text _ ih => exact .name text ih
  | node node _ hchildren ih =>
    rw [← List.append_assoc]
    exact .node node ih hchildren

theorem size (h : a.Adds nodes b) : b.size = a.size + nodes.length := by
  induction h with
  | refl => rfl
  | name text _ ih => exact ih
  | node node _ _ ih =>
    rw [size_addNode, ih, List.length_append, List.length_singleton, Nat.add_assoc]

/-- What was there stays as it is. -/
theorem grows (h : a.Adds nodes b) : a.Grows b := by
  induction h with
  | refl => exact .refl a
  | name text _ ih => exact ih.trans (grows_intern _ text)
  | node node _ _ ih => exact ih.trans grows_addNode

end Adds

/-! ## Numbers and parents -/

/-- No node lists children behind the last one. -/
theorem node_lt_size_of_mem_children {a : Arena} {n : Nat} {r : NodeRef}
    (h : r ∈ a.children (some n)) :
    n < a.size := by
  apply lt_of_node?
  cases hn : a.node? (some n) with
  | some node => rfl
  | none => simp [children, hn] at h

theorem LaidOut.empty : empty.LaidOut [] where
  node n := by simp [node?, Arena.empty]
  earlier n c h := lt_of_mem_children h
  parent c p := by
    constructor
    · intro h
      simp [Arena.parent, Arena.empty] at h
    · intro h
      have hmem : some c ∈ Arena.empty.children (some p) := h.1
      simp [children, node?, Arena.empty] at hmem
  orphan c := by simp [Arena.parent, children, node?, Arena.empty]
  later c p h := (lt_of_parent_eq_some h).1

/-- Interning a name leaves every node and parent where it is. -/
theorem LaidOut.intern {a : Arena} {nodes : List Node} (h : a.LaidOut nodes) (text : String) :
    (a.intern text).2.LaidOut nodes :=
  ⟨h.node, h.earlier, h.parent, h.orphan, h.later⟩

/-- A new node lists its own children, and the others list what they listed. -/
theorem mem_children_addNode {a : Arena} {node : Node}
    (hchildren : ∀ c, some c ∈ node.children → c < a.size) {c q : Nat} :
    some c ∈ (a.addNode node.kind node.flags node.span node.atom
      node.children).2.children (some q) ↔
      q = a.size ∧ some c ∈ node.children ∨ some c ∈ a.children (some q) := by
  rw [children_addNode hchildren]
  by_cases hq : q = a.size
  · have hnone : some c ∉ a.children (some q) := by
      intro h
      have hlt := node_lt_size_of_mem_children h
      omega
    simp [hq ▸ hnone, hq]
  · simp [hq]

/-- There are no numbers behind a new node. -/
theorem node?_addNode_of_gt {a : Arena} {n : Nat} {kind : NodeKind} {flags : Flags} {span : Span}
    {atom : Atom} {children : List NodeRef} (h : a.size < n) :
    (a.addNode kind flags span atom children).2.node? (some n) = none := by
  by_contra hsome
  have hlt := lt_of_node? (Option.isSome_iff_ne_none.2 hsome)
  rw [size_addNode] at hlt
  omega

/-- A node that is added takes the next number and becomes the parent of its children. -/
theorem LaidOut.addNode {a : Arena} {nodes : List Node} (h : a.LaidOut nodes)
    (hsize : a.size = nodes.length) {node : Node}
    (hchildren : ∀ c, some c ∈ node.children → c < a.size) :
    (a.addNode node.kind node.flags node.span node.atom node.children).2.LaidOut
    (nodes ++ [node]) where
  node n := by
    rcases Nat.lt_trichotomy n a.size with hlt | heq | hgt
    · rw [grows_addNode.nodes n hlt, h.node, List.getElem?_append_left (hsize ▸ hlt)]
    · subst heq
      rw [node?_addNode_self hchildren, hsize, List.getElem?_concat_length]
    · have hpast : (nodes ++ [node]).length ≤ n := by
        rw [List.length_append, List.length_singleton]
        omega
      rw [List.getElem?_eq_none hpast, node?_addNode_of_gt hgt]
  earlier n c hc := lt_of_mem_children hc
  parent c p := by
    rw [parent_addNode hchildren]
    simp only [mem_children_addNode hchildren]
    by_cases hc : some c ∈ node.children
    · have hgreatest : IsGreatest
          {q | q = a.size ∧ some c ∈ node.children ∨ some c ∈ a.children (some q)} a.size := by
        constructor
        · exact .inl ⟨rfl, hc⟩
        · rintro q (⟨rfl, -⟩ | hq)
          · exact Nat.le_refl _
          · exact Nat.le_of_lt (node_lt_size_of_mem_children hq)
      rw [if_pos hc, Option.some.injEq]
      constructor
      · rintro rfl
        exact hgreatest
      · exact hgreatest.unique
    · rw [if_neg hc]
      simpa [hc] using h.parent c p
  orphan c := by
    rw [parent_addNode hchildren]
    simp only [mem_children_addNode hchildren]
    by_cases hc : some c ∈ node.children
    · rw [if_pos hc]
      constructor
      · nofun
      · intro hnone
        exact absurd (.inl ⟨rfl, hc⟩) (hnone a.size)
    · rw [if_neg hc]
      simpa [hc] using h.orphan c
  later c p hp := (lt_of_parent_eq_some hp).1

/-- The nodes that are added settle how an arena is laid out. -/
theorem Adds.laidOut {nodes : List Node} {a : Arena} (h : Arena.empty.Adds nodes a) :
    a.LaidOut nodes := by
  induction h with
  | refl => exact .empty
  | name text _ ih => exact ih.intern text
  | node node hadds hchildren ih =>
    have hsize := hadds.size
    exact ih.addNode (by rw [hsize]; exact Nat.zero_add _) hchildren

end Arena

/-! ## One buffer -/

namespace Packed

/-- The packed tree holds the nodes and parents of an arena, and each list of children stands inside
the buffer. -/
structure Represents (p : Packed) (a : Arena) : Prop where
  size : p.headers.size = a.size
  inside : ∀ (n : Nat) (h : Header), p.headers[n]? = some h →
    h.firstChild + h.childCount ≤ p.buffer.size
  node : ∀ n, p.node? n = a.node? (some n)
  parents : p.parents = a.parents

variable {p : Packed}

theorem childrenOf_eq (p : Packed) (h : Header) :
    p.childrenOf h = (p.buffer.toList.drop h.firstChild).take h.childCount := by
  rw [childrenOf, Array.toList_extract, List.extract_eq_take_drop, Nat.add_sub_cancel_left]

/-- A list of children stays where it is when the buffer grows. -/
theorem childrenOf_addNode {h : Header} (hinside : h.firstChild + h.childCount ≤ p.buffer.size)
    (node : Node) : (p.addNode node).childrenOf h = p.childrenOf h := by
  have hfirst : h.firstChild ≤ p.buffer.toList.length := by
    rw [Array.length_toList]
    omega
  have hcount : h.childCount ≤ (p.buffer.toList.drop h.firstChild).length := by
    rw [List.length_drop, Array.length_toList]
    omega
  rw [childrenOf_eq, childrenOf_eq, addNode, Array.toList_appendList,
    List.drop_append_of_le_length hfirst, List.take_append_of_le_length hcount]

/-- The node that is added is read back with the list that was put behind the others. -/
theorem node?_addNode_self (p : Packed) (node : Node) :
    (p.addNode node).node? p.headers.size = some node := by
  simp only [node?, childrenOf_eq]
  simp [addNode, Array.toList_appendList]

theorem node?_addNode_of_lt {n : Nat} (hn : n < p.headers.size)
    (hinside : ∀ (n : Nat) (h : Header), p.headers[n]? = some h →
      h.firstChild + h.childCount ≤ p.buffer.size) (node : Node) :
    (p.addNode node).node? n = p.node? n := by
  have hheader : (p.addNode node).headers[n]? = p.headers[n]? := by
    rw [addNode, Array.getElem?_push_lt hn, Array.getElem?_eq_getElem hn]
  rw [node?, hheader, node?]
  cases hh : p.headers[n]? with
  | none => rfl
  | some h =>
    simp only [Option.map_some, childrenOf_addNode (hinside n h hh)]

/-- Adding a node to both keeps them the same tree. -/
theorem Represents.addNode {a : Arena} (h : p.Represents a) {node : Node}
    (hchildren : ∀ c, some c ∈ node.children → c < a.size) : (p.addNode node).Represents
      (a.addNode node.kind node.flags node.span node.atom node.children).2 where
  size := by
    rw [Arena.size_addNode, ← h.size]
    exact Array.size_push ..
  inside n header hheader := by
    have hbuffer : (p.addNode node).buffer.size = p.buffer.size + node.children.length := by
      rw [← Array.length_toList, Packed.addNode, Array.toList_appendList, List.length_append,
        Array.length_toList]
    rw [hbuffer]
    rw [Packed.addNode, Array.getElem?_push] at hheader
    split at hheader
    · cases hheader
      exact Nat.le_refl _
    · have hle := h.inside n header hheader
      omega
  node n := by
    rcases Nat.lt_trichotomy n a.size with hlt | heq | hgt
    · rw [node?_addNode_of_lt (h.size ▸ hlt) h.inside, h.node, Arena.grows_addNode.nodes n hlt]
    · subst heq
      rw [Arena.node?_addNode_self hchildren, ← h.size, node?_addNode_self]
    · have hpacked : (p.addNode node).headers.size ≤ n := by
        have hsize : (p.addNode node).headers.size = p.headers.size + 1 := Array.size_push ..
        have := h.size
        omega
      rw [node?, Array.getElem?_eq_none hpacked, Arena.node?_addNode_of_gt hgt]
      rfl
  parents := by
    simp only [Packed.addNode, Arena.addNode, Arena.map_existing_eq_self hchildren,
      h.parents, h.size]
    rfl

/-- Nodes packed one after another are the tree that they were added to. -/
theorem represents_ofNodes {nodes : List Node} {a : Arena} (h : Arena.empty.Adds nodes a) :
    (ofNodes nodes).Represents a := by
  induction h with
  | refl =>
    exact ⟨rfl, by simp [ofNodes], by simp [ofNodes, node?, Arena.node?, Arena.empty], rfl⟩
  | name text _ ih => exact ⟨ih.size, ih.inside, ih.node, ih.parents⟩
  | node node _ hchildren ih =>
    rw [ofNodes, List.foldl_concat]
    exact ih.addNode hchildren

end Packed

/-! ## Loaded and built trees -/

namespace Arena

/-- Children that are not there count as absent. -/
theorem addNode_map_existing (a : Arena) (kind : NodeKind) (flags : Flags)
    (span : Span) (atom : Atom)
    (children : List NodeRef) : a.addNode kind flags span atom (children.map a.existing) =
      a.addNode kind flags span atom children := by
  have htwice : (children.map a.existing).map a.existing = children.map a.existing :=
    map_existing_eq_self fun _ hc => lt_of_mem_map_existing hc
  simp only [addNode, htwice]

theorem adds_addNode (a : Arena) (kind : NodeKind) (flags : Flags) (span : Span) (atom : Atom)
    (children : List NodeRef) :
    a.Adds [{ kind, flags, span, atom, children := children.map a.existing }]
      (a.addNode kind flags span atom children).2 := by
  rw [← addNode_map_existing]
  exact .node { kind, flags, span, atom, children := children.map a.existing } .refl
    fun _ hc => lt_of_mem_map_existing hc

end Arena

namespace Outline

theorem exists_of_bind_ok {α β : Type} {x : Except LoadError α} {f : α → Except LoadError β} {r : β}
    (h : (x >>= f) = .ok r) : ∃ y, x = .ok y ∧ f y = .ok r := by
  cases x with
  | error e => cases h
  | ok y => exact ⟨y, rfl, h⟩

theorem adds_nameAtom (a : Arena) (name : Option String) : a.Adds [] (nameAtom a name).2 := by
  cases name with
  | none => exact .refl
  | some text => exact .name text .refl

mutual

/-- Entering an outline adds nodes. -/
theorem adds_build {o : Outline} {a b : Arena} {r : NodeRef} (h : build o a = .ok (r, b)) :
    ∃ nodes, a.Adds nodes b := by
  cases o with
  | absent =>
    cases h
    exact ⟨[], .refl⟩
  | node kind start stop name names children =>
    rw [build] at h
    obtain ⟨⟨refs, c⟩, hall, h⟩ := exists_of_bind_ok h
    obtain ⟨below, hbelow⟩ := adds_buildAll hall
    obtain ⟨flags, -, h⟩ := exists_of_bind_ok h
    split at h
    · cases h
    · cases h
      exact ⟨_, (hbelow.trans (adds_nameAtom c name)).trans (Arena.adds_addNode ..)⟩

theorem adds_buildAll {os : List Outline} {a b : Arena} {refs : List NodeRef}
    (h : buildAll os a = .ok (refs, b)) : ∃ nodes, a.Adds nodes b := by
  cases os with
  | nil =>
    cases h
    exact ⟨[], .refl⟩
  | cons o rest =>
    rw [buildAll] at h
    obtain ⟨⟨r, c⟩, hfirst, h⟩ := exists_of_bind_ok h
    obtain ⟨⟨others, d⟩, hall, h⟩ := exists_of_bind_ok h
    cases h
    obtain ⟨first, hadds⟩ := adds_build hfirst
    obtain ⟨later, hlater⟩ := adds_buildAll hall
    exact ⟨_, hadds.trans hlater⟩

end

end Outline

namespace Builder

/-- What is made from the steps of the builder, one after another. -/
inductive Program : {α : Type} → Build α → Prop
  | done {α : Type} (x : α) : Program (pure x)
  | andThen {α β : Type} {m : Build α} {f : α → Build β} :
      Program m → (∀ x, Program (f x)) → Program (m >>= f)
  | intern (text : String) : Program (intern text)
  | leaf (kind : NodeKind) (flags : Flags) (text : String) : Program (leaf kind flags text)
  | node (kind : NodeKind) (flags : Flags) (atom : Atom) (children : List NodeRef) :
      Program (node kind flags atom children)
  | tag (name : String) (operands : List NodeRef) : Program (tag name operands)

/-- Building adds nodes. -/
theorem Program.adds {α : Type} {m : Build α} (h : Program m) (b : Builder) :
    ∃ nodes, b.arena.Adds nodes (m b).2.arena := by
  induction h generalizing b with
  | done x => exact ⟨[], .refl⟩
  | andThen _ _ ih ih' =>
    obtain ⟨first, hfirst⟩ := ih b
    obtain ⟨later, hlater⟩ := ih' _ _
    exact ⟨_, hfirst.trans hlater⟩
  | intern text => exact ⟨[], .name text .refl⟩
  | leaf kind flags text =>
    exact ⟨_, (Arena.Adds.name text .refl).trans (Arena.adds_addNode _ kind flags _ _ [])⟩
  | node kind flags atom children =>
    simp only [Builder.node, run_bind, run_get]
    cases Span.coverAll? (children.filterMap fun c => (b.arena.node? c).map (·.span)) with
    | some span => exact ⟨_, Arena.adds_addNode _ kind flags span atom children⟩
    | none => exact ⟨_, Arena.adds_addNode _ kind flags _ atom children⟩
  | tag name operands =>
    exact ⟨_, (Arena.Adds.name name .refl).trans
      (Arena.adds_addNode _ .jsDocTag .empty _ _ operands)⟩

end Builder

/-! ## The layout -/

namespace Arena

/-- **The layout of an arena.** After every sequence of additions in which a node comes after its
children: the node that was added `n`-th has the number `n` and the children that it was given, all
of them with smaller numbers; the parent of a node is the one with the largest number that lists it,
a larger number than its own, and there is none if no node lists it. Nothing that is added later
changes a node. The same nodes packed into one buffer are the same tree, and every loop over the
tree ends. Loading an outline and building with the builder are such sequences. -/
theorem adds_layout {nodes : List Node} {a : Arena} (h : empty.Adds nodes a) :
    a.LaidOut nodes ∧ (Packed.ofNodes nodes).Represents a ∧ a.LoopsEnd ∧
      (∀ more b, a.Adds more b → b.LaidOut (nodes ++ more) ∧
        ∀ n < a.size, b.children (some n) = a.children (some n)) ∧
      (∀ o r b, Outline.build o a = .ok (r, b) → ∃ more, a.Adds more b) ∧
      ∀ {α : Type} (m : Build α), Builder.Program m →
        ∀ cursor, ∃ more, a.Adds more (m ⟨a, cursor⟩).2.arena := by
  refine ⟨h.laidOut, Packed.represents_ofNodes h, a.loopsEnd, fun more b hmore => ?_,
    fun o r b hbuild => Outline.adds_build hbuild, fun m hm cursor => hm.adds ⟨a, cursor⟩⟩
  constructor
  · exact (h.trans hmore).laidOut
  · intro n hn
    exact hmore.grows.children hn

/-- `x; x;`, where one node stands in both statements. -/
def sharedName : Build NodeRef := do
  let x ← Builder.identifier "x"
  let first ← Builder.expressionStatement x
  let second ← Builder.expressionStatement x
  Builder.script [first, second]

/-- The name in this tree is adopted twice: both statements keep it in their lists, and the second
is its parent. -/
theorem sharedName_layout :
    let a := (sharedName Builder.new).2.arena
    ∃ nodes, empty.Adds nodes a ∧ a.LaidOut nodes ∧
      nodes.map (·.children) = [[], [some 0], [some 0], [some 1, some 2]] ∧
      (Packed.ofNodes nodes).Represents a ∧
      (Packed.ofNodes nodes).buffer = #[some 0, some 0, some 1, some 2] ∧
      a.parent (some 0) = some 2 ∧ IsGreatest {q | some 0 ∈ a.children (some q)} 2 := by
  intro a
  have hprogram : Builder.Program sharedName :=
    .andThen (.leaf ..) fun x => .andThen (.node ..) fun first =>
      .andThen (.node ..) fun second => .node ..
  obtain ⟨nodes, hadds⟩ := hprogram.adds Builder.new
  obtain ⟨hlaid, hrepresents, -⟩ := adds_layout hadds
  have hnodes : nodes = a.nodes.toList := by
    apply List.ext_getElem?
    intro n
    rw [← hlaid.node, Array.getElem?_toList]
    rfl
  have hparent : a.parent (some 0) = some 2 := by decide +kernel
  refine ⟨nodes, hadds, hlaid, ?_, hrepresents, ?_, hparent, (hlaid.parent 0 2).1 hparent⟩
  · rw [hnodes]
    decide +kernel
  · rw [hnodes]
    decide +kernel

end Arena

end DocTypes
