import DocTypes.Binding.Hoist
import DocTypes.Tree.Preorder
import Mathlib.Data.List.Nodup

/-!
# Well-shaped trees

An arena holds any graph of nodes. A tree of a program has a shape: each node is listed once
and knows its parent, and what may stand below a node depends on its kind and on the position
(`NodeKind.place`). `let`, `const` and class declarations stand directly in a unit or a block,
and `let` and `const` also at the head of a loop; `var` and function declarations stand where
statements do. `Arena.Shaped` collects these conditions, and it can be decided.

## Main statements

* `Arena.Shaped.parent_child`, `Arena.Shaped.admits_child`: what holds of the children of a
  node of the tree.
* `Arena.sublist_listing`: below a node of a listing stands a part of that listing.
-/

namespace DocTypes

namespace NodeKind

/-- The kinds of statement. -/
def isStatement : NodeKind → Bool
  | .varStatement | .functionDeclaration | .classDeclaration | .block | .expressionStatement
  | .ifStatement | .forStatement | .forInStatement | .forOfStatement | .whileStatement
  | .doWhileStatement | .returnStatement | .throwStatement | .tryStatement | .emptyStatement => true
  | _ => false

/-- The kinds of expression. -/
def isExpression : NodeKind → Bool
  | .identifier | .thisExpression | .memberExpression | .computedMemberExpression | .assignment
  | .binary | .unary | .conditional | .call | .newExpression | .functionExpression
  | .arrowFunction | .classExpression | .objectLiteral | .arrayLiteral | .numericLiteral
  | .stringLiteral | .booleanLiteral | .nullLiteral => true
  | _ => false

end NodeKind

/-- What may stand at a position below a node. -/
inductive Place where
  /-- A statement of a unit or a block. -/
  | item
  /-- A statement that declares nothing in a block, or an expression. -/
  | clause
  /-- The head of a loop: a declaration list or a clause. -/
  | head
  | expression
  /-- A block or an expression. -/
  | body
  /-- What a comment stands on. -/
  | target
  | only (kinds : List NodeKind)
  /-- One of some kinds, perhaps under a comment. -/
  | commented (kind : NodeKind)
  /-- Anything: the inside of comments. -/
  | free
  deriving DecidableEq

/-- What may stand below a node of a kind, by position. -/
def NodeKind.place : NodeKind → Nat → Place
  | .script, _ | .moduleUnit, _ | .externs, _ | .block, _ => .item
  | .annotated, 0 => .only [.jsDocDocument]
  | .annotated, 1 => .target
  | .varStatement, _ => .only [.varDeclaration]
  | .varDeclaration, 0 | .bindingWithDefault, 0 | .restParameter, 0 | .catchClause, 0
  | .functionDeclaration, 0 | .functionExpression, 0 | .classDeclaration, 0
  | .classExpression, 0 => .only [.bindingName]
  | .varDeclaration, 1 | .bindingWithDefault, 1 => .expression
  | .functionDeclaration, 1 | .functionExpression, 1 | .method, 1 | .arrowFunction, 0 =>
    .only [.parameterList]
  | .functionDeclaration, 2 | .functionExpression, 2 | .method, 2 | .catchClause, 1 =>
      .only [.block]
  | .arrowFunction, 1 => .body
  | .parameterList, _ => .only [.bindingName, .bindingWithDefault, .restParameter]
  | .classDeclaration, 1 | .classExpression, 1 => .expression
  | .classDeclaration, 2 | .classExpression, 2 => .only [.classBody]
  | .classBody, _ => .commented .method
  | .method, 0 | .memberExpression, 1 => .only [.propertyName]
  | .forStatement, 0 | .forInStatement, 0 | .forOfStatement, 0 => .head
  | .ifStatement, _ | .forStatement, _ | .forInStatement, _ | .forOfStatement, _
  | .whileStatement, _ | .doWhileStatement, _ => .clause
  | .tryStatement, _ => .only [.block, .catchClause]
  | .memberExpression, 0 => .expression
  | .expressionStatement, _ | .returnStatement, _ | .throwStatement, _
  | .computedMemberExpression, _ | .computedPropertyName, _ | .assignment, _ | .binary, _
  | .unary, _ | .conditional, _ | .call, _ | .newExpression, _ | .arrayLiteral, _ => .expression
  | .objectLiteral, _ => .commented .property
  | .property, 0 => .only [.propertyName, .computedPropertyName, .stringLiteral, .numericLiteral]
  | .property, 1 => .expression
  | .jsDocDocument, _ | .jsDocTag, _ => .free
  | kind, _ => if kind.isTypeExpression then .free else .only []

namespace Arena

/-- The node under a comment, or the node itself. -/
def bare (a : Arena) (r : NodeRef) : NodeRef := if a.isKind r .annotated then a.child r 1 else r

/-- Whether a node is of a kind in a family. -/
def isOf (a : Arena) (family : NodeKind → Bool) (r : NodeRef) : Bool := (a.kind? r).any family

/-- Class declarations, and declaration lists with `let` or `const`. -/
def isLexical (a : Arena) (r : NodeRef) : Bool :=
  a.isKind r .classDeclaration || a.isKind r .varStatement && (a.flags r).isBlockScoped

/-- Whether a node may stand at a place. -/
def admits (a : Arena) (r : NodeRef) : Place → Bool
  | .item => a.isOf NodeKind.isStatement (a.bare r)
  | .clause => a.isOf NodeKind.isStatement (a.bare r) && !a.isLexical (a.bare r)
    || a.isOf NodeKind.isExpression (a.bare r)
  | .head => a.isKind r .varStatement
    || a.isOf NodeKind.isStatement (a.bare r) && !a.isLexical (a.bare r)
    || a.isOf NodeKind.isExpression (a.bare r)
  | .expression => a.isOf NodeKind.isExpression (a.bare r)
  | .body => a.isKind r .block || a.isOf NodeKind.isExpression (a.bare r)
  | .target => a.isOf (fun kind => kind.isStatement || kind.isExpression || kind == .method
    || kind == .property) r
  | .only kinds => a.isOf kinds.contains r
  | .commented kind => a.isKind (a.bare r) kind
  | .free => true

/-- Whether the children of a node stand at places that it has for them. -/
def isPlaced (a : Arena) (n : Nat) : Bool :=
  (a.kind? (some n)).all fun kind =>
    (a.children (some n)).zipIdx.all fun (child, i) =>
      child.isNone || a.admits child (kind.place i)

/-- Whether a node is the value that is assigned to a plain name. -/
def isAssigned (a : Arena) (n : Nat) : Bool :=
  let parent := a.parent (some n)
  a.isKind parent .assignment && a.child parent 1 = some n &&
    a.isKind (a.child parent 0) .identifier

/-- Whether a node is a name that a `let` or `const` list declares. -/
def isLexicalName (a : Arena) (n : Nat) : Bool :=
  let declaration := a.parent (some n)
  a.isKind (some n) .bindingName && a.isKind declaration .varDeclaration
    && (a.flags (a.parent declaration)).isBlockScoped

/-- The nodes at and below a node, each before what is below it. -/
def listing (a : Arena) (r : NodeRef) : List Nat := a.preorder (fun _ => false) r

/-- The tree of a program. -/
structure Shaped (a : Arena) (root : NodeRef) : Prop where
  unit : a.isOf NodeKind.isCompilationUnit root = true
  once : (a.listing root).Nodup
  parents : ∀ n ∈ a.listing root, ∀ c ∈ a.presentChildren (some n), a.parent (some c) = some n
  places : ∀ n ∈ a.listing root, a.isPlaced n = true

instance (a : Arena) (root : NodeRef) : Decidable (a.Shaped root) :=
  decidable_of_iff (a.isOf NodeKind.isCompilationUnit root = true ∧ (a.listing root).Nodup ∧
    (∀ n ∈ a.listing root, ∀ c ∈ a.presentChildren (some n), a.parent (some c) = some n) ∧
    ∀ n ∈ a.listing root, a.isPlaced n = true)
    ⟨fun ⟨hunit, honce, hparents, hplaces⟩ => ⟨hunit, honce, hparents, hplaces⟩,
      fun h => ⟨h.unit, h.once, h.parents, h.places⟩⟩

/-! ## Listings -/

theorem listing_none (a : Arena) : a.listing none = [] := by
  rw [listing, preorder]

theorem listing_some {a : Arena} {n : Nat} (h : (a.node? (some n)).isSome) :
    a.listing (some n) = n :: (a.presentChildren (some n)).flatMap fun c => a.listing (some c) := by
  unfold listing
  rw [preorder]
  obtain ⟨node, hnode⟩ := Option.isSome_iff_exists.1 h
  simp [hnode, List.flatMap_def]

theorem isSome_of_mem_listing {a : Arena} {r : NodeRef} {n : Nat} (h : n ∈ a.listing r) :
    (a.node? r).isSome := by
  cases r with
  | none => simp [listing_none] at h
  | some m =>
    cases hm : a.node? (some m) with
    | some node => rfl
    | none =>
      unfold listing at h
      rw [preorder] at h
      simp [hm] at h

theorem node?_of_mem_listing {a : Arena} {r : NodeRef} {n : Nat} (h : n ∈ a.listing r) :
    (a.node? (some n)).isSome := by
  cases r with
  | none => simp [listing_none] at h
  | some m =>
    induction m using Nat.strongRecOn with
    | ind m ih =>
      have hm := isSome_of_mem_listing h
      rw [listing_some hm] at h
      rcases List.mem_cons.1 h with rfl | h
      · exact hm
      · obtain ⟨c, hc, hn⟩ := List.mem_flatMap.1 h
        exact ih c (lt_of_mem_presentChildren hc) hn

/-- What is listed comes before the node that it is listed from. -/
theorem le_of_mem_listing {a : Arena} {m n : Nat} (h : n ∈ a.listing (some m)) : n ≤ m := by
  induction m using Nat.strongRecOn with
  | ind m ih =>
    rw [listing_some (isSome_of_mem_listing h)] at h
    rcases List.mem_cons.1 h with rfl | h
    · exact Nat.le_refl n
    · obtain ⟨c, hc, hn⟩ := List.mem_flatMap.1 h
      have hlt := lt_of_mem_presentChildren hc
      exact Nat.le_trans (ih c hlt hn) (Nat.le_of_lt hlt)

/-- Every node is listed from itself. -/
theorem mem_listing_self {a : Arena} {n : Nat} (h : (a.node? (some n)).isSome) :
    n ∈ a.listing (some n) := by
  rw [listing_some h]
  exact List.mem_cons_self

theorem mem_presentChildren {a : Arena} {r : NodeRef} {c : Nat} :
    c ∈ a.presentChildren r ↔ some c ∈ a.children r := by
  simp [presentChildren]

theorem node?_of_lt {a : Arena} {n : Nat} (h : n < a.size) : (a.node? (some n)).isSome := by
  rw [node?, Option.bind_some, Array.getElem?_eq_getElem h]
  rfl

theorem lt_of_node? {a : Arena} {n : Nat} (h : (a.node? (some n)).isSome) : n < a.size := by
  obtain ⟨node, hnode⟩ := Option.isSome_iff_exists.1 h
  rw [node?, Option.bind_some] at hnode
  exact (Array.getElem?_eq_some_iff.1 hnode).1

theorem node?_of_mem_children {a : Arena} {n c : Nat} (h : some c ∈ a.children (some n)) :
    (a.node? (some c)).isSome := by
  have hn : (a.node? (some n)).isSome := by
    cases hn : a.node? (some n) with
    | some node => rfl
    | none => simp [children, hn] at h
  exact node?_of_lt (Nat.lt_trans (lt_of_mem_children h) (lt_of_node? hn))

theorem sublist_listing_child {a : Arena} {n c : Nat} (h : some c ∈ a.children (some n)) :
    (a.listing (some c)).Sublist (a.listing (some n)) := by
  have hn : (a.node? (some n)).isSome := by
    cases hn : a.node? (some n) with
    | some node => rfl
    | none => simp [children, hn] at h
  rw [listing_some hn, List.flatMap_def]
  refine .cons _ (List.sublist_flatten_of_mem (List.mem_map.2 ⟨c, mem_presentChildren.2 h, rfl⟩))

/-- The listing of a node is a part of every listing that holds the node. -/
theorem sublist_listing {a : Arena} {r : NodeRef} {n : Nat} (h : n ∈ a.listing r) :
    (a.listing (some n)).Sublist (a.listing r) := by
  cases r with
  | none => simp [listing_none] at h
  | some m =>
    induction m using Nat.strongRecOn with
    | ind m ih =>
      have h' := h
      rw [listing_some (isSome_of_mem_listing h)] at h'
      rcases List.mem_cons.1 h' with rfl | h'
      · exact .refl _
      · obtain ⟨c, hc, hn⟩ := List.mem_flatMap.1 h'
        exact (ih c (lt_of_mem_presentChildren hc) hn).trans
          (sublist_listing_child (mem_presentChildren.1 hc))

theorem mem_listing_child {a : Arena} {r : NodeRef} {n c : Nat} (hn : n ∈ a.listing r)
    (hc : some c ∈ a.children (some n)) : c ∈ a.listing r :=
  (sublist_listing hn).subset ((sublist_listing_child hc).subset
    (mem_listing_self (node?_of_mem_children hc)))

/-- A node of a listing is its first, or is listed by a node of the listing. -/
theorem exists_parent_of_mem_listing {a : Arena} {r : NodeRef} {n : Nat} (h : n ∈ a.listing r) :
    r = some n ∨ ∃ p ∈ a.listing r, some n ∈ a.children (some p) := by
  cases r with
  | none => simp [listing_none] at h
  | some m =>
    induction m using Nat.strongRecOn with
    | ind m ih =>
      have hm := isSome_of_mem_listing h
      have h' := h
      rw [listing_some hm] at h'
      rcases List.mem_cons.1 h' with rfl | h'
      · exact .inl rfl
      · obtain ⟨c, hc, hn⟩ := List.mem_flatMap.1 h'
        have hcm := mem_presentChildren.1 hc
        rcases ih c (lt_of_mem_presentChildren hc) hn with heq | ⟨p, hp, hnp⟩
        · cases heq
          exact .inr ⟨m, mem_listing_self hm, hcm⟩
        · exact .inr ⟨p, (sublist_listing_child hcm).subset hp, hnp⟩

theorem mem_listing_of_child {a : Arena} {r : NodeRef} {n i c : Nat} (hn : n ∈ a.listing r)
    (hc : a.child (some n) i = some c) : c ∈ a.listing r :=
  mem_listing_child hn (mem_children_of_child_eq_some hc)

theorem mem_listing_of_grandchild {a : Arena} {r : NodeRef} {n i c : Nat} (hn : n ∈ a.listing r)
    (hc : some c ∈ a.children (a.child (some n) i)) : c ∈ a.listing r := by
  cases hm : a.child (some n) i with
  | none => simp [hm, children, node?] at hc
  | some m => exact mem_listing_child (mem_listing_of_child hn hm) (hm ▸ hc)

/-! ## Nodes of a tree -/

theorem getElem?_of_child {a : Arena} {r : NodeRef} {i c : Nat} (h : a.child r i = some c) :
    (a.children r)[i]? = some (some c) := by
  rw [child, Option.join_eq_some_iff] at h
  exact h

theorem kind?_of_child {a : Arena} {r : NodeRef} {i c : Nat} (h : a.child r i = some c) :
    ∃ n kind, r = some n ∧ a.kind? (some n) = some kind := by
  cases r with
  | none => simp [child, children, node?] at h
  | some n =>
    cases hn : a.node? (some n) with
    | none => simp [child, children, hn] at h
    | some node => exact ⟨n, node.kind, rfl, by rw [kind?, hn, Option.map_some]⟩

theorem exists_of_kind? {a : Arena} {r : NodeRef} {kind : NodeKind} (h : a.kind? r = some kind) :
    ∃ n, r = some n := by
  cases r with
  | some n => exact ⟨n, rfl⟩
  | none => cases h

theorem kind?_of_isOf {a : Arena} {family : NodeKind → Bool} {r : NodeRef}
    (h : a.isOf family r = true) : ∃ kind, a.kind? r = some kind ∧ family kind = true := by
  unfold isOf at h
  cases hr : a.kind? r with
  | none => simp [hr] at h
  | some kind => exact ⟨kind, rfl, by simpa [hr] using h⟩

theorem isKind_iff {a : Arena} {r : NodeRef} {kind : NodeKind} :
    a.isKind r kind = true ↔ a.kind? r = some kind := by
  unfold isKind
  exact beq_iff_eq

theorem bare_of_kind? {a : Arena} {r : NodeRef} {kind : NodeKind} (h : a.kind? r = some kind)
    (hkind : kind ≠ .annotated) : a.bare r = r := by
  unfold bare isKind
  rw [h]
  simp [hkind]

namespace Shaped

variable {a : Arena} {root : NodeRef} (h : a.Shaped root) {n c : Nat} (hn : n ∈ a.listing root)
include h hn

theorem parent_child (hc : some c ∈ a.children (some n)) : a.parent (some c) = some n :=
  h.parents n hn c (mem_presentChildren.2 hc)

/-- A child stands at the place that its parent has for it. -/
theorem admits_child {kind : NodeKind} (hkind : a.kind? (some n) = some kind) {i : Nat}
    (hc : a.child (some n) i = some c) : a.admits (some c) (kind.place i) = true := by
  have hplaced := h.places n hn
  unfold isPlaced at hplaced
  rw [hkind, Option.all_some, List.all_eq_true] at hplaced
  have hmem : (some c, i) ∈ (a.children (some n)).zipIdx :=
    List.mem_zipIdx_iff_getElem?.2 (getElem?_of_child hc)
  simpa using hplaced _ hmem

/-- A child at a place for one kind is of that kind. -/
theorem kind?_child {kind only : NodeKind} (hkind : a.kind? (some n) = some kind) {i : Nat}
    (hplace : kind.place i = .only [only]) (hc : a.child (some n) i = some c) :
    a.kind? (some c) = some only := by
  have hadmits := h.admits_child hn hkind hc
  rw [hplace] at hadmits
  obtain ⟨k, hk, hmem⟩ : ∃ k, a.kind? (some c) = some k ∧ [only].contains k = true :=
    kind?_of_isOf hadmits
  rw [hk, List.mem_singleton.1 (List.contains_iff_mem.1 hmem)]

theorem exists_parent {kind : NodeKind} (hkind : a.kind? (some n) = some kind)
    (hunit : kind.isCompilationUnit = false) :
    ∃ p ∈ a.listing root, some n ∈ a.children (some p) ∧ a.parent (some n) = some p := by
  rcases exists_parent_of_mem_listing hn with rfl | ⟨p, hp, hnp⟩
  · have hroot := h.unit
    rw [isOf, hkind, Option.any_some, hunit] at hroot
    cases hroot
  · exact ⟨p, hp, hnp, h.parent_child hp hnp⟩

/-- What is assigned is an expression. -/
theorem not_isAssigned {kind : NodeKind} (hkind : a.kind? (some n) = some kind)
    (hunit : kind.isCompilationUnit = false) (hexpression : kind.isExpression = false)
    (hannotated : kind ≠ .annotated) : a.isAssigned n = false := by
  obtain ⟨p, hp, -, hparent⟩ := h.exists_parent hn hkind hunit
  rw [isAssigned, hparent]
  by_cases hassignment : a.isKind (some p) .assignment = true
  · by_cases hchild : a.child (some p) 1 = some n
    · have hadmits := h.admits_child hp (isKind_iff.1 hassignment) hchild
      rw [show NodeKind.place .assignment 1 = .expression from rfl, admits,
        bare_of_kind? hkind hannotated, isOf, hkind, Option.any_some, hexpression] at hadmits
      cases hadmits
    · simp [hchild]
  · simp [hassignment]

end Shaped

end Arena

end DocTypes
