import DocTypes.Proofs.Tree.Walking
import DocTypes.Tree.Load
import Mathlib.Algebra.Order.BigOperators.Group.List
import Mathlib.Algebra.Order.Group.Nat
import Mathlib.Algebra.GroupWithZero.Nat

/-!
# Loading a tree is faithful

What an outline says can be read in two ways: off the outline itself, and off the arena that
it was entered into. `Outline.normal` is the outline in the spelling of an arena (a name that is
left out is the empty text, and the flags are listed one by one), and `Arena.outline` reads the
outline of a node back. An outline that is entered into an arena is read back as it was
(`Outline.Entered`), its nodes take the numbers that come next in post-order, and a walk from its
root shows each of them once.

An outline with a fault is not entered. The fault that is named is the first one in post-order.

## Main statement

* `Outline.build_faithful`: both halves, for every outline.
-/

namespace DocTypes

/-! ## Flags by name -/

namespace Flags

/-- The names of single flags in the order of declaration. -/
def bitNames : List String :=
  ["LET", "CONST", "STATIC", "GETTER", "SETTER", "ASYNC", "GENERATOR", "TRUE"]

/-- Whether a flag is set, by its name. -/
def has (f : Flags) : String → Bool
  | "LET" => f.letList
  | "CONST" => f.constList
  | "STATIC" => f.isStatic
  | "GETTER" => f.getter
  | "SETTER" => f.setter
  | "ASYNC" => f.isAsync
  | "GENERATOR" => f.generator
  | "TRUE" => f.isTrue
  | _ => false

theorem has_empty (bit : String) : empty.has bit = false := by
  unfold has
  split <;> rfl

theorem has_union (f g : Flags) (bit : String) :
    (f.union g).has bit = (f.has bit || g.has bit) := by
  unfold has
  split <;> rfl

theorem has_true (bit : String) : has { isTrue := true } bit = (bit == "TRUE") := by
  unfold has
  split <;> simp_all

theorem names_eq_filter (f : Flags) : f.names = bitNames.filter f.has := by
  have hpairs : f.names = (bitNames.map fun bit => (f.has bit, bit)).filterMap
      fun pair => if pair.1 then some pair.2 else none := rfl
  rw [hpairs, List.filterMap_map, ← List.filterMap_eq_filter]
  rfl

end Flags

/-! ## What an outline says -/

namespace Outline

/-- The flags of a written node by name: those that one of its flags names, and the flag of the
literal `true`. -/
def flagNames (kind : NodeKind) (name : Option String) (flags : List String) : List String :=
  Flags.bitNames.filter fun bit =>
    flags.any (fun flag => (Flags.ofName? flag).any (·.has bit)) ||
      (kind == .booleanLiteral && name == some "true" && bit == "TRUE")

/-- An outline in the spelling of an arena. -/
def normal : Outline → Outline
  | .absent => .absent
  | .node kind start stop name flags children =>
    .node kind start stop (some (name.getD "")) (flagNames kind name flags) (children.map normal)

mutual

/-- The nodes of an outline, each after what is below it, children from the left. -/
def postorder : Outline → List Outline
  | .absent => []
  | .node kind start stop name flags children =>
    postorderAll children ++ [.node kind start stop name flags children]

/-- The nodes of outlines from the left. -/
def postorderAll : List Outline → List Outline
  | [] => []
  | o :: rest => postorder o ++ postorderAll rest

end

/-- What is wrong with a node by itself: the first of its flags that is none, or else an end before
its start. -/
def fault? : Outline → Option LoadError
  | .absent => none
  | .node kind start stop _ flags _ =>
    match flags.find? fun flag => (Flags.ofName? flag).isNone with
    | some flag => some (.unknownFlag flag)
    | none => if stop < start then some (.inverted kind start stop) else none

/-- A set of flags with what one more name says. -/
def addFlag (set : Flags) (flag : String) : Except LoadError Flags :=
  match Flags.ofName? flag with
  | some more => .ok (set.union more)
  | none => .error (.unknownFlag flag)

theorem flagsOf_eq (kind : NodeKind) (name : Option String) (flags : List String) :
    flagsOf kind name flags = (flags.foldlM addFlag Flags.empty).map fun all =>
      if kind == .booleanLiteral && name == some "true" then all.union { isTrue := true }
        else all := by
  rfl

/-- Flags that are all known are put together. -/
theorem foldlM_addFlag {flags : List String}
    (h : flags.find? (fun flag => (Flags.ofName? flag).isNone) = none) (init : Flags) :
    ∃ all, flags.foldlM addFlag init = .ok all ∧ ∀ bit,
      all.has bit = (init.has bit || flags.any fun flag =>
        (Flags.ofName? flag).any (·.has bit)) := by
  induction flags generalizing init with
  | nil => exact ⟨init, rfl, fun bit => by simp⟩
  | cons flag rest ih =>
    cases hflag : Flags.ofName? flag with
    | none => simp [hflag] at h
    | some more =>
      obtain ⟨all, hall, hbits⟩ := ih (by simpa [hflag] using h) (init.union more)
      refine ⟨all, ?_, fun bit => ?_⟩
      · rw [List.foldlM_cons, addFlag, hflag]
        exact hall
      · rw [hbits, Flags.has_union, List.any_cons, hflag, Option.any_some, Bool.or_assoc]

/-- The first unknown flag stops the others. -/
theorem foldlM_addFlag_unknown {flags : List String} {unknown : String}
    (h : flags.find? (fun flag => (Flags.ofName? flag).isNone) = some unknown) (init : Flags) :
    flags.foldlM addFlag init = .error (.unknownFlag unknown) := by
  induction flags generalizing init with
  | nil => cases h
  | cons flag rest ih =>
    rw [List.foldlM_cons, addFlag]
    cases hflag : Flags.ofName? flag with
    | none =>
      obtain rfl : flag = unknown := by simpa [hflag] using h
      rfl
    | some more => exact ih (by simpa [hflag] using h) (init.union more)

theorem flagsOf_ok {flags : List String}
    (h : flags.find? (fun flag => (Flags.ofName? flag).isNone) = none) (kind : NodeKind)
    (name : Option String) :
    ∃ all, flagsOf kind name flags = .ok all ∧ all.names = flagNames kind name flags := by
  obtain ⟨all, hall, hbits⟩ := foldlM_addFlag h Flags.empty
  rw [flagsOf_eq, hall]
  refine ⟨_, rfl, ?_⟩
  rw [Flags.names_eq_filter, flagNames]
  congr 1
  funext bit
  cases hliteral : kind == .booleanLiteral && name == some "true" <;>
    simp [hbits, Flags.has_union, Flags.has_empty, Flags.has_true]

theorem flagsOf_error {flags : List String} {unknown : String}
    (h : flags.find? (fun flag => (Flags.ofName? flag).isNone) = some unknown) (kind : NodeKind)
    (name : Option String) : flagsOf kind name flags = .error (.unknownFlag unknown) := by
  rw [flagsOf_eq, foldlM_addFlag_unknown h]
  rfl

end Outline

/-! ## What an arena says -/

namespace Arena

/-- The outline of a node, read back from the arena. -/
def outline (a : Arena) (r : NodeRef) : Outline :=
  match r with
  | none => .absent
  | some n =>
    match a.node? (some n) with
    | none => .absent
    | some node =>
      .node node.kind node.span.start node.span.stop (some (a.atoms.text node.atom))
        node.flags.names
        ((a.children (some n)).attach.map fun ⟨c, _⟩ => outline a c)
termination_by r.rank
decreasing_by exact rank_lt_of_mem_children ‹_›

/-- The outlines of all nodes by number. -/
def outlines (a : Arena) : List Outline := (List.range a.size).map fun n => a.outline (some n)

theorem outline_none (a : Arena) : a.outline none = .absent := by
  rw [outline]

theorem outline_some {a : Arena} {n : Nat} {node : Node} (h : a.node? (some n) = some node) :
    a.outline (some n) = .node node.kind node.span.start node.span.stop
      (some (a.atoms.text node.atom)) node.flags.names (node.children.map a.outline) := by
  rw [outline, h]
  simp [children, h]

/-- Names are there for every node, and a node has a parent if and only if a node lists it. -/
structure Sound (a : Arena) : Prop where
  named : ∀ n node, a.node? (some n) = some node → ∃ text, a.atoms.text? node.atom = some text
  unnamed : a.atoms.text? .empty = some ""
  adopted : ∀ n p, a.parent (some n) = some p → some n ∈ a.children (some p)
  claimed : ∀ n p, some n ∈ a.children (some p) → (a.parent (some n)).isSome

/-- Nodes and names stay as they are, and more may come after them. -/
structure Grows (a b : Arena) : Prop where
  size : a.size ≤ b.size
  nodes : ∀ n, n < a.size → b.node? (some n) = a.node? (some n)
  texts : ∀ atom text, a.atoms.text? atom = some text → b.atoms.text? atom = some text

namespace Grows

variable {a b c : Arena}

theorem refl (a : Arena) : a.Grows a := ⟨Nat.le_refl _, fun _ _ => rfl, fun _ _ h => h⟩

theorem trans (h : a.Grows b) (h' : b.Grows c) : a.Grows c where
  size := Nat.le_trans h.size h'.size
  nodes n hn := (h'.nodes n (Nat.lt_of_lt_of_le hn h.size)).trans (h.nodes n hn)
  texts atom text ht := h'.texts atom text (h.texts atom text ht)

theorem children (h : a.Grows b) {n : Nat} (hn : n < a.size) :
    b.children (some n) = a.children (some n) := by
  rw [Arena.children, h.nodes n hn]
  rfl

/-- A node is read back as before. -/
theorem outline (h : a.Grows b) (ha : a.Sound) {n : Nat} (hn : n < a.size) :
    b.outline (some n) = a.outline (some n) := by
  induction n using Nat.strongRecOn with
  | ind n ih =>
    obtain ⟨node, hnode⟩ := Option.isSome_iff_exists.1 (node?_of_lt hn)
    obtain ⟨text, htext⟩ := ha.named n node hnode
    rw [outline_some hnode, outline_some ((h.nodes n hn).trans hnode)]
    have hchildren : node.children.map b.outline = node.children.map a.outline := by
      refine List.map_congr_left fun r hr => ?_
      cases r with
      | none => rw [outline_none, outline_none]
      | some c =>
        have hc : c < n := lt_of_mem_children (a := a) (by simpa [Arena.children, hnode] using hr)
        exact ih c hc (Nat.lt_trans hc hn)
    simp only [AtomTable.text, htext, h.texts _ _ htext, hchildren]

/-- What is below a node is listed as before. -/
theorem listing (h : a.Grows b) {n : Nat} (hn : n < a.size) :
    b.listing (some n) = a.listing (some n) := by
  induction n using Nat.strongRecOn with
  | ind n ih =>
    rw [listing_some (node?_of_lt hn), listing_some (node?_of_lt (Nat.lt_of_lt_of_le hn h.size)),
      presentChildren, presentChildren, h.children hn]
    refine congrArg (n :: ·) ?_
    rw [List.flatMap_def, List.flatMap_def]
    refine congrArg List.flatten (List.map_congr_left fun c hc => ?_)
    have hlt := lt_of_mem_presentChildren hc
    exact ih c hlt (Nat.lt_trans hlt hn)

theorem outlines (h : a.Grows b) (ha : a.Sound) :
    b.outlines = a.outlines ++ (List.range' a.size (b.size - a.size)).map fun n => b.outline
      (some n) := by
  have hsplit : List.range b.size = List.range a.size ++ List.range' a.size (b.size - a.size) := by
    have happend := List.range'_append_1 (s := 0) (m := a.size) (n := b.size - a.size)
    rw [Nat.zero_add, Nat.add_sub_cancel' h.size] at happend
    rw [List.range_eq_range', List.range_eq_range', happend]
  rw [Arena.outlines, hsplit, List.map_append, Arena.outlines]
  exact congrArg (· ++ _) (List.map_congr_left fun n hn => h.outline ha (List.mem_range.1 hn))

end Grows

/-! ### Adding a node -/

theorem grows_intern (a : Arena) (text : String) : a.Grows (a.intern text).2 :=
  ⟨Nat.le_refl _, fun _ _ => rfl, fun _ _ h => AtomTable.text?_intern_of_some text h⟩

theorem Sound.intern {a : Arena} (h : a.Sound) (text : String) : (a.intern text).2.Sound where
  named n node hnode := by
    obtain ⟨old, hold⟩ := h.named n node hnode
    exact ⟨old, AtomTable.text?_intern_of_some text hold⟩
  unnamed := AtomTable.text?_intern_of_some text h.unnamed
  adopted := h.adopted
  claimed := h.claimed

section AddNode

variable {a : Arena} {kind : NodeKind} {flags : Flags} {span : Span} {atom : Atom}
  {refs : List NodeRef}

theorem grows_addNode : a.Grows (a.addNode kind flags span atom refs).2 :=
  ⟨by rw [size_addNode]; omega, fun _ hn => node?_addNode_of_lt _ _ _ _ _ hn, fun _ _ h => h⟩

theorem node?_addNode_self (hrefs : ∀ c, some c ∈ refs → c < a.size) :
    (a.addNode kind flags span atom refs).2.node? (some a.size) =
      some { kind, flags, span, atom, children := refs } := by
  simp [addNode, node?, size, map_existing_eq_self hrefs]

theorem children_addNode (hrefs : ∀ c, some c ∈ refs → c < a.size) (p : Nat) :
    (a.addNode kind flags span atom refs).2.children (some p) =
      if p = a.size then refs else a.children (some p) := by
  split
  · next hp =>
    subst hp
    exact children_addNode_self a kind flags span atom refs hrefs
  · next hp =>
    by_cases hlt : p < a.size
    · exact grows_addNode.children hlt
    · have hnone : (a.addNode kind flags span atom refs).2.node? (some p) = none := by
        rw [node?, Option.bind_some, Array.getElem?_eq_none]
        have hsize := size_addNode a kind flags span atom refs
        simp only [size] at hsize hlt hp
        omega
      have hold : a.node? (some p) = none := by
        rw [node?, Option.bind_some, Array.getElem?_eq_none (Nat.le_of_not_lt hlt)]
      rw [children, children, hnone, hold]

/-- The children of a new node have it as their parent. -/
theorem parent_addNode (hrefs : ∀ c, some c ∈ refs → c < a.size) (n : Nat) :
    (a.addNode kind flags span atom refs).2.parent (some n) =
      if some n ∈ refs then some a.size else a.parent (some n) := by
  have hsize := a.parents_size
  simp only [parent, addNode, Option.bind_some, map_existing_eq_self hrefs, getElem?_adopt,
    Array.size_push]
  by_cases hn : some n ∈ refs
  · have hlt := hrefs n hn
    simp only [size] at hlt
    rw [if_pos ⟨hn, by omega⟩, if_pos hn]
    rfl
  · rw [if_neg fun h => hn h.1, if_neg hn, Array.getElem?_push]
    split
    · next heq => rw [heq, Array.getElem?_eq_none (Nat.le_refl _)]; rfl
    · rfl

theorem Sound.addNode (h : a.Sound) (hatom : ∃ text, a.atoms.text? atom = some text)
    (hrefs : ∀ c, some c ∈ refs → c < a.size) :
    (a.addNode kind flags span atom refs).2.Sound where
  named n node hnode := by
    by_cases hn : n < a.size
    · exact h.named n node ((grows_addNode.nodes n hn).symm.trans hnode)
    · have hlt := lt_of_node? (Option.isSome_of_eq_some hnode)
      rw [size_addNode] at hlt
      obtain rfl : n = a.size := by omega
      rw [node?_addNode_self hrefs] at hnode
      cases hnode
      exact hatom
  unnamed := h.unnamed
  adopted n p hp := by
    rw [parent_addNode hrefs] at hp
    rw [children_addNode hrefs]
    split at hp
    · next hmem =>
      cases hp
      rwa [if_pos rfl]
    · rw [if_neg]
      · exact h.adopted n p hp
      · exact Nat.ne_of_lt (lt_of_parent_eq_some hp).2
  claimed n p hmem := by
    rw [parent_addNode hrefs]
    rw [children_addNode hrefs] at hmem
    split
    · rfl
    · next hn =>
      split at hmem
      · exact absurd hmem hn
      · exact h.claimed n p hmem

end AddNode

theorem sound_empty : empty.Sound where
  named n node h := by simp [node?, empty] at h
  unnamed := by
    have hall : ∀ (texts : List String) (t : AtomTable), t.text? .empty = some "" →
        (t.internAll texts).text? .empty = some "" := by
      intro texts
      induction texts with
      | nil => exact fun t h => h
      | cons text rest ih => exact fun t h => ih _ (AtomTable.text?_intern_of_some text h)
    simp only [empty, AtomTable.withCommonNames]
    exact hall _ _ rfl
  adopted n p h := by simp [parent, empty] at h
  claimed n p h := by simp [children, node?, empty] at h

end Arena

/-! ## Entering outlines -/

namespace Outline

/-- Outlines that were entered into an arena, one after another, stand under the references. Their
nodes come next after those that were there, in post-order. -/
structure Entered (a : Arena) (os : List Outline) (refs : List NodeRef) (b : Arena) : Prop where
  grows : a.Grows b
  sound : b.Sound
  present : ∀ n, some n ∈ refs → n < b.size
  read : refs.map b.outline = os.map normal
  numbered : b.outlines = a.outlines ++ (postorderAll os).map normal
  listed : ((refs.filterMap id).flatMap fun n => b.listing (some n)).Perm
    (List.range' a.size (b.size - a.size))

namespace Entered

variable {a b c : Arena} {os os' : List Outline} {refs refs' : List NodeRef}

theorem nil (ha : a.Sound) : Entered a [] [] a where
  grows := .refl a
  sound := ha
  present n h := (List.not_mem_nil h).elim
  read := rfl
  numbered := by simp [postorderAll]
  listed := by simp

theorem absent (ha : a.Sound) : Entered a [.absent] [none] a where
  grows := .refl a
  sound := ha
  present n h := by simp at h
  read := by simp [Arena.outline_none, normal]
  numbered := by simp [postorderAll, postorder]
  listed := by simp

theorem postorderAll_append (os os' : List Outline) :
    postorderAll (os ++ os') = postorderAll os ++ postorderAll os' := by
  induction os with
  | nil => rfl
  | cons o rest ih => rw [List.cons_append, postorderAll, postorderAll, ih, List.append_assoc]

/-- Outlines that are entered after others. -/
theorem append (h : Entered a os refs b) (h' : Entered b os' refs' c) :
    Entered a (os ++ os') (refs ++ refs') c where
  grows := h.grows.trans h'.grows
  sound := h'.sound
  present n hn := by
    rcases List.mem_append.1 hn with hn | hn
    · exact Nat.lt_of_lt_of_le (h.present n hn) h'.grows.size
    · exact h'.present n hn
  read := by
    rw [List.map_append, List.map_append, h'.read, ← h.read]
    refine congrArg (· ++ _) (List.map_congr_left fun r hr => ?_)
    cases r with
    | none => rw [Arena.outline_none, Arena.outline_none]
    | some n => exact h'.grows.outline h.sound (h.present n hr)
  numbered := by
    rw [h'.numbered, h.numbered, postorderAll_append, List.map_append, List.append_assoc]
  listed := by
    have hkept : ((refs.filterMap id).flatMap fun n => c.listing (some n)) =
        (refs.filterMap id).flatMap fun n => b.listing (some n) := by
      rw [List.flatMap_def, List.flatMap_def]
      refine congrArg List.flatten (List.map_congr_left fun n hn =>
        h'.grows.listing (h.present n ?_))
      simpa using hn
    have hsplit := List.range'_append_1 (s := a.size) (m := b.size - a.size) (n := c.size - b.size)
    have hab := h.grows.size
    have hbc := h'.grows.size
    rw [Nat.add_sub_cancel' hab, show b.size - a.size + (c.size - b.size) =
      c.size - a.size by omega]
      at hsplit
    rw [List.filterMap_append, List.flatMap_append, hkept, ← hsplit]
    exact h.listed.append h'.listed

/-- A node over outlines that were entered. -/
theorem node (h : Entered a os refs b) (hgrows : b.Grows c) (hc : c.Sound) (hsize : c.size = b.size)
    {kind : NodeKind} {flags : Flags} {start stop : Nat} {atom : Atom} {name : Option String}
    {names : List String} (hatom : c.atoms.text? atom = some (name.getD ""))
    (hflags : flags.names = flagNames kind name names) :
    let added := c.addNode kind flags ⟨start, stop⟩ atom refs
    Entered a [.node kind start stop name names os] [some added.1] added.2 := by
  intro added
  have hrefs : ∀ n, some n ∈ refs → n < c.size := fun n hn => hsize ▸ h.present n hn
  have hnew : added.2.node? (some b.size) =
      some { kind, flags, span := ⟨start, stop⟩, atom, children := refs } := by
    rw [← hsize]
    exact Arena.node?_addNode_self hrefs
  have hadded : b.Grows added.2 := hgrows.trans Arena.grows_addNode
  have haddedSize : added.2.size = b.size + 1 := by rw [Arena.size_addNode, hsize]
  have hindex : added.1 = b.size := hsize
  have hread : added.2.outline (some b.size) =
      (Outline.node kind start stop name names os).normal := by
    have htext : added.2.atoms.text atom = name.getD "" := by
      rw [AtomTable.text, show added.2.atoms.text? atom = some (name.getD "") from hatom]
      rfl
    have hbelow : refs.map added.2.outline = os.map normal := by
      rw [← h.read]
      refine List.map_congr_left fun r hr => ?_
      cases r with
      | none => rw [Arena.outline_none, Arena.outline_none]
      | some n => exact hadded.outline h.sound (h.present n hr)
    rw [Arena.outline_some hnew, normal]
    simp only [htext, hflags, hbelow]
  have hlast : b.size + 1 - b.size = 1 := by omega
  refine ⟨h.grows.trans hadded, hc.addNode ⟨_, hatom⟩ hrefs, ?_, ?_, ?_, ?_⟩
  · intro n hn
    cases List.mem_singleton.1 hn
    rw [hindex, haddedSize]
    exact Nat.lt_succ_self _
  · rw [List.map_singleton, hindex, hread]
    rfl
  · rw [hadded.outlines h.sound, h.numbered, haddedSize, hlast, List.range'_one, List.map_singleton,
      hread, postorderAll, postorderAll, postorder, List.append_nil, List.map_append,
      List.append_assoc]
    rfl
  · have hchildren : added.2.presentChildren (some b.size) = refs.filterMap id := by
      rw [Arena.presentChildren, Arena.children, hnew]
      rfl
    have hkept : ((refs.filterMap id).flatMap fun n => added.2.listing (some n)) =
        (refs.filterMap id).flatMap fun n => b.listing (some n) := by
      rw [List.flatMap_def, List.flatMap_def]
      refine congrArg List.flatten (List.map_congr_left fun n hn => hadded.listing (h.present n ?_))
      simpa using hn
    have hsplit := List.range'_append_1 (s := a.size) (m := b.size - a.size) (n := 1)
    have hab := h.grows.size
    rw [Nat.add_sub_cancel' hab, show b.size - a.size + 1 = b.size + 1 - a.size by omega,
      List.range'_one] at hsplit
    have hlisting : added.2.listing (some b.size) =
        b.size :: (refs.filterMap id).flatMap fun n => b.listing (some n) := by
      rw [Arena.listing_some (Option.isSome_of_eq_some hnew), hchildren, hkept]
    rw [hindex, haddedSize, ← hsplit]
    simp only [List.filterMap_cons_some (f := id) (b := b.size) rfl, List.filterMap_nil,
      List.flatMap_singleton, hlisting]
    exact (h.listed.cons _).trans (List.perm_append_singleton _ _).symm

end Entered

theorem bind_ok {α β : Type} {x : Except LoadError α} {f : α → Except LoadError β} {r : α}
    (h : x = .ok r) : (x >>= f) = f r := by
  rw [h]
  rfl

theorem bind_error {α β : Type} {x : Except LoadError α} {f : α → Except LoadError β}
    {e : LoadError}
    (h : x = .error e) : (x >>= f) = .error e := by
  rw [h]
  rfl

/-- The atom of a node's name, which is interned if there is one. -/
def nameAtom (a : Arena) : Option String → Atom × Arena
  | some text => a.intern text
  | none => (Atom.empty, a)

theorem nameAtom_spec {a : Arena} (ha : a.Sound) (name : Option String) :
    a.Grows (nameAtom a name).2 ∧ (nameAtom a name).2.Sound ∧ (nameAtom a name).2.size = a.size ∧
      (nameAtom a name).2.atoms.text? (nameAtom a name).1 = some (name.getD "") := by
  cases name with
  | none => exact ⟨.refl a, ha, rfl, ha.unnamed⟩
  | some text => exact ⟨a.grows_intern text, ha.intern text, rfl, AtomTable.text?_intern _ _⟩

mutual

/-- An outline without a fault is entered, and its root comes last. One with a fault is refused for
the first. -/
theorem build_spec (o : Outline) (a : Arena) (ha : a.Sound) :
    (∀ e, (postorder o).findSome? fault? = some e → build o a = .error e) ∧
      ((postorder o).findSome? fault? = none → ∃ r b, build o a = .ok (r, b) ∧
        Entered a [o] [r] b ∧ (∀ n, r = some n → n + 1 = b.size) ∧ (r = none → b = a)) := by
  cases o with
  | absent =>
    exact ⟨fun e h => by simp [postorder] at h, fun _ => ⟨none, a, rfl, .absent ha, nofun,
      fun _ => rfl⟩⟩
  | node kind start stop name names children =>
    obtain ⟨herror, hok⟩ := buildAll_spec children a ha
    rw [postorder, List.findSome?_append, List.findSome?_singleton, build]
    cases hbelow : (postorderAll children).findSome? fault? with
    | some e =>
      refine ⟨fun e' he => ?_, nofun⟩
      cases he
      exact bind_error (herror e hbelow)
    | none =>
      obtain ⟨refs, b, hbuild, hentered⟩ := hok hbelow
      rw [Option.none_or, fault?, bind_ok hbuild]
      cases hunknown : names.find? fun flag => (Flags.ofName? flag).isNone with
      | some unknown =>
        refine ⟨fun e he => ?_, nofun⟩
        cases he
        exact bind_error (flagsOf_error hunknown kind name)
      | none =>
        obtain ⟨flags, hflags, hnames⟩ := flagsOf_ok hunknown kind name
        simp only
        rw [bind_ok hflags]
        by_cases hspan : stop < start
        · simp only [if_pos hspan]
          exact ⟨fun e he => congrArg Except.error (Option.some.inj he), nofun⟩
        · simp only [if_neg hspan]
          refine ⟨fun _ => nofun, fun _ => ?_⟩
          obtain ⟨hgrows, hc, hsize, hatom⟩ := nameAtom_spec hentered.sound name
          refine ⟨_, _, rfl, hentered.node hgrows hc hsize hatom hnames, fun n hn => ?_, nofun⟩
          rw [Arena.size_addNode, ← Option.some.inj hn]
          rfl

/-- The same for a list of outlines. -/
theorem buildAll_spec (os : List Outline) (a : Arena) (ha : a.Sound) :
    (∀ e, (postorderAll os).findSome? fault? = some e → buildAll os a = .error e) ∧
      ((postorderAll os).findSome? fault? = none →
        ∃ refs b, buildAll os a = .ok (refs, b) ∧ Entered a os refs b) := by
  cases os with
  | nil => exact ⟨fun e h => by simp [postorderAll] at h, fun _ => ⟨[], a, rfl, .nil ha⟩⟩
  | cons o rest =>
    obtain ⟨herror, hok⟩ := build_spec o a ha
    rw [postorderAll, List.findSome?_append, buildAll]
    cases hfirst : (postorder o).findSome? fault? with
    | some e =>
      refine ⟨fun e' he => ?_, nofun⟩
      cases he
      exact bind_error (herror e hfirst)
    | none =>
      obtain ⟨r, b, hbuild, hentered, -⟩ := hok hfirst
      obtain ⟨herrorAll, hokAll⟩ := buildAll_spec rest b hentered.sound
      rw [Option.none_or, bind_ok hbuild]
      refine ⟨fun e he => bind_error (herrorAll e he), fun h => ?_⟩
      obtain ⟨refs, c, hbuildAll, henteredAll⟩ := hokAll h
      exact ⟨r :: refs, c, bind_ok hbuildAll, hentered.append henteredAll⟩

end

end Outline

/-! ## Parents -/

namespace Arena

theorem count_eq_sum (l : List Nat) (n : Nat) :
    l.count n = (l.map fun c => if c = n then 1 else 0).sum := by
  induction l with
  | nil => rfl
  | cons c rest ih =>
    simp only [List.count_cons, beq_iff_eq, List.map_cons, List.sum_cons, ih]
    exact Nat.add_comm _ _

/-- A node stands in a listing once as its first node, and once for each time that a node of the
listing lists it. -/
theorem count_listing {a : Arena} {m : Nat} (h : (a.node? (some m)).isSome) (n : Nat) :
    (a.listing (some m)).count n = (if m = n then 1 else 0) +
      ((a.listing (some m)).map fun p => (a.children (some p)).count (some n)).sum := by
  induction m using Nat.strongRecOn with
  | ind m ih =>
    let listed (p : Nat) : Nat := (a.children (some p)).count (some n)
    let below := a.presentChildren (some m)
    have hchildren : listed m = below.count n := by
      simp only [listed, below, presentChildren, List.count, List.countP_filterMap]
      exact List.countP_congr fun r _ => by cases r <;> simp
    have hbelow : (below.map fun c => (a.listing (some c)).count n).sum =
        below.count n + (below.map fun c => ((a.listing (some c)).map listed).sum).sum := by
      rw [count_eq_sum, ← List.sum_map_add]
      refine congrArg List.sum (List.map_congr_left fun c hc => ?_)
      exact ih c (lt_of_mem_presentChildren hc) (node?_of_mem_children (mem_presentChildren.1 hc))
    have hsum : ((below.flatMap fun c => a.listing (some c)).map listed).sum =
        (below.map fun c => ((a.listing (some c)).map listed).sum).sum := by
      rw [List.flatMap_def, List.map_flatten, List.sum_flatten, List.map_map, List.map_map]
      rfl
    show (a.listing (some m)).count n = _ + ((a.listing (some m)).map listed).sum
    rw [listing_some h, List.count_cons, List.count_flatMap, List.map_cons, List.sum_cons, hsum,
      hchildren]
    simp only [beq_iff_eq]
    have hcount : (below.map (List.count n ∘ fun c => a.listing (some c))).sum = _ := hbelow
    rw [hcount]
    omega

/-- Where a listing shows each node once, every node below the first is listed by its parent, once,
and by no other node. -/
theorem exists_parent {a : Arena} (ha : a.Sound) {root : Nat}
    (hlisting : (a.listing (some root)).Perm (List.range a.size)) {n : Nat} (hn : n < a.size)
    (hroot : n ≠ root) :
    ∃ p, a.parent (some n) = some p ∧ (a.children (some p)).count (some n) = 1 ∧
      ∀ q, some n ∈ a.children (some q) → q = p := by
  let listed (p : Nat) : Nat := (a.children (some p)).count (some n)
  have hsum : ((List.range a.size).map listed).sum = 1 := by
    have hthere : (a.node? (some root)).isSome :=
      isSome_of_mem_listing (hlisting.mem_iff.2 (List.mem_range.2 hn))
    have hcount := count_listing hthere n
    rw [hlisting.count_eq, List.count_eq_one_of_mem (List.nodup_range) (List.mem_range.2 hn),
      if_neg (Ne.symm hroot), Nat.zero_add, (hlisting.map _).sum_eq] at hcount
    exact hcount.symm
  have hpositive : ∀ q, some n ∈ a.children (some q) → 0 < listed q ∧ q ∈ List.range a.size := by
    intro q hq
    refine ⟨List.count_pos_iff.2 hq, List.mem_range.2 (lt_of_node? ?_)⟩
    by_contra hnone
    rw [children, Option.not_isSome_iff_eq_none.1 hnone] at hq
    exact List.not_mem_nil hq
  obtain ⟨p', hp', hlisted⟩ : ∃ p ∈ List.range a.size, listed p ≠ 0 := by
    by_contra hnone
    push Not at hnone
    rw [List.sum_eq_zero (by simpa using hnone)] at hsum
    cases hsum
  obtain ⟨p, hp⟩ := Option.isSome_iff_exists.1
    (ha.claimed n p' (List.count_pos_iff.1 (Nat.pos_of_ne_zero hlisted)))
  obtain ⟨hpos, hmem⟩ := hpositive p (ha.adopted n p hp)
  have hsplit := List.sum_map_erase listed hmem
  have hone : listed p = 1 := by omega
  refine ⟨p, hp, hone, fun q hq => ?_⟩
  by_contra hne
  obtain ⟨hposq, hmemq⟩ := hpositive q hq
  have hle : listed q ≤ (((List.range a.size).erase p).map listed).sum :=
    List.le_sum_of_mem (List.mem_map_of_mem ((List.mem_erase_of_ne hne).2 hmemq))
  omega

end Arena

/-! ## The whole tree -/

namespace Outline

/-- **Loading is faithful.** An outline is refused if and only if one of its nodes has a fault, and
then for the first fault in post-order. Otherwise the arena holds the nodes of the outline by their
post-order numbers, the root is the last one and reads back as the outline, every other node is
listed by its parent alone, and once, and a walk from the root shows every node once. A text that
writes the outline down is loaded in the same way. -/
theorem build_faithful (o : Outline) :
    (∀ e, o.build Arena.empty = .error e ↔ o.postorder.findSome? fault? = some e) ∧
      (∀ root a, o.build Arena.empty = .ok (root, a) →
        a.outlines = o.postorder.map normal ∧ a.outline root = o.normal ∧
        (∀ n, root = some n ↔ n + 1 = a.size) ∧
        a.parent root = none ∧
        (∀ n, n < a.size → root ≠ some n → ∃ p, a.parent (some n) = some p ∧
          (a.children (some p)).count (some n) = 1 ∧ ∀ q, some n ∈ a.children (some q) → q = p) ∧
        ((Walk.start a root).toList a fun _ => false).Perm (List.range a.size)) ∧
      ∀ text, Outline.ofText text = .ok o →
        Tree.ofText text = (o.build Arena.empty).map fun (root, arena) => { arena, root } := by
  obtain ⟨herror, hok⟩ := build_spec o .empty Arena.sound_empty
  refine ⟨fun e => ⟨fun h => ?_, herror e⟩, fun root a hbuild => ?_, fun text htext => ?_⟩
  · cases hfault : o.postorder.findSome? fault? with
    | none =>
      obtain ⟨r, b, hbuild, -⟩ := hok hfault
      rw [hbuild] at h
      cases h
    | some e' =>
      rw [herror e' hfault] at h
      exact congrArg some (Except.error.inj h)
  · have hfault : o.postorder.findSome? fault? = none := by
      cases hfault : o.postorder.findSome? fault? with
      | none => rfl
      | some e =>
        rw [herror e hfault] at hbuild
        cases hbuild
    obtain ⟨r, b, hbuilt, hentered, hlast, habsent⟩ := hok hfault
    rw [hbuild] at hbuilt
    cases hbuilt
    have hread : a.outline root = o.normal := by simpa using hentered.read
    have hnumbered : a.outlines = o.postorder.map normal := by
      simpa [Arena.outlines, Arena.size, Arena.empty, postorderAll] using hentered.numbered
    have hlisting : (a.listing root).Perm (List.range a.size) := by
      have hlisted := hentered.listed
      rw [show Arena.empty.size = 0 from rfl, Nat.sub_zero, ← List.range_eq_range'] at hlisted
      cases root with
      | none => simpa [Arena.listing_none] using hlisted
      | some n => simpa using hlisted
    refine ⟨hnumbered, hread, fun n => ⟨hlast n, fun hn => ?_⟩, ?_, fun n hn hroot => ?_, ?_⟩
    · cases root with
      | none => 
        rw [habsent rfl] at hn
        cases hn
      | some m =>
        have hm := hlast m rfl
        exact congrArg some (by omega)
    · cases root with
      | none => rfl
      | some m =>
        cases hparent : a.parent (some m) with
        | none => rfl
        | some p =>
          have hm := hlast m rfl
          have hlt := Arena.lt_of_parent_eq_some hparent
          omega
    · cases root with
      | none =>
        rw [habsent rfl] at hn
        cases hn
      | some m => exact Arena.exists_parent hentered.sound hlisting hn fun heq => hroot (heq ▸ rfl)
    · rw [Walk.toList_start]
      exact hlisting
  · unfold Tree.ofText
    rw [bind_ok htext]
    cases o.build Arena.empty <;> rfl

end Outline

end DocTypes
