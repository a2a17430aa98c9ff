import DocTypes.Proofs.Binding.References
import DocTypes.Proofs.Nodes.Typing
import DocTypes.Proofs.Tree.Loading

/-!
# References and the types of their slots

At the end of the third pass the declared type of every slot is given to the nodes that read it, and
a node that has a type keeps it. No two slots list the same node, so what a node gets depends on the
one slot that lists it, and not on the order in which the slots are taken
(`Typing.propagates_types`).

## Main statements

* `Typing.propagates_types`: what each node gets, whatever the order of the slots.
* `Outline.build_propagates`: so it is in a run over any tree that is loaded.
-/

namespace DocTypes

namespace Typing

open Analysis

/-! ## One slot -/

theorem forM_setTypeIfNew (nodes : List NodeRef) (t : TypeId) (x : Analysis) :
    (nodes.forM (fun node => setTypeIfNew node t) x).2 =
      { x with typeTable := nodes.foldl (fun table node =>
        table.insertIfNew node t) x.typeTable } := by
  induction nodes generalizing x with
  | nil => rfl
  | cons node rest ih => exact ih _

theorem get?_foldl_insertIfNew {α : Type} (nodes : List NodeRef) (v : α) (table : NodeTable α)
    (r : NodeRef) : (nodes.foldl (fun table node => table.insertIfNew node v) table).get? r =
      if r ∈ nodes then (table.get? r).or (some v) else table.get? r := by
  induction nodes generalizing table with
  | nil => rfl
  | cons node rest ih =>
    rw [List.foldl_cons, ih, NodeTable.get?_insertIfNew]
    by_cases hnode : node = r
    · subst hnode
      cases table.get? node <;> simp
    · simp [hnode, Ne.symm hnode]

/-- The types of nodes after those that read a slot got its type. -/
def spread (v : ValueId) (x : Analysis) : NodeTable TypeId :=
  match x.declaredType? v with
  | none => x.typeTable
  | some t => (x.store.values.readsOf v).foldl (fun table node =>
      table.insertIfNew node t) x.typeTable

/-- Propagation changes no more than the types of nodes. -/
theorem propagate_eq (v : ValueId) (x : Analysis) :
    (propagate v x).2 = { x with typeTable := spread v x } := by
  unfold propagate spread ValueStore.readsOf
  rw [run_bind, run_get]
  cases x.declaredType? v with
  | none => rfl
  | some t =>
    cases x.store.values.slot? v with
    | none => rfl
    | some slot => exact forM_setTypeIfNew slot.reads t x

/-- The nodes that read a slot get its type, unless they have one. -/
theorem typeOf?_propagate (v : ValueId) (x : Analysis) (r : NodeRef) :
    (propagate v x).2.typeOf? r = if r ∈ x.store.values.readsOf v then
      (x.typeOf? r).or (x.declaredType? v) else x.typeOf? r := by
  rw [propagate_eq]
  show (spread v x).get? r = _
  unfold spread
  cases x.declaredType? v with
  | none =>
    rw [Option.or_none, ite_self]
    rfl
  | some t => exact get?_foldl_insertIfNew _ t x.typeTable r

/-! ## All slots in some order -/

/-- The nodes that read the slots of a list have the types of these slots, unless they had types,
and nothing else is different. -/
structure Propagates (order : List ValueId) (x y : Analysis) : Prop where
  rest : y = { x with typeTable := y.typeTable }
  read : ∀ v ∈ order, ∀ r ∈ x.store.values.readsOf v,
    y.typeOf? r = (x.typeOf? r).or (x.declaredType? v)
  unread : ∀ r, (∀ v ∈ order, r ∉ x.store.values.readsOf v) → y.typeOf? r = x.typeOf? r

theorem forM_propagates {x : Analysis} (h : x.store.values.references.Nodup)
    (order : List ValueId) :
    Propagates order x (order.forM propagate x).2 := by
  induction order generalizing x with
  | nil => exact ⟨rfl, fun v hv => (List.not_mem_nil hv).elim, fun _ _ => rfl⟩
  | cons w rest ih =>
    have hfirst := propagate_eq w x
    have hstore : (propagate w x).2.store = x.store := by rw [hfirst]
    have hdeclared (v : ValueId) : (propagate w x).2.declaredType? v = x.declaredType? v := by
      rw [hfirst]
      rfl
    have hrest := ih (x := (propagate w x).2) (by rwa [hstore])
    show Propagates (w :: rest) x (rest.forM propagate (propagate w x).2).2
    generalize (rest.forM propagate (propagate w x).2).2 = y at hrest
    refine ⟨?_, fun v hv r hr => ?_, fun r hr => ?_⟩
    · rw [hrest.rest, hfirst]
    · have hown {u : ValueId} (hu : r ∈ x.store.values.readsOf u) : u = v :=
        ValueStore.eq_of_mem_readsOf h hu hr
      by_cases hlater : v ∈ rest
      · rw [hrest.read v hlater r (by rwa [hstore]), typeOf?_propagate, hdeclared]
        split
        · next hw => rw [hown hw, Option.or_assoc, Option.or_self]
        · rfl
      · obtain rfl : v = w := (List.mem_cons.1 hv).resolve_right hlater
        rw [hrest.unread r fun u hu hread => ?_, typeOf?_propagate, if_pos hr]
        rw [hstore] at hread
        exact hlater (hown hread ▸ hu)
    · rw [hrest.unread r fun u hu hread => ?_, typeOf?_propagate, if_neg (hr w List.mem_cons_self)]
      rw [hstore] at hread
      exact hr u (List.mem_cons_of_mem _ hu) hread

/-- Whatever the order in which slots are taken, a node that a slot lists keeps its type or gets
that of the slot, and no other node changes. -/
theorem propagates_types {x : Analysis} (h : x.store.values.references.Nodup) {order : List ValueId}
    (horder : ∀ v, (x.declaredType? v).isSome → v ∈ order ∨ x.store.values.readsOf v = []) :
    (order.forM propagate x).2 =
        { x with typeTable := (order.forM propagate x).2.typeTable } ∧
      (∀ v, ∀ r ∈ x.store.values.readsOf v,
        (order.forM propagate x).2.typeOf? r = (x.typeOf? r).or (x.declaredType? v)) ∧
      ∀ r ∉ x.store.values.references,
        (order.forM propagate x).2.typeOf? r = x.typeOf? r := by
  have hall := forM_propagates h order
  refine ⟨hall.rest, fun v r hr => ?_, fun r hr => hall.unread r fun v _ hv => ?_⟩
  · by_cases hv : v ∈ order
    · exact hall.read v hv r hr
    · have hnone : x.declaredType? v = none := by
        by_contra hsome
        rcases horder v (Option.isSome_iff_ne_none.2 hsome) with hmem | hempty
        · exact hv hmem
        · rw [hempty] at hr
          exact List.not_mem_nil hr
      rw [hnone, Option.or_none]
      refine hall.unread r fun u hu hread => hv ?_
      exact ValueStore.eq_of_mem_readsOf h hread hr ▸ hu
  · exact hr (ValueStore.mem_references.2 ⟨v, hv⟩)

theorem typeTable_onStore {α : Type} (m : StateM Store α) (x : Analysis) :
    (Analyze.onStore m x).2.typeTable = x.typeTable := rfl

/-- Types are propagated from all values in turn, and nodes get none after that. -/
theorem typeOf?_finish (x : Analysis) (r : NodeRef) :
    (finish x).2.typeOf? r = (x.store.values.ids.forM propagate x).2.typeOf? r := by
  unfold finish typeOf?
  rw [run_bind, run_get, run_bind, typeTable_onStore]

end Typing

/-! ## Trees that are loaded -/

namespace Outline

/-- A tree that is loaded lists each of its nodes once. -/
theorem nodup_listing {o : Outline} {root : NodeRef} {a : Arena}
    (h : o.build Arena.empty = .ok (root, a)) : (a.listing root).Nodup := by
  obtain ⟨herror, hok⟩ := build_spec o .empty Arena.sound_empty
  cases hfault : o.postorder.findSome? fault? with
  | some e =>
    rw [herror e hfault] at h
    cases h
  | none =>
    obtain ⟨r, b, hbuild, hentered, -⟩ := hok hfault
    cases h.symm.trans hbuild
    have hperm := hentered.listed
    cases root with
    | none => simp [Arena.listing_none]
    | some n => simpa using hperm.nodup_iff.2 List.nodup_range'

open Analysis in
/-- **The types of references do not depend on an order.** Once the names of a loaded tree are
bound, all slots together list each node at most once, and they list the same nodes when nodes have
been visited for their types. Whatever the order in which the slots with declared types are taken
then, a node that a slot lists, and no other slot lists, keeps its type or gets that of the slot, no
other node changes, and nothing but types of nodes changes. So the types in the end are those that
every other order gives. -/
theorem build_propagates {o : Outline} {root : NodeRef} {a : Arena}
    (h : o.build Arena.empty = .ok (root, a)) (reportUndefined : Bool) :
    let bound := (runPasses a reportUndefined root 1).store.values
    let x := ((a.code root).forM (Typing.visit a) (runPasses a reportUndefined root 2)).2
    bound.references.Nodup ∧ (∀ v, x.store.values.readsOf v = bound.readsOf v) ∧
      ∀ order : List ValueId, (∀ v, (x.declaredType? v).isSome → v ∈ order) →
        let y := (order.forM Typing.propagate x).2
        y = { x with typeTable := y.typeTable } ∧
          (∀ v, ∀ r ∈ x.store.values.readsOf v, (∀ w, r ∈ x.store.values.readsOf w → w = v) ∧
            y.typeOf? r = (x.typeOf? r).or (x.declaredType? v)) ∧
          (∀ r, (∀ v, r ∉ x.store.values.readsOf v) → y.typeOf? r = x.typeOf? r) ∧
          ∀ r, (runPasses a reportUndefined root 3).typeOf? r = y.typeOf? r := by
  intro bound x
  have hbound : bound.references.Nodup := bindNames_references (nodup_listing h) reportUndefined
  have hsame : (runPasses a reportUndefined root 1).SameSites x := by
    have hbuild := Hierarchy.build_bypasses (a := a) (q := none)
      (runPasses a reportUndefined root 1)
    rw [← runPasses_two] at hbuild
    exact hbuild.toSameSites.trans (Typing.visits_sameSites a (a.code root) _)
  have hreads (v : ValueId) : x.store.values.readsOf v = bound.readsOf v := by
    unfold ValueStore.readsOf
    rw [hsame.sites.slots v]
  have hx : x.store.values.references.Nodup := (ValueStore.references_congr hreads).symm ▸ hbound
  refine ⟨hbound, hreads, fun order horder => ?_⟩
  obtain ⟨hrest, hread, hunread⟩ := Typing.propagates_types hx fun v hv => .inl (horder v hv)
  -- the run takes all values in turn, and a slot that is listed nowhere lists nothing
  have hlisted (v : ValueId) : v ∈ x.store.values.ids ∨ x.store.values.readsOf v = [] :=
    or_iff_not_imp_left.2 fun hv => List.eq_nil_iff_forall_not_mem.2 fun r hr =>
      hv (ValueStore.mem_ids_of_mem_readsOf hr)
  obtain ⟨-, hreadAll, hunreadAll⟩ := Typing.propagates_types hx fun v _ => hlisted v
  refine ⟨hrest, fun v r hr => ⟨fun w hw => ValueStore.eq_of_mem_readsOf hx hw hr, hread v r hr⟩,
    fun r hr => hunread r fun hmem => ?_, fun r => ?_⟩
  · obtain ⟨v, hv⟩ := ValueStore.mem_references.1 hmem
    exact hr v hv
  · have hrun : (runPasses a reportUndefined root 3).typeOf? r =
        (x.store.values.ids.forM Typing.propagate x).2.typeOf? r := by
      rw [runPasses_three, Typing.run_eq, Typing.typeOf?_finish]
    rw [hrun]
    by_cases hmem : r ∈ x.store.values.references
    · obtain ⟨v, hv⟩ := ValueStore.mem_references.1 hmem
      rw [hreadAll v r hv, hread v r hv]
    · rw [hunreadAll r hmem, hunread r hmem]

/-- `/** @type {number} */ var x; /** @type {string} */ var y; x; y;`, all at one place. -/
def typedPair : Outline :=
  let named (kind : NodeKind) (name : String) : Outline := .node kind 0 0 (some name) [] []
  let plain (kind : NodeKind) (children : List Outline) : Outline := .node kind 0 0 none [] children
  let typed (name type : String) : Outline :=
    plain .annotated
      [plain .jsDocDocument
        [.node .jsDocTag 0 0 (some "type") [] [plain .typeName [named .identifier type]]],
        plain .varStatement [plain .varDeclaration [named .bindingName name, .absent]]]
  plain .script [typed "x" "number", typed "y" "string",
    plain .expressionStatement [named .identifier "x"],
    plain .expressionStatement [named .identifier "y"]]

/-- The tree of two variables with types, and its root. -/
def typedPairTree : NodeRef × Arena := (typedPair.build Arena.empty).toOption.getD (none, .empty)

theorem build_typedPair : typedPair.build Arena.empty = .ok (typedPairTree.1, typedPairTree.2) := by
  have hloaded : (typedPair.build Arena.empty).toOption.isSome = true := by decide +kernel
  unfold typedPairTree
  generalize typedPair.build Arena.empty = built at hloaded ⊢
  cases built with
  | error e => cases hloaded
  | ok tree => rfl

open Analysis in
/-- The names at the end of this tree get the types of the two variables, the second variable being
taken before the first one too. -/
theorem typedPair_propagates :
    let root := typedPairTree.1
    let a := typedPairTree.2
    let x := ((a.code root).forM (Typing.visit a) (runPasses a true root 2)).2
    let y := ([⟨1002⟩, ⟨1001⟩].forM Typing.propagate x).2
    typedPair.build Arena.empty = .ok (root, a) ∧
      (∀ v, (x.declaredType? v).isSome → v ∈ [ValueId.mk 1002, ⟨1001⟩]) ∧
      y.typeOf? (some 16) = some .number ∧ y.typeOf? (some 18) = some .string ∧
      ∀ r, (runPasses a true root 3).typeOf? r = y.typeOf? r := by
  intro root a x y
  have hdeclared : ∀ v, (x.declaredType? v).isSome → v ∈ [ValueId.mk 1002, ⟨1001⟩] := by
    intro v hv
    have hkeys : x.declaredTypes.map Prod.fst = [⟨1002⟩, ⟨1001⟩] := by decide +kernel
    obtain ⟨t, ht⟩ := Option.isSome_iff_exists.1 hv
    rw [← hkeys]
    exact List.mem_map_of_mem (f := Prod.fst) (Store.mem_of_lookup_eq_some ht)
  obtain ⟨-, -, horder⟩ := build_propagates build_typedPair true
  obtain ⟨-, hread, -, hrun⟩ := horder [⟨1002⟩, ⟨1001⟩] hdeclared
  refine ⟨build_typedPair, hdeclared, ?_, ?_, hrun⟩
  · obtain ⟨hx, htype⟩ : some 16 ∈ x.store.values.readsOf ⟨1001⟩ ∧
        (x.typeOf? (some 16)).or (x.declaredType? ⟨1001⟩) = some .number := by decide +kernel
    exact (hread _ _ hx).2.trans htype
  · obtain ⟨hy, htype⟩ : some 18 ∈ x.store.values.readsOf ⟨1002⟩ ∧
        (x.typeOf? (some 18)).or (x.declaredType? ⟨1002⟩) = some .string := by decide +kernel
    exact (hread _ _ hy).2.trans htype

end Outline

end DocTypes
