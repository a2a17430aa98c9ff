import DocTypes.Proofs.Types.Sameness
import DocTypes.Proofs.Types.Unions

/-!
# The structure of what is made

Every former of types has a former of structures beside it, and the type that comes out unfolds
to the structure that comes out. For unions that is `Structure.unite`, up to sameness, because
a union is stored in normal form.

A store is sound if it is canonical and its unions are flat. Operations widen a sound store to
a sound one and leave all structures in it as they are, so a structure may be taken from the
store in which it is easiest to see. All stores that operations and changes of values reach
from the empty one are sound (`Store.Reached`), and so are those of a run of the analysis.

## Main statements

* `Store.Reached.sound`: what is reached is sound.
* `Store.Widens.unfold_eq`, `Store.Widens.valueStructure_eq`: structures stay as they are.
* `Store.Sound.unfold_union`, `Store.Sound.unfold_record` and the lemmas beside them: the
  structure of a type that is made, over the structures of its parts.
* `Store.Sound.union_widens`, `Store.Sound.record_widens` and the lemmas beside them: what the
  step comes to that makes the type.
-/

namespace DocTypes

open Structure

namespace Store

variable {s s' s'' : Store}

/-- A canonical store whose unions are flat. -/
structure Sound (s : Store) : Prop where
  canonical : s.Canonical
  flatUnions : s.types.FlatUnions

/-- A sound store in which everything is still there. -/
structure Widens (s s' : Store) : Prop where
  sound : s'.Sound
  keeps : s.Extends s'

namespace Widens

theorem refl (hs : s.Sound) : s.Widens s := ⟨hs, .refl s⟩

theorem trans (h : s.Widens s') (h' : s'.Widens s'') : s.Widens s'' :=
  ⟨h'.sound, h.keeps.trans h'.keeps⟩

instance : IsTrans Store Widens := ⟨fun _ _ _ => trans⟩

instance : Anchored Widens := ⟨fun h => .refl h.sound⟩

theorem known (h : s.Widens s') {t : TypeId} (ht : s.Known t) : s'.Known t := h.keeps.known ht

/-- A known type has the same structure in a wider store. -/
theorem unfold_eq (h : s.Widens s') (hs : s.Sound) {t : TypeId} (ht : s.Known t) :
    s'.unfold t = s.unfold t := by
  have hc := hs.canonical
  refine unfold_of_extends h.keeps hc.descends h.sound.canonical.descends hc.applicationsKnown
    hc.keyKnown (fun u key hkey part hpart => ?_) ht
  exact hc.known_of_mem_parts key (hc.keyKnown u key hkey) hpart

theorem map_unfold_eq (h : s.Widens s') (hs : s.Sound) {types : List TypeId}
    (htypes : ∀ t ∈ types, s.Known t) : types.map s'.unfold = types.map s.unfold :=
  List.map_congr_left fun t ht => h.unfold_eq hs (htypes t ht)

/-- A known value has the same structure in a wider store. -/
theorem valueStructure_eq (h : s.Widens s') (hs : s.Sound) {v : ValueId} (hv : s.ValueKnown v) :
    s'.valueStructure s'.unfold v = s.valueStructure s.unfold v := by
  rw [valueStructure, valueStructure, h.keeps.valueTo_eq hs.canonical.applicationsKnown hv]
  exact valueTo_congr fun t ht => h.unfold_eq hs (hs.canonical.known_of_mem_valueParts ht)

end Widens

namespace Sound

variable {t : TypeId}

/-- The empty store is sound. -/
theorem new (prototypeName : Atom) : (Store.new prototypeName).Sound :=
  ⟨.new prototypeName, flatUnions_new prototypeName⟩

/-- An operation on what is there widens a sound store. -/
theorem run (hs : s.Sound) {op : Operation} (hop : op.Admissible s) : s.Widens (op.run s) :=
  ⟨⟨(hs.canonical.run hop).canonical, hs.canonical.flatUnions_run hs.flatUnions hop⟩,
    (hs.canonical.run hop).keeps⟩

/-- A known type unfolds to one layer of its key. -/
theorem unfold_of_key? (hs : s.Sound) {key : TypeKey} (hkey : s.types.key? t = some key) :
    s.unfold t = s.layer s.unfold key := Store.unfold_eq hs.canonical.descends hkey

theorem same_unfold_iff (hs : s.Sound) {u : TypeId} (ht : s.Known t) (hu : s.Known u) :
    Same (s.unfold t) (s.unfold u) ↔ t = u := hs.canonical.same_unfold_iff ht hu

end Sound

/-! ## Stores that are reached -/

/-- The stores that operations make from the empty one, while values change in between in what
does not bear on their identity. -/
inductive Reached : Store → Prop
  | new (prototypeName : Atom) : Reached (Store.new prototypeName)
  | operation {s : Store} (h : Reached s) (op : Operation) (hop : op.Admissible s) :
      Reached (op.run s)
  | values {s : Store} (h : Reached s) {values : ValueStore} (hvalues : s.values.Keeps values) :
    Reached { s with values }

namespace Reached

theorem sound (h : s.Reached) : s.Sound := by
  induction h with
  | new prototypeName => exact .new prototypeName
  | operation _ op hop hs => exact (hs.run hop).sound
  | values _ hvalues hs => exact ⟨(hs.canonical.withValues hvalues).canonical, hs.flatUnions⟩

/-- The empty list has its number from the beginning. -/
theorem list_empty (h : s.Reached) : s.ListKnown .empty ∧ s.types.list .empty = [] := by
  induction h with
  | new prototypeName => exact ⟨rfl, rfl⟩
  | operation h op hop ih =>
    have hkeeps := (h.sound.run hop).keeps
    exact ⟨hkeeps.listKnown _ ih.1, (hkeeps.list _ ih.1).trans ih.2⟩
  | values _ _ ih => exact ih

theorem runAll (h : s.Reached) {ops : List Operation} (hops : Operation.AllAdmissible s ops) :
    (Operation.runAll s ops).Reached := by
  induction ops generalizing s with
  | nil => exact h
  | cons op ops ih => exact ih (h.operation op hops.1) hops.2

/-- A change of the store in the analysis is one of this kind. -/
theorem change (h : s.Reached) (hchange : s.Change s') : s'.Reached := by
  cases hchange with
  | operation op hop => exact h.operation op hop
  | noteBases cls bases =>
    exact h.values (Canonical.updateClass_keeps _ cls fun data => { data with bases })
  | noteAncestors cls ancestors =>
    exact h.values (Canonical.updateClass_keeps _ cls fun data =>
      { data with ancestors, finalized := true })
  | noteConstructedAncestors cls ancestors =>
    exact h.values (Closed.updateConstructed_keeps _ cls ancestors)

end Reached

namespace Sound

variable {t : TypeId}

/-! ## Values -/

/-- Steps beyond the number of a value change nothing. -/
theorem valueTo_eq_valueTo (hs : s.Sound) {f : TypeId → Structure} {n m : Nat} {v : ValueId}
    (hn : v.index < n) (hm : v.index < m) : s.valueTo f n v = s.valueTo f m v := by
  induction n generalizing m v with
  | zero => omega
  | succ n ih =>
    obtain ⟨m, rfl⟩ : ∃ k, m = k + 1 := ⟨m - 1, by omega⟩
    unfold valueTo
    cases hx : s.values.application? v with
    | none => rfl
    | some x =>
      have hlt := hs.canonical.generic_lt v x hx
      simp only [ih (by omega : x.generic.index < n) (by omega : x.generic.index < m)]

theorem valueStructure_of_application? (hs : s.Sound) {f : TypeId → Structure} {v : ValueId}
    {x : Application} (hx : s.values.application? v = some x) :
    s.valueStructure f v =
      .applied (s.valueStructure f x.generic) ((s.types.list x.arguments).map f) := by
  have hlt := hs.canonical.generic_lt v x hx
  rw [valueStructure, valueTo, hx]
  dsimp only
  rw [hs.valueTo_eq_valueTo hlt (Nat.lt_succ_self _)]
  rfl

theorem valueStructure_of_none {f : TypeId → Structure} {v : ValueId}
    (hv : s.values.application? v = none) : s.valueStructure f v = .value v := by
  rw [valueStructure, valueTo, hv]

/-! ## Types over one key -/

/-- A key whose handles are known unfolds to a layer over the store in which it came. -/
theorem unfold_intern (hs : s.Sound) {key : TypeKey} (hkey : s.KeyKnown key)
    (h : s.Widens { s with types := (s.types.intern key).2 }) :
    unfold { s with types := (s.types.intern key).2 } (s.types.intern key).1 =
      s.layer s.unfold key := by
  have hc := hs.canonical
  rw [h.sound.unfold_of_key? (s.types.key?_intern key),
    h.keeps.layer_eq hc.applicationsKnown hkey]
  exact layer_congr fun part hpart => h.unfold_eq hs (hc.known_of_mem_parts key hkey hpart)

theorem unfold_instanceOf (hs : s.Sound) {v : ValueId} (hv : s.ValueKnown v) :
    (Operation.run s (.instanceOf v)).unfold (s.types.instanceOf v).1 =
      .instanceOf (s.valueStructure s.unfold v) := by
  have hkey : s.KeyKnown (.instanceOf v) := hv
  have h : s.Widens (Operation.run s (.instanceOf v)) := hs.run hv
  exact hs.unfold_intern hkey h

theorem unfold_constructedInstanceOf (hs : s.Sound) {v : ValueId} (hv : s.ValueKnown v) :
    (Operation.run s (.constructedInstanceOf v)).unfold (s.types.constructedInstanceOf v).1 =
      .constructedInstanceOf (s.valueStructure s.unfold v) := by
  have hkey : s.KeyKnown (.constructedInstanceOf v) := hv
  have h : s.Widens (Operation.run s (.constructedInstanceOf v)) := hs.run hv
  exact hs.unfold_intern hkey h

theorem unfold_reference (hs : s.Sound) {v : ValueId} (hv : s.ValueKnown v) :
    (Operation.run s (.reference v)).unfold (s.types.reference v).1 =
      .reference (s.valueStructure s.unfold v) := by
  have hkey : s.KeyKnown (.reference v) := hv
  have h : s.Widens (Operation.run s (.reference v)) := hs.run hv
  exact hs.unfold_intern hkey h

theorem unfold_labeled (hs : s.Sound) (label : Atom) (ht : s.Known t) :
    (Operation.run s (.labeled label t)).unfold (s.types.labeled label t).1 =
      .labeled label (s.unfold t) := by
  have hkey : s.KeyKnown (.labeled label t) := ht
  have h : s.Widens (Operation.run s (.labeled label t)) := hs.run ht
  exact hs.unfold_intern hkey h

theorem unfold_function (hs : s.Sound) {shape : FunctionShape}
    (hshape : s.KeyKnown (.function shape)) :
    (Operation.run s (.function shape)).unfold (s.types.function shape).1 =
      s.layer s.unfold (.function shape) := by
  have h : s.Widens (Operation.run s (.function shape)) := hs.run hshape
  exact hs.unfold_intern hshape h

/-! ## Types over a list -/

section Lists

variable {types : List TypeId} (htypes : ∀ t ∈ types, s.Known t)
include htypes

/-- What a type unfolds to that was numbered together with its list. -/
theorem unfold_internList_intern (hs : s.Sound) {key : ListId → TypeKey}
    {former : List Structure → Structure}
    (hlayer : ∀ (S : Store) f l, S.layer f (key l) = former ((S.types.list l).map f))
    (h : s.Widens { s with types :=
      ((s.types.internList types).2.intern (key (s.types.internList types).1)).2 }) :
    unfold { s with types :=
        ((s.types.internList types).2.intern (key (s.types.internList types).1)).2 }
      ((s.types.internList types).2.intern (key (s.types.internList types).1)).1 =
        former (types.map s.unfold) := by
  rw [h.sound.unfold_of_key? (TypeStore.key?_intern _ _), hlayer, ← h.map_unfold_eq hs htypes]
  congr 2
  rw [TypeStore.list, TypeStore.lists_intern]
  exact s.types.list_internList types

theorem unfold_tuple (hs : s.Sound) :
    (Operation.run s (.tuple types)).unfold (s.types.tuple types).1 =
      .tuple (types.map s.unfold) := by
  have h : s.Widens (Operation.run s (.tuple types)) := hs.run htypes
  exact hs.unfold_internList_intern htypes (fun _ _ _ => rfl) h

end Lists

/-! ## Unions -/

/-- The members of a structure are the structures of the members. -/
theorem members_unfold (hs : s.Sound) (ht : s.Known t) :
    (s.unfold t).members = (s.types.members t).map s.unfold := by
  obtain ⟨key, hkey⟩ := Option.isSome_iff_exists.1 ht
  rw [hs.unfold_of_key? hkey]
  unfold TypeStore.members
  rw [hkey]
  cases key with
  | union l => rfl
  | _ =>
    rw [List.map_singleton, hs.unfold_of_key? hkey]
    rfl

theorem unfold_intrinsic (hs : s.Sound) {key : TypeKey}
    (h : TypeKey.intrinsics[t.index]? = some key)
    (hlayer : ∀ f, s.layer f key = .leaf key) : s.unfold t = .leaf key := by
  have hlt : t.index < TypeId.firstInterned := by
    have hlength := (List.getElem?_eq_some_iff.1 h).1
    have htotal : TypeKey.intrinsics.length < TypeId.firstInterned := by decide
    omega
  have hkey : s.types.key? t = some key := by
    rw [TypeStore.key?, if_pos (show t.isIntrinsic = true from decide_eq_true hlt), h]
  rw [hs.unfold_of_key? hkey, hlayer]

theorem unfold_any (hs : s.Sound) : s.unfold .any = .leaf .any :=
  hs.unfold_intrinsic rfl fun _ => rfl

theorem unfold_nil (hs : s.Sound) : s.unfold .nil = .leaf .nil :=
  hs.unfold_intrinsic rfl fun _ => rfl

theorem unfold_inj (hs : s.Sound) {u : TypeId} (ht : s.Known t) (hu : s.Known u) :
    s.unfold t = s.unfold u ↔ t = u := by
  constructor
  · intro h
    exact (hs.same_unfold_iff ht hu).1 (h ▸ .refl _)
  · rintro rfl
    rfl

theorem unfold_eq_any_iff (hs : s.Sound) (ht : s.Known t) :
    s.unfold t = .leaf .any ↔ t = .any := by
  rw [← hs.unfold_any]
  exact hs.unfold_inj ht rfl

theorem unfold_eq_nil_iff (hs : s.Sound) (ht : s.Known t) :
    s.unfold t = .leaf .nil ↔ t = .nil := by
  rw [← hs.unfold_nil]
  exact hs.unfold_inj ht rfl

/-- The structures that are kept are those of the types that are kept. -/
theorem mem_kept_map_unfold (hs : s.Sound) {flat : List TypeId} (hflat : ∀ t ∈ flat, s.Known t)
    {x : Structure} : x ∈ Structure.kept (flat.map s.unfold) ↔
      ∃ t ∈ TypeStore.kept flat, s.unfold t = x := by
  rw [Structure.mem_kept, List.mem_map]
  constructor
  · rintro ⟨⟨t, ht, rfl⟩, hnil⟩
    refine ⟨t, TypeStore.mem_kept.2 ⟨ht, ?_⟩, rfl⟩
    exact fun heq => hnil ((hs.unfold_eq_nil_iff (hflat t ht)).2 heq)
  · rintro ⟨t, ht, rfl⟩
    obtain ⟨hmem, hnil⟩ := TypeStore.mem_kept.1 ht
    refine ⟨⟨t, hmem, rfl⟩, fun heq => hnil ?_⟩
    exact (hs.unfold_eq_nil_iff (hflat t hmem)).1 heq

/-- The normal form of types unfolds to the normal form of their structures. -/
theorem unfold_normalUnion (hs : s.Sound) {flat : List TypeId} (hflat : ∀ t ∈ flat, s.Known t)
    (h : s.Widens { s with types := (s.types.normalUnion flat).2 }) :
    Same (unfold { s with types := (s.types.normalUnion flat).2 } (s.types.normalUnion flat).1)
      (normalUnite (flat.map s.unfold)) := by
  by_cases hany : TypeId.any ∈ flat
  · have hleaf : .leaf .any ∈ flat.map s.unfold := List.mem_map.2 ⟨_, hany, hs.unfold_any⟩
    rw [TypeStore.normalUnion_of_any hany, normalUnite_of_any hleaf]
    exact hs.unfold_any ▸ .refl _
  have hleaf : .leaf .any ∉ flat.map s.unfold := by
    intro hmem
    obtain ⟨t, ht, heq⟩ := List.mem_map.1 hmem
    exact hany ((hs.unfold_eq_any_iff (hflat t ht)).1 heq ▸ ht)
  have hmem {x : Structure} := @mem_kept_map_unfold s hs flat hflat x
  have hknown : ∀ t ∈ TypeStore.kept flat, s.Known t :=
    fun t ht => hflat t (TypeStore.mem_kept.1 ht).1
  have hsorted := TypeStore.kept_pairwise flat
  rw [TypeStore.normalUnion_of_not_any hany] at h ⊢
  generalize TypeStore.kept flat = set at h hmem hknown hsorted ⊢
  match set with
  | [] =>
    have hnone : Structure.kept (flat.map s.unfold) = [] := by
      rw [List.eq_nil_iff_forall_not_mem]
      intro x hx
      obtain ⟨t, ht, -⟩ := hmem.1 hx
      exact List.not_mem_nil ht
    rw [normalUnite_of_nil hnone hleaf]
    exact hs.unfold_nil ▸ .refl _
  | [t] =>
    have ht : s.unfold t ∈ Structure.kept (flat.map s.unfold) := hmem.2 ⟨t, List.mem_cons_self, rfl⟩
    refine (normalUnite_of_sole hleaf ht fun y hy => ?_).symm
    obtain ⟨u, hu, rfl⟩ := hmem.1 hy
    rw [List.mem_singleton.1 hu]
    exact .refl _
  | t :: u :: rest =>
    have ht : t ∈ t :: u :: rest := List.mem_cons_self
    have hu : u ∈ t :: u :: rest := List.mem_cons_of_mem _ List.mem_cons_self
    have hne : ¬Same (s.unfold t) (s.unfold u) := by
      rw [hs.same_unfold_iff (hknown t ht) (hknown u hu)]
      rintro rfl
      exact Nat.lt_irrefl _ ((List.pairwise_cons.1 hsorted).1 _ List.mem_cons_self)
    rw [normalUnite_of_several hleaf (hmem.2 ⟨t, ht, rfl⟩) (hmem.2 ⟨u, hu, rfl⟩) hne]
    have hlayer : ∀ (S : Store) f l, S.layer f (.union l) = .union ((S.types.list l).map f) :=
      fun _ _ _ => rfl
    have hunfold := hs.unfold_internList_intern hknown hlayer h
    refine hunfold ▸ same_union_iff.2 ⟨_, rfl, .of_mem_iff fun x => ?_⟩
    rw [hmem, List.mem_map]

/-- The union of types unfolds to the union of their structures. -/
theorem unfold_union (hs : s.Sound) {types : List TypeId} (htypes : ∀ t ∈ types, s.Known t) :
    Same ((Operation.run s (.union types)).unfold (s.types.union types).1)
      (unite (types.map s.unfold)) := by
  have h : s.Widens (Operation.run s (.union types)) := hs.run htypes
  have hflat : ∀ t ∈ types.flatMap s.types.members, s.Known t := by
    intro t ht
    obtain ⟨u, hu, ht⟩ := List.mem_flatMap.1 ht
    exact hs.canonical.known_of_mem_members (htypes u hu) ht
  have hgiven : (types.map s.unfold).flatMap Structure.members =
      (types.flatMap s.types.members).map s.unfold := by
    rw [List.flatMap_map, List.map_flatMap]
    exact List.flatMap_congr fun t ht => hs.members_unfold (htypes t ht)
  rw [unite, hgiven]
  exact hs.unfold_normalUnion hflat h

end Sound

end Store

/-! ## Records -/

namespace TypeStore

/-- A field that is inserted is found, unless there is one of its label already. -/
theorem lookup_insertField (field : Atom × TypeId) {fields : List (Atom × TypeId)}
    (h : fields.Pairwise (·.1.index < ·.1.index)) (label : Atom) :
    (insertField field fields).lookup label =
      (fields.lookup label).or ([field].lookup label) := by
  obtain ⟨new, type⟩ := field
  induction fields with
  | nil => rfl
  | cons other rest ih =>
    obtain ⟨old, type'⟩ := other
    rw [List.pairwise_cons] at h
    unfold insertField
    split
    · next hlt =>
      by_cases hlabel : label = new
      · -- the new label is below all others, so it is not among them
        subst hlabel
        have hother : ((old, type') :: rest).lookup label = none := by
          rw [List.lookup_eq_none_iff]
          intro entry hentry
          have hbelow : label.index < entry.1.index := by
            rcases List.mem_cons.1 hentry with rfl | hentry
            · exact hlt
            · exact Nat.lt_trans hlt (h.1 entry hentry)
          rw [bne_iff_ne]
          intro heq
          rw [heq] at hbelow
          exact Nat.lt_irrefl _ hbelow
        simp [hother]
      · have hne : (label == new) = false := beq_eq_false_iff_ne.2 hlabel
        simp [List.lookup_cons, hne]
    · split
      · next heq =>
        obtain rfl : new = old := by
          cases new
          cases old
          simpa using heq
        by_cases hlabel : label = new
        · simp [hlabel]
        · have hne : (label == new) = false := beq_eq_false_iff_ne.2 hlabel
          simp [List.lookup_cons, hne]
      · rw [List.lookup_cons, List.lookup_cons, ih h.2]
        cases label == old <;> rfl

/-- Sorting fields changes no field that is found under a label. -/
theorem lookup_sortedFields (fields : List (Atom × TypeId)) (label : Atom) :
    (sortedFields fields).lookup label = fields.lookup label := by
  -- the fold is generalized to what is sorted already
  have hfold : ∀ sorted : List (Atom × TypeId), sorted.Pairwise (·.1.index < ·.1.index) →
      (fields.foldl (fun sorted field => insertField field sorted) sorted).lookup label =
        (sorted.lookup label).or (fields.lookup label) := by
    induction fields with
    | nil =>
      intro sorted _
      rw [List.lookup_nil, Option.or_none]
      rfl
    | cons field rest ih =>
      intro sorted hsorted
      rw [List.foldl_cons, ih _ (Store.Canonical.pairwise_insertField field hsorted),
        lookup_insertField field hsorted, Option.or_assoc]
      congr 1
      obtain ⟨l, t⟩ := field
      rw [List.lookup_cons, List.lookup_cons]
      cases label == l <;> rfl
  exact hfold [] .nil

end TypeStore

namespace Store.Sound

variable {s : Store}

/-- A record unfolds to the record of the structures of its fields. -/
theorem unfold_record (hs : s.Sound) {fields : List (Atom × TypeId)}
    (hfields : ∀ field ∈ fields, s.Known field.2) :
    Same ((Operation.run s (.record fields)).unfold (s.types.record fields).1)
      (.record (fields.map fun field => (field.1, s.unfold field.2))) := by
  have h : s.Widens (Operation.run s (.record fields)) := hs.run hfields
  let sorted := TypeStore.sortedFields fields
  let labelled := s.types.labelAll sorted
  let S := Operation.run s (.record fields)
  have hmem : ∀ field ∈ sorted, s.Known field.2 :=
    fun field hfield => hfields field ((Canonical.sortedFields_spec fields).1 field hfield)
  obtain ⟨hlabels, hkeys⟩ := hs.canonical.labelAll hmem
  have hextends : Extends { s with types := labelled.2 } S :=
    (extends_internList { s with types := labelled.2 } labelled.1).trans
      (extends_intern { s with types := (labelled.2.internList labelled.1).2 } _)
  have hlist : S.types.list (labelled.2.internList labelled.1).1 = labelled.1 := by
    show TypeStore.list (TypeStore.intern _ _).2 _ = _
    rw [TypeStore.list, TypeStore.lists_intern]
    exact labelled.2.list_internList labelled.1
  have hkey : S.types.key? (s.types.record fields).1 =
      some (.record (labelled.2.internList labelled.1).1) := TypeStore.key?_intern _ _
  have hkeys' : labelled.1.map S.types.key? =
      sorted.map fun field => some (.labeled field.1 field.2) := by
    rw [← hkeys]
    refine List.map_congr_left fun t ht => hextends.key?_eq ?_
    have hsome : labelled.2.key? t ∈ labelled.1.map labelled.2.key? := List.mem_map_of_mem ht
    rw [hkeys] at hsome
    obtain ⟨field, -, hfield⟩ := List.mem_map.1 hsome
    exact Option.isSome_iff_exists.2 ⟨_, hfield.symm⟩
  rw [h.sound.unfold_of_key? hkey]
  refine same_record_iff.2 ⟨_, rfl, fun label => ?_⟩
  rw [hlist, filterMap_field? hkeys', lookup_map, lookup_map, TypeStore.lookup_sortedFields]
  cases hfield : fields.lookup label with
  | none => exact .none
  | some t =>
    refine .some ?_
    rw [h.unfold_eq hs (hfields _ (mem_of_lookup_eq_some hfield))]
    exact .refl _

/-! ## Applied classes -/

/-- Applying a class to types unfolds to the class with the structures of the types. -/
theorem valueStructure_newConstructedClass (hs : s.Sound) (node : NodeRef) {generic : ValueId}
    {arguments : ListId} (hgeneric : s.ValueKnown generic) (harguments : s.ListKnown arguments) :
    let S := Operation.run s (.newConstructedClass node generic arguments)
    S.valueStructure S.unfold (s.values.newConstructedClass node generic arguments).1 =
      .applied (s.valueStructure s.unfold generic) ((s.types.list arguments).map s.unfold) := by
  intro S
  have h : s.Widens S := hs.run ⟨hgeneric, harguments⟩
  have happlication := (h.sound.canonical.application_iff _ _).1
    (applications_newConstructedClass s.values node generic arguments)
  rw [h.sound.valueStructure_of_application? happlication, h.valueStructure_eq hs hgeneric,
    h.keeps.list _ harguments, h.map_unfold_eq hs (hs.canonical.lists arguments)]

/-! ## What the steps come to -/

/-- An operation widens the store, and what holds of its result there holds. -/
theorem operation_widens {α : Type} (hs : s.Sound) {op : Operation} (hop : op.Admissible s)
    {m : StateM Store α} (hm : (m s).2 = op.run s) {P : α → Store → Prop}
    (hP : P (m s).1 (op.run s)) : Runs Widens s m P := by
  unfold Runs
  rw [hm]
  exact ⟨hs.run hop, hP⟩

theorem internList_widens (hs : s.Sound) {types : List TypeId} (htypes : ∀ t ∈ types, s.Known t) :
    Runs Widens s (onTypes (·.internList types)) fun l s' =>
      s'.ListKnown l ∧ s'.types.list l = types := by
  have hop : (Operation.internList types).Admissible s := htypes
  exact hs.operation_widens hop rfl
    ⟨Canonical.listKnown_internList s types, s.types.list_internList types⟩

theorem tuple_widens (hs : s.Sound) {types : List TypeId} (htypes : ∀ t ∈ types, s.Known t) :
    Runs Widens s (onTypes (·.tuple types)) fun t s' =>
      s'.Known t ∧ s'.unfold t = .tuple (types.map s.unfold) := by
  have hop : (Operation.tuple types).Admissible s := htypes
  exact hs.operation_widens hop rfl
    ⟨known_intern { s with types := (s.types.internList types).2 } _, hs.unfold_tuple htypes⟩

theorem union_widens (hs : s.Sound) {types : List TypeId} (htypes : ∀ t ∈ types, s.Known t) :
    Runs Widens s (onTypes (·.union types)) fun t s' =>
      s'.Known t ∧ Same (s'.unfold t) (unite (types.map s.unfold)) := by
  have hop : (Operation.union types).Admissible s := htypes
  refine hs.operation_widens hop rfl ⟨known_normalUnion fun t ht => ?_, hs.unfold_union htypes⟩
  obtain ⟨u, hu, ht⟩ := List.mem_flatMap.1 ht
  exact hs.canonical.known_of_mem_members (htypes u hu) ht

/-- Taking a type without parts out of a union takes its structure out. -/
theorem removeMember_widens (hs : s.Sound) {t m : TypeId} {key : TypeKey} (ht : s.Known t)
    (hm : s.Known m) (hkey : s.unfold m = .leaf key) :
    Runs Widens s (onTypes (·.removeMember t m)) fun u s' => s'.Known u ∧
      Same (s'.unfold u) (normalUnite ((s.unfold t).members.filter (!·.isLeaf key))) := by
  have hop : (Operation.removeMember t m).Admissible s := ⟨ht, hm⟩
  have hrest : ∀ u ∈ (s.types.members t).filter (· ≠ m), s.Known u :=
    fun u hu => hs.canonical.known_of_mem_members ht (List.mem_of_mem_filter hu)
  have hfilter : (s.unfold t).members.filter (!·.isLeaf key) =
      ((s.types.members t).filter (· ≠ m)).map s.unfold := by
    rw [hs.members_unfold ht, List.filter_map]
    refine congrArg _ (List.filter_congr fun u hu => ?_)
    have hu := hs.canonical.known_of_mem_members ht hu
    have hleaf : (s.unfold u).isLeaf key = decide (u = m) := by
      rw [Bool.eq_iff_iff, isLeaf_iff, decide_eq_true_iff, ← hkey]
      exact hs.unfold_inj hu hm
    simp [hleaf]
  rw [hfilter]
  exact hs.operation_widens hop rfl ⟨known_normalUnion hrest,
    hs.unfold_normalUnion hrest (hs.run hop)⟩

theorem labeled_widens (hs : s.Sound) (label : Atom) {type : TypeId} (htype : s.Known type) :
    Runs Widens s (onTypes (·.labeled label type)) fun t s' =>
      s'.Known t ∧ s'.unfold t = .labeled label (s.unfold type) := by
  have hop : (Operation.labeled label type).Admissible s := htype
  exact hs.operation_widens hop rfl ⟨s.known_intern _, hs.unfold_labeled label htype⟩

theorem record_widens (hs : s.Sound) {fields : List (Atom × TypeId)}
    (hfields : ∀ field ∈ fields, s.Known field.2) :
    Runs Widens s (onTypes (·.record fields)) fun t s' => s'.Known t ∧
      Same (s'.unfold t) (.record (fields.map fun field => (field.1, s.unfold field.2))) := by
  have hop : (Operation.record fields).Admissible s := hfields
  exact hs.operation_widens hop rfl
    ⟨known_intern { s with types := _ } _, hs.unfold_record hfields⟩

theorem function_widens (hs : s.Sound) {shape : FunctionShape}
    (hshape : s.KeyKnown (.function shape)) :
    Runs Widens s (onTypes (·.function shape)) fun t s' =>
      s'.Known t ∧ s'.unfold t = s.layer s.unfold (.function shape) := by
  have hop : (Operation.function shape).Admissible s := hshape
  exact hs.operation_widens hop rfl ⟨s.known_intern _, hs.unfold_function hshape⟩

theorem instanceOf_widens (hs : s.Sound) {v : ValueId} (hv : s.ValueKnown v) :
    Runs Widens s (onTypes (·.instanceOf v)) fun t s' => s'.Known t ∧
      s'.unfold t = .instanceOf (s.valueStructure s.unfold v) := by
  have hop : (Operation.instanceOf v).Admissible s := hv
  exact hs.operation_widens hop rfl ⟨s.known_intern _, hs.unfold_instanceOf hv⟩

theorem reference_widens (hs : s.Sound) {v : ValueId} (hv : s.ValueKnown v) :
    Runs Widens s (onTypes (·.reference v)) fun t s' => s'.Known t ∧
      s'.unfold t = .reference (s.valueStructure s.unfold v) := by
  have hop : (Operation.reference v).Admissible s := hv
  exact hs.operation_widens hop rfl ⟨s.known_intern _, hs.unfold_reference hv⟩

theorem constructedInstanceOf_widens (hs : s.Sound) {v : ValueId} (hv : s.ValueKnown v) :
    Runs Widens s (onTypes (·.constructedInstanceOf v)) fun t s' => s'.Known t ∧
      s'.unfold t = .constructedInstanceOf (s.valueStructure s.unfold v) := by
  have hop : (Operation.constructedInstanceOf v).Admissible s := hv
  exact hs.operation_widens hop rfl ⟨s.known_intern _, hs.unfold_constructedInstanceOf hv⟩

theorem newConstructedClass_widens (hs : s.Sound) (node : NodeRef) {generic : ValueId}
    {arguments : ListId} (hgeneric : s.ValueKnown generic) (harguments : s.ListKnown arguments) :
    Runs Widens s (onValues (·.newConstructedClass node generic arguments)) fun v s' =>
      s'.ValueKnown v ∧ s'.valueStructure s'.unfold v =
        .applied (s.valueStructure s.unfold generic) ((s.types.list arguments).map s.unfold) := by
  have hop : (Operation.newConstructedClass node generic arguments).Admissible s :=
    ⟨hgeneric, harguments⟩
  refine hs.operation_widens hop rfl
    ⟨?_, hs.valueStructure_newConstructedClass node hgeneric harguments⟩
  exact valueKnown_of_application? (((hs.run hop).sound.canonical.application_iff _ _).1
    (applications_newConstructedClass s.values node generic arguments))

end Store.Sound

end DocTypes
