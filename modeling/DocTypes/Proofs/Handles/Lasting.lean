import DocTypes.Proofs.Handles.Steps
import DocTypes.Proofs.Types.Uniqueness

/-!
# Steps that may be taken again

A step that only numbers types and applies classes finds everything there when it is taken
once more: it comes to the same result, and nothing is made. That stays so while the store
grows around it, as long as classes keep their parameters and bases (`Store.Ripens`). So what
such a step came to may be read off any later store.

## Main statements

* `Store.Lasts.bind`, `Store.Lasts.mapM`: steps that last are put together to steps that last.
* `Store.internList_lasts` and the lemmas after it: numbering types and applying classes lasts.
-/

namespace DocTypes

/-- What a class hands down: the parameters that it takes, and its bases. -/
def ClassData.heritage (cls : ClassData) : List TypeId × List ValueId :=
  (cls.typeParameters, cls.bases)

/-- An item that has a number gets the same number again. -/
theorem Registry.intern_of_get? {α : Type} [Ord α] [Std.TransOrd α] [Std.LawfulEqOrd α]
    {r : Registry α} {i : Nat} {x : α} (h : r.get? i = some x) : r.intern x = (i, r) := by
  have hfind : r.find? x = some i := Registry.find?_eq_some_iff.2 h
  unfold intern
  split
  · next j hj => rw [Option.some.inj (hj.symm.trans hfind)]
  · next hnone => cases hnone.symm.trans hfind

namespace TypeStore

/-- A signature that has a number gets the same number again. -/
theorem internShape_again {s : TypeStore} {id : ShapeId} {shape : FunctionShape}
    (h : s.shape? id = some shape) : s.internShape shape = (id, s) := by
  have hagain : s.shapes.intern shape = (id.index, s.shapes) := Registry.intern_of_get? h
  simp only [internShape, hagain]

/-- A key that is stored is stored in the same way again. -/
theorem file_again {s : TypeStore} {stored : StoredKey} {key : TypeKey}
    (h : s.read? stored = some key) : s.file key = (stored, s) := by
  cases stored with
  | function id =>
    obtain ⟨shape, hshape, rfl⟩ := Option.map_eq_some_iff.1 h
    show (StoredKey.function (s.internShape shape).1, (s.internShape shape).2) = _
    rw [internShape_again hshape]
  | other other plain =>
    cases h
    unfold file
    split
    · next shape hsome => cases plain.symm.trans hsome
    · rfl

/-- A stored key that has a number gets the same number again. -/
theorem enter_again {s : TypeStore} {t : TypeId} {stored : StoredKey}
    (ht : TypeId.firstInterned ≤ t.index) (hstored : s.storedKey? t = some stored)
    (h : (s.read? stored).isSome) : s.enter stored h = (t, s) := by
  have hagain : s.keys.intern stored = (t.index - TypeId.firstInterned, s.keys) :=
    Registry.intern_of_get? hstored
  simp only [enter, hagain, Nat.add_sub_cancel' ht]
end TypeStore

namespace Store

variable {s s' s'' S : Store} {α β : Type}

/-- A closed store that has lost nothing, and whose classes have their parameters and bases
as before. -/
structure Ripens (s s' : Store) : Prop extends s.Retains s' where
  heritage : ∀ v, (s'.values.class? v).map ClassData.heritage =
    (s.values.class? v).map ClassData.heritage

/-- Changes that make types and constructed classes, and leave those alone that were there. -/
structure Builds (s s' : Store) : Prop extends s.Leads s' where
  still : s.Still s'

namespace Ripens

theorem refl (hs : s.Closed) : s.Ripens s := ⟨.refl hs, fun _ => rfl⟩

theorem trans (h : s.Ripens s') (h' : s'.Ripens s'') : s.Ripens s'' :=
  ⟨h.toRetains.trans h'.toRetains, fun v => (h'.heritage v).trans (h.heritage v)⟩

instance : IsTrans Store Ripens := ⟨fun _ _ _ => trans⟩

/-- Classes that stay as they are keep their parameters and bases. -/
theorem ofSameClasses (h : s.Retains s') (hclasses : s.SameClasses s') : s.Ripens s' :=
  ⟨h, fun v => by rw [hclasses v]⟩

/-- A class has the same parameters and bases later on. -/
theorem class?_eq (h : s.Ripens S) {v : ValueId} {data : ClassData}
    (hv : s.values.class? v = some data) :
    ∃ later, S.values.class? v = some later ∧ later.heritage = data.heritage := by
  have heritage := h.heritage v
  rw [hv, Option.map_some, Option.map_eq_some_iff] at heritage
  exact heritage

theorem class?_eq_none (h : s.Ripens S) {v : ValueId} (hv : s.values.class? v = none) :
    S.values.class? v = none := by
  have heritage := h.heritage v
  rwa [hv, Option.map_none, Option.map_eq_none_iff] at heritage

/-- A constructed class applies the same class to the same types later on. -/
theorem constructed?_eq (h : s.Ripens S) {v : ValueId} {data : ConstructedData}
    (hv : s.values.constructed? v = some data) :
    ∃ later, S.values.constructed? v = some later ∧
      Application.mk later.generic later.arguments = ⟨data.generic, data.arguments⟩ := by
  have happ :=
    h.keeps.application v (valueKnown_of_constructed? (Option.isSome_iff_exists.2 ⟨data, hv⟩))
  rwa [ValueStore.application?, ValueStore.application?, hv, Option.map_some,
    Option.map_eq_some_iff] at happ

theorem constructed?_eq_none (h : s.Ripens S) {v : ValueId} (hknown : s.ValueKnown v)
    (hv : s.values.constructed? v = none) : S.values.constructed? v = none := by
  have happ := h.keeps.application v hknown
  rwa [ValueStore.application?, ValueStore.application?, hv, Option.map_none,
    Option.map_eq_none_iff] at happ

end Ripens

namespace Builds

theorem refl (hs : s.Closed) : s.Builds s := ⟨.refl hs, .refl s⟩

theorem trans (h : s.Builds s') (h' : s'.Builds s'') : s.Builds s'' :=
  ⟨h.toLeads.trans h'.toLeads, h.still.trans h'.still⟩

instance : IsTrans Store Builds := ⟨fun _ _ _ => trans⟩

theorem ripens (h : s.Builds s') : s.Ripens s' := .ofSameClasses h.retains h.still.classes

instance : Anchored Builds := ⟨fun h => .refl h.closed⟩

end Builds

theorem Builds.runs_leads {m : StateM Store α} {P : α → Store → Prop}
    (h : Runs Builds s m P) : Runs Leads s m P := ⟨h.1.toLeads, h.2⟩

/-! ## Lasting steps -/

/-- The step builds from a state, and is without effect when it is taken again later. -/
structure Lasts (s : Store) (m : StateM Store α) (P : α → Store → Prop) : Prop where
  runs : Runs Builds s m P
  again : ∀ S, (m s).2.Ripens S → m S = ((m s).1, S)

namespace Lasts

variable {P P' : α → Store → Prop} {Q : β → Store → Prop}

theorem pure (hs : s.Closed) {x : α} (hx : P x s) : Lasts s (Pure.pure x) P :=
  ⟨.pure (.refl hs) hx, fun _ _ => rfl⟩

/-- What is read has to be the same later on. -/
theorem get_bind {f : Store → StateM Store β} (h : Lasts s (f s) Q)
    (hf : ∀ S, s.Ripens S → f S S = f s S) : Lasts s (MonadState.get >>= f) Q :=
  ⟨h.runs, fun S hS => (hf S (h.runs.1.ripens.trans hS)).trans (h.again S hS)⟩

theorem bind {m : StateM Store α} {f : α → StateM Store β} (hm : Lasts s m P)
    (hf : ∀ x t, s.Builds t → P x t → Lasts t (f x) Q) : Lasts s (m >>= f) Q := by
  have hrest := hf (m s).1 (m s).2 hm.runs.1 hm.runs.2
  refine ⟨.bind hm.runs fun x t ht hx => (hf x t ht hx).runs, fun S hS => ?_⟩
  have hfirst : m S = ((m s).1, S) := hm.again S (hrest.runs.1.ripens.trans hS)
  rw [run_bind, run_bind, hfirst]
  exact hrest.again S hS

theorem weaken {m : StateM Store α} (hm : Lasts s m P) (h : ∀ x t, s.Builds t → P x t → P' x t) :
    Lasts s m P' := ⟨hm.runs.weaken h, hm.again⟩

theorem ite {c : Prop} [Decidable c] {m m' : StateM Store α} (h : c → Lasts s m P)
    (h' : ¬c → Lasts s m' P) : Lasts s (if c then m else m') P := by
  split
  · exact h ‹_›
  · exact h' ‹_›

theorem mapM {f : α → StateM Store β} {xs : List α} (hs : s.Closed)
    (keep : ∀ y t u, t.Builds u → Q y t → Q y u) (h : ∀ x ∈ xs, ∀ t, s.Builds t → Lasts t (f x) Q) :
    Lasts s (xs.mapM f) fun ys t => ∀ y ∈ ys, Q y t := by
  induction xs generalizing s with
  | nil =>
    rw [List.mapM_nil]
    exact pure hs fun y hy => (List.not_mem_nil hy).elim
  | cons x xs ih =>
    rw [List.mapM_cons]
    refine bind (h x List.mem_cons_self s (.refl hs)) fun y t ht hy => ?_
    refine bind (ih ht.closed fun z hz u hu => h z (List.mem_cons_of_mem _ hz) u (ht.trans hu)) ?_
    intro ys u hu hys
    refine pure hu.closed fun z hz => ?_
    rcases List.mem_cons.1 hz with rfl | hz
    · exact keep _ t u hu hy
    · exact hys z hz

end Lasts

/-! ## Numbering types -/

/-- A list that has a number gets the same number again. -/
theorem internList_again {l : ListId} {types : List TypeId} (hl : S.ListKnown l)
    (htypes : S.types.list l = types) : S.types.internList types = (l, S.types) := by
  obtain ⟨us, hus⟩ := Option.isSome_iff_exists.1 hl
  have heq : us = types := by
    rw [← htypes, TypeStore.list, hus, Option.getD_some]
  simp only [TypeStore.internList, Registry.intern_of_get? (heq ▸ hus)]

/-- A key that has a number gets the same number again. -/
theorem intern_again (hS : S.Canonical) {t : TypeId} {key : TypeKey}
    (ht : S.types.key? t = some key) : S.types.intern key = (t, S.types) := by
  have hback := S.types.key?_intern key
  unfold TypeStore.intern at hback ⊢
  split
  · next u hu =>
    simp only [hu] at hback
    rw [hS.eq_of_key?_eq ht hback]
  · next hnone =>
    have hi : ¬t.isIntrinsic = true := by
      intro hi
      rw [TypeStore.key?, if_pos hi] at ht
      have hsome := isSome_intrinsic? ht
      rw [hnone] at hsome
      cases hsome
    have hge : TypeId.firstInterned ≤ t.index := Nat.le_of_not_lt fun hlt => hi (decide_eq_true hlt)
    rw [TypeStore.key?, if_neg hi] at ht
    obtain ⟨stored, hstored, hread⟩ := Option.bind_eq_some_iff.1 ht
    simp only [TypeStore.file_again hread]
    exact TypeStore.enter_again hge hstored _

/-- A key that was numbered gets the same number again. -/
theorem intern_again_of_extends (hS : S.Canonical) {types : TypeStore} {key : TypeKey}
    (h : Extends { s with types := (types.intern key).2 } S) :
    S.types.intern key = ((types.intern key).1, S.types) :=
  intern_again hS (h.key _ _ (types.key?_intern key))

/-- A list that was numbered gets the same number again. -/
theorem internList_again_of_extends {types : TypeStore} {ts : List TypeId}
    (h : Extends { s with types := (types.internList ts).2 } S) :
    S.types.internList ts = ((types.internList ts).1, S.types) := by
  have hl : ListKnown { s with types := (types.internList ts).2 } (types.internList ts).1 :=
    Canonical.listKnown_internList { s with types } ts
  refine internList_again (h.listKnown _ hl) ((h.list _ hl).trans ?_)
  exact types.list_internList ts

/-- A key with a list gets the same number again, once both were numbered. -/
theorem internList_intern_again (hS : S.Canonical) (key : ListId → TypeKey) {types : TypeStore}
    {ts : List TypeId}
    (h : Extends
      { s with types := ((types.internList ts).2.intern (key (types.internList ts).1)).2 } S) :
    (S.types.internList ts).2.intern (key (S.types.internList ts).1) =
      (((types.internList ts).2.intern (key (types.internList ts).1)).1, S.types) := by
  have hlist := extends_intern { s with types := (types.internList ts).2 }
    (key (types.internList ts).1)
  rw [internList_again_of_extends (hlist.trans h)]
  exact intern_again_of_extends hS h

theorem normalUnion_again (hS : S.Canonical) {types : TypeStore} {flat : List TypeId}
    (h : Extends { s with types := (types.normalUnion flat).2 } S) :
    S.types.normalUnion flat = ((types.normalUnion flat).1, S.types) := by
  unfold TypeStore.normalUnion at h ⊢
  dsimp only at h ⊢
  split
  · rfl
  · next hany =>
    rw [if_neg hany] at h
    generalize (TypeStore.sortedSet flat).filter (· ≠ TypeId.nil) = set at h ⊢
    match set, h with
    | [], _ => rfl
    | [t], _ => rfl
    | t :: u :: rest, h => exact internList_intern_again hS .union h

/-- Known types have the same members later on. -/
theorem Extends.members_eq (h : s.Extends S) (hs : s.Canonical) {t : TypeId} (ht : s.Known t) :
    S.types.members t = s.types.members t := by
  unfold TypeStore.members
  rw [h.key?_eq ht]
  split
  · next l hkey => exact h.list l (hs.keyKnown t _ hkey)
  · rfl

/-- The union of known types is the same in every later store. -/
theorem Canonical.union_again (hs : s.Canonical) {types : List TypeId}
    (htypes : ∀ t ∈ types, s.Known t) (hS : S.Canonical)
    (h : Extends { s with types := (s.types.union types).2 } S) :
    S.types.union types = ((s.types.union types).1, S.types) := by
  have hflat : ∀ t ∈ types.flatMap s.types.members, s.Known t := by
    intro t ht
    obtain ⟨u, hu, ht⟩ := List.mem_flatMap.1 ht
    exact hs.known_of_mem_members (htypes u hu) ht
  have hmembers : types.flatMap S.types.members = types.flatMap s.types.members :=
    List.flatMap_congr fun t ht =>
      ((hs.normalUnion hflat).keeps.trans h).members_eq hs (htypes t ht)
  rw [TypeStore.union, hmembers]
  exact normalUnion_again hS h

theorem extends_labelAll (s : Store) (fields : List (Atom × TypeId)) :
    Extends s { s with types := (s.types.labelAll fields).2 } := by
  induction fields generalizing s with
  | nil => exact .refl s
  | cons field rest ih => exact (s.extends_intern (.labeled field.1 field.2)).trans (ih _)

theorem labelAll_again (hS : S.Canonical) {types : TypeStore} {fields : List (Atom × TypeId)}
    (h : Extends { s with types := (types.labelAll fields).2 } S) :
    S.types.labelAll fields = ((types.labelAll fields).1, S.types) := by
  induction fields generalizing types with
  | nil => rfl
  | cons field rest ih =>
    obtain ⟨label, type⟩ := field
    have hrest := @ih (types.labeled label type).2 h
    have hfirst : S.types.labeled label type = ((types.labeled label type).1, S.types) :=
      intern_again_of_extends hS ((extends_labelAll _ rest).trans h)
    unfold TypeStore.labelAll
    rw [hfirst]
    dsimp only
    rw [hrest]

/-! ## Steps that number types -/

theorem onTypes_lasts {f : TypeStore → α × TypeStore} {P : α → Store → Prop}
    (hm : Runs Leads s (onTypes f) P)
    (hf : ∀ S : Store, S.Canonical → Extends { s with types := (f s.types).2 } S →
      f S.types = ((f s.types).1, S.types)) : Lasts s (onTypes f) P where
  runs := ⟨⟨hm.1, Applies.types s _⟩, hm.2⟩
  again S hS := by
    have hsame := hf S hS.closed.canonical hS.keeps
    show ((f S.types).1, { S with types := (f S.types).2 }) = ((f s.types).1, S)
    rw [hsame]

theorem constructedInstanceOf_lasts (hs : s.Closed) {cls : ValueId}
    (hcls : (s.values.constructed? cls).isSome) :
    Lasts s (onTypes (·.constructedInstanceOf cls)) fun t s' => s'.Known t :=
  onTypes_lasts (constructedInstanceOf_runs hs hcls) fun _ hS h => intern_again_of_extends hS h

theorem function_lasts (hs : s.Closed) {shape : FunctionShape}
    (hshape : s.KeyKnown (.function shape)) :
    Lasts s (onTypes (·.function shape)) fun t s' => s'.Known t :=
  onTypes_lasts (function_runs hs hshape) fun _ hS h => intern_again_of_extends hS h

theorem labeled_lasts (hs : s.Closed) (label : Atom) {type : TypeId} (htype : s.Known type) :
    Lasts s (onTypes (·.labeled label type)) fun t s' => s'.Known t :=
  onTypes_lasts (labeled_runs hs label htype) fun _ hS h => intern_again_of_extends hS h

theorem tuple_lasts (hs : s.Closed) {types : List TypeId} (htypes : ∀ t ∈ types, s.Known t) :
    Lasts s (onTypes (·.tuple types)) fun t s' => s'.Known t :=
  onTypes_lasts (tuple_runs hs htypes) fun _ hS => internList_intern_again hS .tuple

theorem internList_lasts (hs : s.Closed) {types : List TypeId} (htypes : ∀ t ∈ types, s.Known t) :
    Lasts s (onTypes (·.internList types)) fun l s' => s'.ListKnown l :=
  onTypes_lasts (internList_runs hs htypes) fun _ _ => internList_again_of_extends

theorem union_lasts (hs : s.Closed) {types : List TypeId} (htypes : ∀ t ∈ types, s.Known t) :
    Lasts s (onTypes (·.union types)) fun t s' => s'.Known t :=
  onTypes_lasts (union_runs hs htypes) fun _ hS => hs.canonical.union_again htypes hS

theorem record_lasts (hs : s.Closed) {fields : List (Atom × TypeId)}
    (hfields : ∀ field ∈ fields, s.Known field.2) :
    Lasts s (onTypes (·.record fields)) fun t s' => s'.Known t := by
  refine onTypes_lasts (record_runs hs hfields) fun S hS hext => ?_
  let labelled := s.types.labelAll (TypeStore.sortedFields fields)
  have hlist : Extends { s with types := labelled.2 } S :=
    (extends_internList { s with types := labelled.2 } labelled.1).trans
      ((extends_intern { s with types := (labelled.2.internList labelled.1).2 } _).trans hext)
  have hlabels : S.types.labelAll (TypeStore.sortedFields fields) = (labelled.1, S.types) :=
    labelAll_again hS hlist
  unfold TypeStore.record
  rw [hlabels]
  exact internList_intern_again hS .record hext

/-! ## Steps that apply classes -/

theorem applications_newConstructedClass (values : ValueStore) (node : NodeRef) (generic : ValueId)
    (arguments : ListId) :
    (values.newConstructedClass node generic
      arguments).2.applications[Application.mk generic arguments]? =
      some (values.newConstructedClass node generic arguments).1 := by
  unfold ValueStore.newConstructedClass
  split
  · next v hv => exact hv
  · simp

/-- Applying a class to types gives a constructed class with that application. -/
theorem newConstructedClass_builds (hs : s.Closed) (node : NodeRef) {generic : ValueId}
    {arguments : ListId} (hgeneric : (s.values.class? generic).isSome)
    (harguments : s.ListKnown arguments) :
    Runs Builds s (onValues (·.newConstructedClass node generic arguments)) fun v s' =>
      s'.values.application? v = some ⟨generic, arguments⟩ := by
  have hruns := newConstructedClass_runs hs node hgeneric harguments
  refine ⟨⟨hruns.1, .newConstructedClass s node generic arguments⟩, ?_⟩
  exact (hruns.1.closed.canonical.application_iff _ _).1
    (applications_newConstructedClass s.values node generic arguments)

/-- A constructed class that is there is found again. -/
theorem newConstructedClass_again (hS : S.Canonical) (node : NodeRef) {v : ValueId}
    {x : Application}
    (h : S.values.application? v = some x) :
    onValues (·.newConstructedClass node x.generic x.arguments) S = (v, S) := by
  have hfound := (hS.application_iff v x).2 h
  have hsame : S.values.newConstructedClass node x.generic x.arguments = (v, S.values) := by
    unfold ValueStore.newConstructedClass
    rw [hfound]
  show ((S.values.newConstructedClass node x.generic x.arguments).1,
    { S with values := (S.values.newConstructedClass node x.generic x.arguments).2 }) = _
  rw [hsame]

end Store

end DocTypes
