import DocTypes.Proofs.Types.Uniqueness

/-!
# Stores that are built up stay canonical

An `Operation` makes a type, a list of types or a value from what the store has already. A
store that is reached from the empty one by operations is canonical, so in it a number and a
structure are the same thing, and what a number stands for is settled when it is given out.

The proof is one lemma for each operation (`Store.Canonical.run`), put together from the
four steps that keep a store canonical, and an induction on the list of operations
(`Store.Canonical.runAll`).

## Main statement

* `Store.types_are_structures`: along every run of operations, types are equal if and only
  if they have the same structure, structures never change, and the parts of a type are older.
-/

namespace DocTypes

/-- A step that makes a type, a list or a value. -/
inductive Operation where
  | instanceOf (cls : ValueId)
  | constructedInstanceOf (cls : ValueId)
  | reference (value : ValueId)
  | function (shape : FunctionShape)
  | union (types : List TypeId)
  | removeMember (t member : TypeId)
  | tuple (elements : List TypeId)
  | labeled (label : Atom) (type : TypeId)
  | record (fields : List (Atom × TypeId))
  | parameter (name : Atom) (node : NodeRef)
  | aliasOf (name : Atom) (tag : NodeRef)
  | setAliasTarget (t target : TypeId)
  | internList (types : List TypeId)
  | newVariable (node : NodeRef) (name : Atom)
  | newProperty (owner : ValueId) (key : PropertyKey) (node : NodeRef)
  | newFunction (node : NodeRef)
  | newClass (node : NodeRef) (kind : ClassKind) (name : String) (typeParameters : List TypeId)
  | newConstructedClass (node : NodeRef) (generic : ValueId) (arguments : ListId)
  | newObject (node : NodeRef)
  | newUndefined
  | ensureMembers (value : ValueId)
  | addWrite (value : ValueId) (node : NodeRef)
  | addRead (value : ValueId) (node : NodeRef)

namespace Operation

/-- The store after an operation. -/
def run (s : Store) : Operation → Store
  | .instanceOf cls => { s with types := (s.types.instanceOf cls).2 }
  | .constructedInstanceOf cls => { s with types := (s.types.constructedInstanceOf cls).2 }
  | .reference value => { s with types := (s.types.reference value).2 }
  | .function shape => { s with types := (s.types.function shape).2 }
  | .union types => { s with types := (s.types.union types).2 }
  | .removeMember t member => { s with types := (s.types.removeMember t member).2 }
  | .tuple elements => { s with types := (s.types.tuple elements).2 }
  | .labeled label type => { s with types := (s.types.labeled label type).2 }
  | .record fields => { s with types := (s.types.record fields).2 }
  | .parameter name node => { s with types := (s.types.parameter name node).2 }
  | .aliasOf name tag => { s with types := (s.types.aliasOf name tag).2 }
  | .setAliasTarget t target => { s with types := s.types.setAliasTarget t target }
  | .internList types => { s with types := (s.types.internList types).2 }
  | .newVariable node name => { s with values := (s.values.newVariable node name).2 }
  | .newProperty owner key node => { s with values := (s.values.newProperty owner key node).2 }
  | .newFunction node => { s with values := (s.values.newFunction node).2 }
  | .newClass node kind name typeParameters =>
    { s with values := (s.values.newClass node kind name typeParameters).2 }
  | .newConstructedClass node generic arguments =>
    { s with values := (s.values.newConstructedClass node generic arguments).2 }
  | .newObject node => { s with values := (s.values.newObject node).2 }
  | .newUndefined => { s with values := s.values.newUndefined.2 }
  | .ensureMembers value => { s with values := s.values.ensureMembers value }
  | .addWrite value node => { s with values := s.values.addWrite value node }
  | .addRead value node => { s with values := s.values.addRead value node }

/-- The types, lists and values that an operation is applied to are there. -/
def Admissible (s : Store) : Operation → Prop
  | .instanceOf v | .constructedInstanceOf v | .reference v | .newProperty v _ _
  | .ensureMembers v | .addWrite v _ | .addRead v _ => s.ValueKnown v
  | .function shape => s.KeyKnown (.function shape)
  | .union types | .tuple types | .internList types | .newClass _ _ _ types =>
    ∀ t ∈ types, s.Known t
  | .removeMember t u | .setAliasTarget t u => s.Known t ∧ s.Known u
  | .labeled _ type => s.Known type
  | .record fields => ∀ field ∈ fields, s.Known field.2
  | .newConstructedClass _ generic arguments => s.ValueKnown generic ∧ s.ListKnown arguments
  | .parameter .. | .aliasOf .. | .newVariable .. | .newFunction _ | .newObject _
  | .newUndefined => True

/-- The store after operations, from the left. -/
def runAll : Store → List Operation → Store
  | s, [] => s
  | s, op :: ops => runAll (op.run s) ops

/-- Every operation is applied to what is there when its turn comes. -/
def AllAdmissible : Store → List Operation → Prop
  | _, [] => True
  | s, op :: ops => op.Admissible s ∧ AllAdmissible (op.run s) ops

end Operation

namespace Store.Canonical

variable {s : Store}

/-! ## Lists of types -/

theorem listKnown_internList (s : Store) (types : List TypeId) :
    ListKnown { s with types := (s.types.internList types).2 } (s.types.internList types).1 :=
  Option.isSome_iff_exists.2 ⟨types, Registry.get?_intern s.types.lists types⟩

/-- Numbering a list of known types and interning a key with it. -/
theorem internList_intern (h : s.Canonical) (key : ListId → TypeKey)
    {types : List TypeId} (htypes : ∀ t ∈ types, s.Known t)
    (hknown : ∀ (s' : Store) l, s'.ListKnown l → (∀ t ∈ s'.types.list l, s'.Known t) →
      s'.KeyKnown (key l))
    (hnormal : ∀ (s' : Store) l, s.Extends s' → s'.types.list l = types → s'.Normal (key l)) :
    s.Grows { s with types :=
      ((s.types.internList types).2.intern (key (s.types.internList types).1)).2 } := by
  have hlist := h.internList htypes
  refine hlist.trans (hlist.canonical.intern _ ?_ ?_)
  · exact hknown _ _ (listKnown_internList s types) (hlist.canonical.lists _)
  · exact hnormal _ _ hlist.keeps (s.types.list_internList types)

/-! ## Unions -/

theorem normalUnion (h : s.Canonical) {flat : List TypeId} (hflat : ∀ t ∈ flat, s.Known t) :
    s.Grows { s with types := (s.types.normalUnion flat).2 } := by
  unfold TypeStore.normalUnion
  simp only
  split
  · exact .refl h
  split
  · exact .refl h
  · exact .refl h
  · next several _ _ =>
    refine h.internList_intern .union (fun t ht => ?_) (fun _ _ hl _ => hl)
      fun s' l _ hl => ?_
    · exact hflat t (TypeStore.mem_sortedSet.1 (List.mem_of_mem_filter ht))
    · show (s'.types.list l).Pairwise _
      rw [hl]
      exact (TypeStore.sortedSet_pairwise flat).filter _

theorem known_of_mem_members (h : s.Canonical) {t u : TypeId} (ht : s.Known t)
    (hu : u ∈ s.types.members t) : s.Known u := by
  unfold TypeStore.members at hu
  split at hu
  · exact h.lists _ u hu
  · rw [List.mem_singleton] at hu
    exact hu ▸ ht

/-! ## Records -/

theorem mem_insertField {field f : Atom × TypeId} {fields : List (Atom × TypeId)}
    (h : f ∈ TypeStore.insertField field fields) : f = field ∨ f ∈ fields := by
  induction fields with
  | nil => simpa [TypeStore.insertField] using h
  | cons other rest ih =>
    unfold TypeStore.insertField at h
    split at h
    · simpa using h
    · split at h
      · exact .inr h
      · rcases List.mem_cons.1 h with rfl | h
        · simp
        · exact (ih h).imp_right (List.mem_cons_of_mem _)

theorem pairwise_insertField (field : Atom × TypeId) {fields : List (Atom × TypeId)}
    (h : fields.Pairwise (·.1.index < ·.1.index)) :
    (TypeStore.insertField field fields).Pairwise (·.1.index < ·.1.index) := by
  induction fields with
  | nil => simp [TypeStore.insertField]
  | cons other rest ih =>
    rw [List.pairwise_cons] at h
    unfold TypeStore.insertField
    split
    · next hlt =>
      refine List.pairwise_cons.2 ⟨fun f hf => ?_, List.pairwise_cons.2 h⟩
      rcases List.mem_cons.1 hf with rfl | hf
      · exact hlt
      · exact Nat.lt_trans hlt (h.1 f hf)
    · split
      · exact List.pairwise_cons.2 h
      · refine List.pairwise_cons.2 ⟨fun f hf => ?_, ih h.2⟩
        rcases mem_insertField hf with rfl | hf
        · omega
        · exact h.1 f hf

/-- Sorted fields are fields that were given, in the order of labels. -/
theorem sortedFields_spec (fields : List (Atom × TypeId)) :
    (∀ f ∈ TypeStore.sortedFields fields, f ∈ fields) ∧
      (TypeStore.sortedFields fields).Pairwise (·.1.index < ·.1.index) := by
  -- the fold is generalized to what is sorted already
  have hfold (fields : List (Atom × TypeId)) : ∀ sorted : List (Atom × TypeId),
      sorted.Pairwise (·.1.index < ·.1.index) →
      (∀ f ∈ fields.foldl (fun sorted field => TypeStore.insertField field sorted) sorted,
        f ∈ sorted ∨ f ∈ fields) ∧
      (fields.foldl (fun sorted field => TypeStore.insertField field sorted) sorted).Pairwise
        (·.1.index < ·.1.index) := by
    induction fields with
    | nil =>
      intro sorted hsorted
      exact ⟨fun f hf => .inl hf, hsorted⟩
    | cons field rest ih =>
      intro sorted hsorted
      obtain ⟨hmem, hpairwise⟩ := ih _ (pairwise_insertField field hsorted)
      refine ⟨fun f hf => ?_, hpairwise⟩
      rcases hmem f hf with hf | hf
      · rcases mem_insertField hf with rfl | hf
        · simp
        · exact .inl hf
      · exact .inr (List.mem_cons_of_mem _ hf)
  obtain ⟨hmem, hpairwise⟩ := hfold fields [] .nil
  exact ⟨fun f hf => (hmem f hf).resolve_left (by simp), hpairwise⟩

/-- Labelling fields gives labelled types, in the order of the fields. -/
theorem labelAll (h : s.Canonical) {fields : List (Atom × TypeId)}
    (hfields : ∀ field ∈ fields, s.Known field.2) :
    s.Grows { s with types := (s.types.labelAll fields).2 } ∧
      (s.types.labelAll fields).1.map (s.types.labelAll fields).2.key?
        = fields.map fun field => some (.labeled field.1 field.2) := by
  induction fields generalizing s with
  | nil => exact ⟨.refl h, rfl⟩
  | cons field rest ih =>
    obtain ⟨label, type⟩ := field
    have htype : s.Known type := hfields (label, type) List.mem_cons_self
    have hfirst : s.Grows { s with types := (s.types.labeled label type).2 } :=
      h.intern (.labeled label type) htype trivial
    obtain ⟨hrest, hkeys⟩ := ih hfirst.canonical fun field hfield =>
      hfirst.keeps.known (hfields field (List.mem_cons_of_mem _ hfield))
    refine ⟨hfirst.trans hrest, ?_⟩
    have hkey := hrest.keeps.key _ _ (s.types.key?_intern (.labeled label type))
    exact congrArg₂ List.cons hkey hkeys

theorem record (h : s.Canonical) {fields : List (Atom × TypeId)}
    (hfields : ∀ field ∈ fields, s.Known field.2) :
    s.Grows { s with types := (s.types.record fields).2 } := by
  obtain ⟨hmem, hsorted⟩ := sortedFields_spec fields
  obtain ⟨hlabels, hkeys⟩ := h.labelAll fun field hfield => hfields field (hmem field hfield)
  have hknown : ∀ t ∈ (s.types.labelAll (TypeStore.sortedFields fields)).1,
      Known { s with types := (s.types.labelAll (TypeStore.sortedFields fields)).2 } t := by
    intro t ht
    have hkey := List.mem_map_of_mem
      (f := (s.types.labelAll (TypeStore.sortedFields fields)).2.key?) ht
    rw [hkeys] at hkey
    obtain ⟨field, _, hfield⟩ := List.mem_map.1 hkey
    exact Option.isSome_iff_exists.2 ⟨_, hfield.symm⟩
  refine hlabels.trans (hlabels.canonical.internList_intern .record hknown
    (fun _ _ => And.intro) fun s' l hext hl => ?_)
  refine ⟨TypeStore.sortedFields fields, hsorted, ?_⟩
  rw [hl, ← hkeys]
  exact List.map_congr_left fun t ht => hext.key?_eq (hknown t ht)

/-! ## Values -/

theorem newProperty_keeps (s : ValueStore) (owner : ValueId) (key : PropertyKey) (node : NodeRef) :
    s.Keeps (s.newProperty owner key node).2 :=
  s.newProperty_steps .refl .trans .withTables owner key node (fun s _ => .alloc s rfl)
    fun s _ => .update s owner fun _ => rfl

theorem ensureMembers_keeps (s : ValueStore) (v : ValueId) : s.Keeps (s.ensureMembers v) :=
  s.ensureMembers_steps .refl .trans .withTables v fun s _ => .update s v fun _ => rfl

theorem newObject_keeps (s : ValueStore) (node : NodeRef) : s.Keeps (s.newObject node).2 := by
  rw [ValueStore.newObject_eq]
  exact (ValueStore.Keeps.alloc s rfl).trans (ensureMembers_keeps _ _)

theorem updateClass_keeps (s : ValueStore) (v : ValueId) (f : ClassData → ClassData) :
    s.Keeps (s.update v (Value.mapClass f)) := by
  refine .update s v fun value => ?_
  obtain ⟨node, members, data⟩ := value
  cases data <;> rfl

theorem newClass_keeps (s : ValueStore) (node : NodeRef) (kind : ClassKind) (name : String)
    (typeParameters : List TypeId) :
    s.Keeps (s.newClass node kind name typeParameters).2 := by
  have halloc : s.Keeps (s.allocClass node kind name typeParameters).2 := .alloc s rfl
  rw [ValueStore.newClass_eq]
  exact (halloc.trans ((newProperty_keeps _ _ _ node).trans (ensureMembers_keeps _ _))).trans
    (updateClass_keeps _ _ _)

theorem mapSlot_constructed? (f : Slot → Slot) (value : Value) :
    (value.mapSlot f).constructed? = value.constructed? := by
  obtain ⟨node, members, data⟩ := value
  cases data <;> rfl

/-! ## Every operation -/

/-- An operation on what is there keeps a store canonical and changes nothing in it. -/
theorem run (h : s.Canonical) {op : Operation} (hop : op.Admissible s) :
    s.Grows (op.run s) := by
  cases op with
  | instanceOf v => exact h.intern (.instanceOf v) hop trivial
  | constructedInstanceOf v => exact h.intern (.constructedInstanceOf v) hop trivial
  | reference v => exact h.intern (.reference v) hop trivial
  | function shape => exact h.intern (.function shape) hop trivial
  | union types =>
    refine h.normalUnion fun t ht => ?_
    obtain ⟨u, hu, ht⟩ := List.mem_flatMap.1 ht
    exact h.known_of_mem_members (hop u hu) ht
  | removeMember t member =>
    refine h.normalUnion fun u hu => ?_
    exact h.known_of_mem_members hop.1 (List.mem_of_mem_filter hu)
  | tuple elements =>
    exact h.internList_intern .tuple hop (fun _ _ hl _ => hl) fun _ _ _ _ => trivial
  | labeled label type => exact h.intern (.labeled label type) hop trivial
  | record fields => exact h.record hop
  | parameter name node => exact h.intern (.parameter name node) trivial trivial
  | aliasOf name tag => exact h.intern (.aliasOf name tag) trivial trivial
  | setAliasTarget t target =>
    -- what an alias stands for is in no part of a structure
    have hext : Extends s { s with types := s.types.setAliasTarget t target } :=
      ⟨fun _ _ hk => hk, fun _ _ => rfl, fun _ hl => hl, fun _ hv => hv, fun _ _ => rfl⟩
    refine ⟨h.of_extends hext (fun t k hk hnone => ?_) (fun l hl t ht => ?_)
      (fun v x hx hv => ?_) h.application_iff, hext⟩
    · exact absurd (hnone.symm.trans hk) (by simp)
    · exact absurd (listKnown_of_mem ht) hl
    · exact absurd (valueKnown_of_application? hx) hv
  | internList types => exact h.internList hop
  | newVariable node name => exact h.withValues (.alloc _ rfl)
  | newProperty owner key node => exact h.withValues (newProperty_keeps _ _ _ _)
  | newFunction node => exact h.withValues (.alloc _ rfl)
  | newClass node kind name typeParameters => exact h.withValues (newClass_keeps _ _ _ _ _)
  | newConstructedClass node generic arguments => exact h.newConstructedClass node hop.1 hop.2
  | newObject node => exact h.withValues (newObject_keeps _ _)
  | newUndefined => exact h.withValues (.alloc _ rfl)
  | ensureMembers v => exact h.withValues (ensureMembers_keeps _ _)
  | addWrite v node => exact h.withValues (.update _ _ (mapSlot_constructed? _))
  | addRead v node => exact h.withValues (.update _ _ (mapSlot_constructed? _))

/-- So do operations one after another. -/
theorem runAll (h : s.Canonical) {ops : List Operation} (hops : Operation.AllAdmissible s ops) :
    s.Grows (Operation.runAll s ops) := by
  induction ops generalizing s with
  | nil => exact .refl h
  | cons op ops ih =>
    have hstep := h.run hops.1
    exact hstep.trans (ih hstep.canonical hops.2)

end Store.Canonical

namespace Store

open Operation

/-- **Types are structures.** Take a store that operations made from the empty one, and any
further operations. Two types of the store are equal if and only if they unfold to the same
structure. The further operations change the structure of none of them. A type unfolds to
one layer of its key over what its parts unfold to, and its parts were there before it. -/
theorem types_are_structures (prototypeName : Atom) (ops later : List Operation)
    (hops : AllAdmissible (Store.new prototypeName) ops)
    (hlater : AllAdmissible (runAll (Store.new prototypeName) ops) later) :
    let s := runAll (Store.new prototypeName) ops
    let s' := runAll s later
    (∀ t u, s.Known t → s.Known u → (t = u ↔ (s.unfold t).Same (s.unfold u))) ∧
      (∀ t, s.Known t → s'.Known t ∧ s'.unfold t = s.unfold t) ∧
      ∀ t key, s.types.key? t = some key →
        s.unfold t = s.layer s.unfold key ∧ s.KeyKnown key ∧
          ∀ part ∈ s.parts key, s.Known part ∧ part.index < t.index := by
  intro s s'
  have hs : s.Canonical := ((Canonical.new prototypeName).runAll hops).canonical
  have hgrows : s.Grows s' := hs.runAll hlater
  have hknown (t : TypeId) (key : TypeKey) (ht : s.types.key? t = some key) (part : TypeId)
      (hpart : part ∈ s.parts key) : s.Known part :=
    hs.known_of_mem_parts key (hs.keyKnown t key ht) hpart
  refine ⟨fun t u ht hu => (hs.same_unfold_iff ht hu).symm, fun t ht => ?_, fun t key ht => ?_⟩
  · exact ⟨hgrows.keeps.known ht, unfold_of_extends hgrows.keeps hs.descends
      hgrows.canonical.descends hs.applicationsKnown hs.keyKnown hknown ht⟩
  · exact ⟨unfold_eq hs.descends ht, hs.keyKnown t key ht,
      fun part hpart => ⟨hknown t key ht part hpart, hs.descends t key ht part hpart⟩⟩

/-- A generic class, the list it is applied to, and its instances or `null`. -/
def boxOperations : List Operation :=
  [.parameter ⟨0⟩ (some 3), .newClass none .ordinary "Box" [⟨1000⟩], .internList [.string],
    .newConstructedClass none ⟨1000⟩ ⟨1⟩, .constructedInstanceOf ⟨1002⟩, .union [⟨1001⟩, .null]]

/-- The union that `boxOperations` makes last keeps its structure when the same class is
applied again and the union is put into a record, and it is not the same as its member. -/
theorem box_types_are_structures :
    let s := runAll (Store.new ⟨0⟩) boxOperations
    let later := [.newConstructedClass none ⟨1000⟩ ⟨1⟩, .record [(⟨5⟩, ⟨1002⟩)]]
    AllAdmissible (Store.new ⟨0⟩) boxOperations ∧ AllAdmissible s later ∧
      (runAll s later).unfold ⟨1002⟩ = s.unfold ⟨1002⟩ ∧
      ¬(s.unfold ⟨1001⟩).Same (s.unfold ⟨1002⟩) := by
  intro s later
  have hops : AllAdmissible (Store.new ⟨0⟩) boxOperations := by
    refine ⟨trivial, ?_, ?_, ⟨rfl, rfl⟩, rfl, ?_, trivial⟩
    · intro t ht
      rw [List.mem_singleton.1 ht]
      rfl
    · intro t ht
      rw [List.mem_singleton.1 ht]
      rfl
    · intro t ht
      simp only [List.mem_cons, List.not_mem_nil, or_false] at ht
      rcases ht with rfl | rfl <;> rfl
  have hlater : AllAdmissible s later := by
    refine ⟨⟨rfl, rfl⟩, ?_, trivial⟩
    intro field hfield
    rw [List.mem_singleton.1 hfield]
    rfl
  obtain ⟨hsame, hkeeps, _⟩ := types_are_structures ⟨0⟩ boxOperations later hops hlater
  refine ⟨hops, hlater, (hkeeps ⟨1002⟩ rfl).2, ?_⟩
  rw [← hsame ⟨1001⟩ ⟨1002⟩ rfl rfl]
  decide

end Store

end DocTypes
