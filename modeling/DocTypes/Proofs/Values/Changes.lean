import DocTypes.Values.Store
import Mathlib.Data.List.Nodup

/-!
# What a change of the value store leaves alone

Each step on the store changes one thing: it adds a value, notes a read or a write, puts a
member into a table, or changes a class. The lemmas here say what the rest of the store looks
like after each of them, seen through the classes (`ValueStore.SameClasses`) and through the
slots (`ValueStore.SameSlots`).
-/

namespace DocTypes

namespace ValueStore

/-- No value is listed twice. -/
theorem nodup_ids (s : ValueStore) : s.ids.Nodup :=
  List.nodup_range.map fun i j h => by simpa [ValueId.atPosition] using h

/-! ## Classes -/

theorem isClassLike_iff {s : ValueStore} {v : ValueId} :
    s.isClassLike v = true ↔ (s.class? v).isSome ∨ (s.constructed? v).isSome := by
  simp only [isClassLike, class?, constructed?]
  cases s.get? v with
  | none => simp
  | some value => simp [Value.isClassLike]

theorem class?_updateClass (s : ValueStore) (v w : ValueId) (f : ClassData → ClassData) :
    (s.updateClass v f).class? w = if v = w then (s.class? w).map f else s.class? w := by
  simp only [class?, updateClass, get?_update]
  split
  · cases hw : s.get? w with
    | none => rfl
    | some value =>
      obtain ⟨node, members, data⟩ := value
      cases data <;> rfl
  · rfl

theorem constructed?_updateClass (s : ValueStore) (v w : ValueId) (f : ClassData → ClassData) :
    (s.updateClass v f).constructed? w = s.constructed? w := by
  simp only [constructed?, updateClass, get?_update]
  split
  · cases hw : s.get? w with
    | none => rfl
    | some value =>
      obtain ⟨node, members, data⟩ := value
      cases data <;> rfl
  · rfl

theorem applications_updateClass (s : ValueStore) (v : ValueId) (f : ClassData → ClassData) :
    (s.updateClass v f).applications = s.applications := by
  unfold updateClass update
  split <;> rfl

theorem constructed?_updateConstructed (s : ValueStore) (v w : ValueId)
    (f : ConstructedData → ConstructedData) :
    (s.updateConstructed v f).constructed? w =
      if v = w then (s.constructed? w).map f else s.constructed? w := by
  simp only [constructed?, updateConstructed, get?_update]
  split
  · cases hw : s.get? w with
    | none => rfl
    | some value =>
      obtain ⟨node, members, data⟩ := value
      cases data <;> rfl
  · rfl

theorem isSome_class?_updateClass (s : ValueStore) (v w : ValueId) (f : ClassData → ClassData) :
    ((s.updateClass v f).class? w).isSome = (s.class? w).isSome := by
  rw [class?_updateClass]
  split <;> simp

theorem isClassLike_updateClass {s : ValueStore} {v w : ValueId} {f : ClassData → ClassData} :
    (s.updateClass v f).isClassLike w = true ↔ s.isClassLike w = true := by
  rw [isClassLike_iff, isClassLike_iff, isSome_class?_updateClass, constructed?_updateClass]

theorem get?_fst_alloc (s : ValueStore) (value : Value) : s.get? (s.alloc value).1 = none := by
  simp [alloc, get?]

theorem class?_alloc {s : ValueStore} {value : Value} (h : value.class? = none) (v : ValueId) :
    (s.alloc value).2.class? v = s.class? v := by
  simp only [class?, get?_alloc]
  split
  · next hv => simp [h, hv, get?_fst_alloc]
  · rfl

theorem constructed?_alloc {s : ValueStore} {value : Value} (h : value.constructed? = none)
    (v : ValueId) : (s.alloc value).2.constructed? v = s.constructed? v := by
  simp only [constructed?, get?_alloc]
  split
  · next hv => simp [h, hv, get?_fst_alloc]
  · rfl

theorem class?_update {s : ValueStore} {f : Value → Value} (h : ∀ x, (f x).class? = x.class?)
    (v w : ValueId) : (s.update v f).class? w = s.class? w := by
  simp only [class?, get?_update]
  split
  · cases s.get? w <;> simp [h]
  · rfl

theorem constructed?_update {s : ValueStore} {f : Value → Value}
    (h : ∀ x, (f x).constructed? = x.constructed?) (v w : ValueId) :
    (s.update v f).constructed? w = s.constructed? w := by
  simp only [constructed?, get?_update]
  split
  · cases s.get? w <;> simp [h]
  · rfl

theorem applications_update (s : ValueStore) (v : ValueId) (f : Value → Value) :
    (s.update v f).applications = s.applications := by
  unfold update
  split <;> rfl

/-- The node of a class. -/
def classNode? (s : ValueStore) (v : ValueId) : NodeRef :=
  (s.get? v).bind fun value => value.class?.bind fun _ => value.node

theorem classNode?_alloc {s : ValueStore} {value : Value} (h : value.class? = none) (v : ValueId) :
    (s.alloc value).2.classNode? v = s.classNode? v := by
  simp only [classNode?, get?_alloc]
  split
  · next hv => simp [h, hv, get?_fst_alloc]
  · rfl

theorem classNode?_update {s : ValueStore} {f : Value → Value}
    (h : ∀ x, (f x).class?.isSome = x.class?.isSome ∧ (f x).node = x.node) (v w : ValueId) :
    (s.update v f).classNode? w = s.classNode? w := by
  simp only [classNode?, get?_update]
  split
  · cases s.get? w with
    | none => rfl
    | some value =>
      obtain ⟨hclass, hnode⟩ := h value
      rw [Option.map_some, Option.bind_some, Option.bind_some, hnode]
      cases hold : value.class? <;> cases hnew : (f value).class? <;> simp_all
  · rfl

/-- Classes, constructed classes and what is applied stay as they are. -/
structure SameClasses (s s' : ValueStore) : Prop where
  class? : ∀ v, s'.class? v = s.class? v
  constructed? : ∀ v, s'.constructed? v = s.constructed? v
  applications : s'.applications = s.applications
  nodes : ∀ v, s'.classNode? v = s.classNode? v

namespace SameClasses

theorem refl (s : ValueStore) : s.SameClasses s := ⟨fun _ => rfl, fun _ => rfl, rfl, fun _ => rfl⟩

theorem trans {s s' s'' : ValueStore} (h : s.SameClasses s') (h' : s'.SameClasses s'') :
    s.SameClasses s'' :=
  ⟨fun v => (h'.class? v).trans (h.class? v), fun v => (h'.constructed? v).trans (h.constructed? v),
    h'.applications.trans h.applications, fun v => (h'.nodes v).trans (h.nodes v)⟩

theorem alloc (s : ValueStore) {value : Value} (hclass : value.class? = none)
    (hconstructed : value.constructed? = none) : s.SameClasses (s.alloc value).2 :=
  ⟨class?_alloc hclass, constructed?_alloc hconstructed, rfl, classNode?_alloc hclass⟩

theorem update (s : ValueStore) (v : ValueId) {f : Value → Value}
    (hclass : ∀ x, (f x).class? = x.class?)
    (hconstructed : ∀ x, (f x).constructed? = x.constructed?)
    (hnode : ∀ x, (f x).node = x.node) : s.SameClasses (s.update v f) :=
  ⟨class?_update hclass v, constructed?_update hconstructed v, applications_update s v f,
    classNode?_update (fun x => ⟨by rw [hclass], hnode x⟩) v⟩

theorem mapSlot (s : ValueStore) (v : ValueId) (f : Slot → Slot) :
    s.SameClasses (s.update v (Value.mapSlot f)) := by
  refine update s v (fun x => ?_) (fun x => ?_) fun x => ?_
  all_goals
    obtain ⟨node, members, data⟩ := x
    cases data <;> rfl

theorem withTables (s : ValueStore) (tables : Array MemberTable) (missed : List Missing) :
    s.SameClasses { s with tables, missed } := ⟨fun _ => rfl, fun _ => rfl, rfl, fun _ => rfl⟩

theorem newPropertyIn (s : ValueStore) (t : TableId) (key : PropertyKey) (node : NodeRef) :
    s.SameClasses (s.newPropertyIn t key node).2 :=
  newPropertyIn_steps s refl trans withTables t key node fun s => alloc s rfl rfl

theorem newProperty (s : ValueStore) (owner : ValueId) (key : PropertyKey) (node : NodeRef) :
    s.SameClasses (s.newProperty owner key node).2 :=
  newProperty_steps s refl trans withTables owner key node (fun s _ => alloc s rfl rfl)
    fun s _ => update s owner (fun _ => rfl) (fun _ => rfl) fun _ => rfl

theorem ensureMembers (s : ValueStore) (v : ValueId) : s.SameClasses (s.ensureMembers v) :=
  ensureMembers_steps s refl trans withTables v
    fun s _ => update s v (fun _ => rfl) (fun _ => rfl) fun _ => rfl

theorem newObject (s : ValueStore) (node : NodeRef) : s.SameClasses (s.newObject node).2 := by
  rw [newObject_eq]
  exact (alloc s rfl rfl).trans (ensureMembers _ _)

end SameClasses

/-- A new class is found under its number, and nothing else changes for classes. -/
theorem newClass_spec (s : ValueStore) (node : NodeRef) (kind : ClassKind) (name : String)
    (typeParameters : List TypeId) :
    (∃ prototype, ∀ v, (s.newClass node kind name typeParameters).2.class? v =
      if v = (s.newClass node kind name typeParameters).1 then
        some { kind, name, typeParameters, prototype } else s.class? v) ∧
      (∀ v, (s.newClass node kind name typeParameters).2.constructed? v = s.constructed? v) ∧
      (s.newClass node kind name typeParameters).2.applications = s.applications ∧
      ∀ v, (s.newClass node kind name typeParameters).2.classNode? v =
        if v = (s.newClass node kind name typeParameters).1 then node else s.classNode? v := by
  let value : Value :=
    { node, data := .classValue { kind, name, typeParameters, prototype := ⟨0⟩ } }
  let allocated := s.alloc value
  let property := allocated.2.newProperty allocated.1 (.name s.prototypeName) node
  have hproperty : allocated.2.SameClasses (property.2.ensureMembers property.1) :=
    (SameClasses.newProperty _ _ _ node).trans (.ensureMembers _ _)
  have hrun : s.newClass node kind name typeParameters = (allocated.1,
      (property.2.ensureMembers property.1).updateClass allocated.1 fun c =>
        { c with prototype := property.1 }) := s.newClass_eq node kind name typeParameters
  rw [hrun]
  refine ⟨⟨property.1, fun v => ?_⟩, fun v => ?_, ?_, fun v => ?_⟩
  · rw [class?_updateClass, hproperty.class?]
    by_cases hv : v = allocated.1
    · subst hv
      simp only [if_true]
      show ((allocated.2.get? allocated.1).bind Value.class?).map _ = _
      rw [get?_alloc_self]
      rfl
    · rw [if_neg (Ne.symm hv), if_neg hv]
      simp only [class?]
      rw [get?_alloc, if_neg hv]
  · rw [constructed?_updateClass, hproperty.constructed?]
    exact constructed?_alloc rfl v
  · rw [applications_updateClass, hproperty.applications]
    rfl
  · have hupdate : ((property.2.ensureMembers property.1).updateClass allocated.1 fun c =>
        { c with prototype := property.1 }).classNode? v = allocated.2.classNode? v := by
      refine (classNode?_update (fun x => ?_) _ _).trans (hproperty.nodes v)
      obtain ⟨node, members, data⟩ := x
      cases data <;> exact ⟨rfl, rfl⟩
    refine hupdate.trans ?_
    have hget : allocated.2.get? v = if v = allocated.1 then some value else s.get? v :=
      get?_alloc _ _ _
    rw [classNode?, hget]
    split <;> rfl

/-! ## Slots -/

/-- The nodes that read a variable or property. -/
def readsOf (s : ValueStore) (v : ValueId) : List NodeRef := ((s.slot? v).map (·.reads)).getD []

/-- The nodes whose value is written to a variable or property. -/
def writesOf (s : ValueStore) (v : ValueId) : List NodeRef := ((s.slot? v).map (·.writes)).getD []

theorem slot?_mapSlot (s : ValueStore) (v w : ValueId) (f : Slot → Slot) :
    (s.update v (Value.mapSlot f)).slot? w = if v = w then (s.slot? w).map f else s.slot? w := by
  simp only [slot?, get?_update]
  split
  · cases hw : s.get? w with
    | none => rfl
    | some value =>
      obtain ⟨node, members, data⟩ := value
      cases data <;> rfl
  · rfl

theorem slot?_update {s : ValueStore} {f : Value → Value} (h : ∀ x, (f x).slot? = x.slot?)
    (v w : ValueId) : (s.update v f).slot? w = s.slot? w := by
  simp only [slot?, get?_update]
  split
  · cases s.get? w <;> simp [h]
  · rfl

theorem slot?_fst_alloc (s : ValueStore) (value : Value) : s.slot? (s.alloc value).1 = none := by
  simp [slot?, get?_fst_alloc]

theorem slot?_newVariable (s : ValueStore) (node : NodeRef) (name : Atom) :
    (s.newVariable node name).2.slot? (s.newVariable node name).1 = some {} := by
  unfold newVariable slot?
  rw [get?_alloc_self]
  rfl

/-- Slots stay as they are, and a new slot is not used yet. -/
structure SameSlots (s s' : ValueStore) : Prop where
  kept : ∀ v, (s.slot? v).isSome → s'.slot? v = s.slot? v
  fresh : ∀ v slot, s.slot? v = none → s'.slot? v = some slot → slot = {}

namespace SameSlots

variable {s s' s'' : ValueStore}

theorem of_eq (h : ∀ v, s'.slot? v = s.slot? v) : s.SameSlots s' :=
  ⟨fun v _ => h v, fun v slot hnone hsome => by
    rw [h v, hnone] at hsome
    cases hsome⟩

theorem refl (s : ValueStore) : s.SameSlots s := of_eq fun _ => rfl

theorem trans (h : s.SameSlots s') (h' : s'.SameSlots s'') : s.SameSlots s'' := by
  refine ⟨fun v hv => ?_, fun v slot hnone hsome => ?_⟩
  · have hkept := h.kept v hv
    rw [h'.kept v (by rwa [hkept]), hkept]
  · cases hv : s'.slot? v with
    | none => exact h'.fresh v slot hv hsome
    | some old =>
      have hold := h'.kept v (by simp [hv])
      rw [hsome, hv] at hold
      cases hold
      exact h.fresh v slot hnone hv

theorem alloc (s : ValueStore) {value : Value} (h : ∀ slot, value.slot? = some slot → slot = {}) :
    s.SameSlots (s.alloc value).2 := by
  have hslot : ∀ v, (s.alloc value).2.slot? v
      = if v = (s.alloc value).1 then value.slot? else s.slot? v := by
    intro v
    simp only [slot?, get?_alloc]
    split <;> rfl
  refine ⟨fun v hv => ?_, fun v slot hnone hsome => ?_⟩
  · have hne : v ≠ (s.alloc value).1 := by
      intro heq
      rw [heq, slot?_fst_alloc] at hv
      cases hv
    rw [hslot, if_neg hne]
  · rw [hslot] at hsome
    split at hsome
    · exact h slot hsome
    · rw [hnone] at hsome
      cases hsome

theorem update (s : ValueStore) (v : ValueId) {f : Value → Value}
    (h : ∀ x, (f x).slot? = x.slot?) : s.SameSlots (s.update v f) :=
  of_eq fun w => slot?_update h v w

theorem withTables (s : ValueStore) (tables : Array MemberTable) (missed : List Missing) :
    s.SameSlots { s with tables, missed } := of_eq fun _ => rfl

theorem newProperty (s : ValueStore) (owner : ValueId) (key : PropertyKey) (node : NodeRef) :
    s.SameSlots (s.newProperty owner key node).2 :=
  newProperty_steps s refl trans withTables owner key node
    (fun s _ => alloc s fun _ hslot => (Option.some.inj hslot).symm)
    fun s _ => update s owner fun _ => rfl

theorem ensureMembers (s : ValueStore) (v : ValueId) : s.SameSlots (s.ensureMembers v) :=
  ensureMembers_steps s refl trans withTables v fun s _ => update s v fun _ => rfl

theorem newObject (s : ValueStore) (node : NodeRef) : s.SameSlots (s.newObject node).2 := by
  rw [newObject_eq]
  exact (alloc s fun _ hslot => by cases hslot).trans (ensureMembers _ _)

theorem newClass (s : ValueStore) (node : NodeRef) (kind : ClassKind) (name : String)
    (typeParameters : List TypeId) : s.SameSlots (s.newClass node kind name typeParameters).2 := by
  have hvalue : s.SameSlots (s.allocClass node kind name typeParameters).2 :=
    alloc s fun slot hslot => by cases hslot
  rw [newClass_eq]
  refine (hvalue.trans ((newProperty _ _ _ node).trans (ensureMembers _ _))).trans
    (update _ _ fun value => ?_)
  obtain ⟨_, _, data⟩ := value
  cases data <;> rfl

theorem readsOf (h : s.SameSlots s') (v : ValueId) : s'.readsOf v = s.readsOf v := by
  unfold ValueStore.readsOf
  cases hv : s.slot? v with
  | some slot => rw [h.kept v (by simp [hv]), hv]
  | none =>
    cases hv' : s'.slot? v with
    | none => rfl
    | some slot =>
      rw [h.fresh v slot hv hv']
      rfl

theorem writesOf (h : s.SameSlots s') (v : ValueId) : s'.writesOf v = s.writesOf v := by
  unfold ValueStore.writesOf
  cases hv : s.slot? v with
  | some slot => rw [h.kept v (by simp [hv]), hv]
  | none =>
    cases hv' : s'.slot? v with
    | none => rfl
    | some slot =>
      rw [h.fresh v slot hv hv']
      rfl

end SameSlots

theorem readsOf_addRead {s : ValueStore} {v : ValueId} (h : (s.slot? v).isSome) (node : NodeRef)
    (w : ValueId) :
    (s.addRead v node).readsOf w = if v = w then s.readsOf w ++ [node] else s.readsOf w := by
  unfold readsOf addRead
  rw [slot?_mapSlot]
  by_cases hv : v = w
  · subst hv
    obtain ⟨slot, hslot⟩ := Option.isSome_iff_exists.1 h
    simp [hslot]
  · simp [hv]

theorem writesOf_addWrite {s : ValueStore} {v : ValueId} (h : (s.slot? v).isSome) (node : NodeRef)
    (w : ValueId) :
    (s.addWrite v node).writesOf w = if v = w then s.writesOf w ++ [node] else s.writesOf w := by
  unfold writesOf addWrite
  rw [slot?_mapSlot]
  by_cases hv : v = w
  · subst hv
    obtain ⟨slot, hslot⟩ := Option.isSome_iff_exists.1 h
    simp [hslot]
  · simp [hv]

theorem readsOf_addRead_of_none {s : ValueStore} {v : ValueId} (h : s.slot? v = none)
    (node : NodeRef) (w : ValueId) : (s.addRead v node).readsOf w = s.readsOf w := by
  unfold readsOf addRead
  rw [slot?_mapSlot]
  split
  · next hv =>
    rw [← hv, h]
    rfl
  · rfl

theorem writesOf_addWrite_of_none {s : ValueStore} {v : ValueId} (h : s.slot? v = none)
    (node : NodeRef) (w : ValueId) : (s.addWrite v node).writesOf w = s.writesOf w := by
  unfold writesOf addWrite
  rw [slot?_mapSlot]
  split
  · next hv =>
    rw [← hv, h]
    rfl
  · rfl

theorem writesOf_addRead (s : ValueStore) (v w : ValueId) (node : NodeRef) :
    (s.addRead v node).writesOf w = s.writesOf w := by
  unfold writesOf addRead
  rw [slot?_mapSlot]
  split
  · cases s.slot? w <;> rfl
  · rfl

theorem readsOf_addWrite (s : ValueStore) (v w : ValueId) (node : NodeRef) :
    (s.addWrite v node).readsOf w = s.readsOf w := by
  unfold readsOf addWrite
  rw [slot?_mapSlot]
  split
  · cases s.slot? w <;> rfl
  · rfl

theorem isSome_slot?_mapSlot (s : ValueStore) (v w : ValueId) (f : Slot → Slot) :
    ((s.update v (Value.mapSlot f)).slot? w).isSome = (s.slot? w).isSome := by
  rw [slot?_mapSlot]
  split
  · cases s.slot? w <;> rfl
  · rfl

end ValueStore

end DocTypes
