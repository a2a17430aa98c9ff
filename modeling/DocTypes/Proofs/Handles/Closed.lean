import DocTypes.Proofs.Hierarchy.Frame
import DocTypes.Proofs.Types.Canonicity
import DocTypes.Proofs.Values.Tables

/-!
# Closed stores

A store is closed if every number that it keeps names something that is there: the members
of a value, the owner of a property, what a class is built from, what an alias stands for. The
owner of a property also has the table that the property lies in.

An `Operation` on what is there leaves a closed store closed, and loses nothing
(`Store.Retains`). So does noting the bases or the ancestors of a class.

## Main statements

* `Store.Closed.run`: an operation on what is there keeps a store closed.
* `Store.Closed.updateClass`, `Store.Closed.updateConstructed`: noting known bases and known
  ancestors keeps a store closed.
-/

namespace DocTypes

namespace Store

/-- A table that is there. -/
def TableKnown (s : Store) (t : TableId) : Prop := (s.values.table? t).isSome

/-- Every handle inside what a value is names something. -/
def DataKnown (s : Store) : ValueData → Prop
  | .propertySlot _ owner _ => s.TableKnown owner
  | .classValue cls =>
    (∀ t ∈ cls.typeParameters, s.Known t) ∧ s.ValueKnown cls.prototype ∧
      (∀ b ∈ cls.bases, s.ValueKnown b) ∧ ∀ v ∈ cls.ancestors, s.ValueKnown v
  | .constructedClass cls =>
    s.ValueKnown cls.generic ∧ s.ListKnown cls.arguments ∧ ∀ v ∈ cls.ancestors, s.ValueKnown v
  | _ => True

/-- Every handle inside a value names something. -/
structure HandlesKnown (s : Store) (value : Value) : Prop where
  table : ∀ t, value.table = some t → s.TableKnown t
  data : s.DataKnown value.data

/-- Every handle inside a table names something. -/
structure MembersKnown (s : Store) (table : MemberTable) : Prop where
  owner : s.ValueKnown table.owner
  entries : ∀ entry ∈ table.entries, s.ValueKnown entry.2

/-- A value without a table. -/
theorem HandlesKnown.untabled {s : Store} {value : Value} (htable : value.table = none)
    (hdata : s.DataKnown value.data) : s.HandlesKnown value :=
  ⟨fun t ht => by simp [htable] at ht, hdata⟩

/-- The bases of a class are known. -/
theorem HandlesKnown.bases {s : Store} {value : Value} (h : s.HandlesKnown value) {cls : ClassData}
    (hcls : value.class? = some cls) : ∀ b ∈ cls.bases, s.ValueKnown b := by
  obtain ⟨-, hdata⟩ := h
  obtain ⟨_, _, data⟩ := value
  cases data with
  | classValue =>
    cases hcls
    exact hdata.2.2.1
  | _ => cases hcls

/-- The prototype of a class is known. -/
theorem HandlesKnown.prototype {s : Store} {value : Value} (h : s.HandlesKnown value)
    {cls : ClassData} (hcls : value.class? = some cls) : s.ValueKnown cls.prototype := by
  obtain ⟨-, hdata⟩ := h
  obtain ⟨_, _, data⟩ := value
  cases data with
  | classValue =>
    cases hcls
    exact hdata.2.1
  | _ => cases hcls

/-- Every handle of a store names something, and so did every handle that was used. -/
structure Closed (s : Store) : Prop where
  canonical : s.Canonical
  named : s.Named
  emptyList : s.ListKnown .empty
  values : ∀ v value, s.values.get? v = some value → s.HandlesKnown value
  tables : ∀ t table, s.values.table? t = some table → s.MembersKnown table
  missed : s.values.missed = []
  aliases : ∀ entry ∈ s.types.aliasTargets, s.Known entry.1 ∧ s.Known entry.2
  shapes : s.types.ShapesUsed

/-- A closed store that has lost nothing. -/
structure Retains (s s' : Store) : Prop where
  closed : s'.Closed
  keeps : s.Extends s'
  class? : ∀ v, (s.values.class? v).isSome → (s'.values.class? v).isSome
  table : ∀ t, s.TableKnown t → s'.TableKnown t

/-! ## What is known stays known -/

namespace Retains

variable {s s' s'' : Store}

theorem refl (h : s.Closed) : s.Retains s := ⟨h, .refl s, fun _ hv => hv, fun _ hv => hv⟩

theorem trans (h : s.Retains s') (h' : s'.Retains s'') : s.Retains s'' :=
  ⟨h'.closed, h.keeps.trans h'.keeps, fun v hv => h'.class? v (h.class? v hv),
    fun t ht => h'.table t (h.table t ht)⟩

end Retains

theorem valueKnown_of_class? {s : Store} {v : ValueId} (h : (s.values.class? v).isSome) :
    s.ValueKnown v := by
  obtain ⟨_, hclass⟩ := Option.isSome_iff_exists.1 h
  obtain ⟨value, hvalue, -⟩ := Option.bind_eq_some_iff.1 hclass
  exact Option.isSome_iff_exists.2 ⟨value, hvalue⟩

theorem isSome_application? {s : Store} {v : ValueId} :
    (s.values.application? v).isSome = (s.values.constructed? v).isSome := by
  simp [ValueStore.application?]

theorem valueKnown_of_constructed? {s : Store} {v : ValueId}
    (h : (s.values.constructed? v).isSome) : s.ValueKnown v := by
  rw [← isSome_application?] at h
  obtain ⟨_, happlication⟩ := Option.isSome_iff_exists.1 h
  exact valueKnown_of_application? happlication

/-- A constructed class stays one. -/
theorem Extends.constructed? {s s' : Store} (h : s.Extends s') {v : ValueId}
    (hv : (s.values.constructed? v).isSome) : (s'.values.constructed? v).isSome := by
  rw [← isSome_application?, h.application v (valueKnown_of_constructed? hv), isSome_application?]
  exact hv

section Growing

variable {s s' : Store} (hkeeps : s.Extends s') (htable : ∀ t, s.TableKnown t → s'.TableKnown t)
include hkeeps htable

theorem DataKnown.mono {data : ValueData} (h : s.DataKnown data) : s'.DataKnown data := by
  cases data with
  | propertySlot _ owner _ => exact htable owner h
  | classValue cls =>
    obtain ⟨hparameters, hprototype, hbases, hancestors⟩ := h
    exact ⟨fun t ht => hkeeps.known (hparameters t ht), hkeeps.valueKnown _ hprototype,
      fun b hb => hkeeps.valueKnown b (hbases b hb),
      fun v hv => hkeeps.valueKnown v (hancestors v hv)⟩
  | constructedClass cls =>
    obtain ⟨hgeneric, harguments, hancestors⟩ := h
    exact ⟨hkeeps.valueKnown _ hgeneric, hkeeps.listKnown _ harguments,
      fun v hv => hkeeps.valueKnown v (hancestors v hv)⟩
  | _ => trivial

theorem HandlesKnown.mono {value : Value} (h : s.HandlesKnown value) : s'.HandlesKnown value :=
  ⟨fun t ht => htable t (h.table t ht), h.data.mono hkeeps htable⟩

omit htable in
theorem MembersKnown.mono {table : MemberTable} (h : s.MembersKnown table) :
    s'.MembersKnown table :=
  ⟨hkeeps.valueKnown _ h.owner, fun entry hentry => hkeeps.valueKnown _ (h.entries entry hentry)⟩

end Growing

/-! ## Types -/

/-- The keys and lists that a step numbers do not bear on what aliases stand for. -/
theorem aliasTargets_of_interns {s s' : TypeStore} (h : s.Interns (fun _ => True) s') :
    s'.aliasTargets = s.aliasTargets := h.aliasTargets_eq

theorem aliasTargets_normalUnion (s : TypeStore) (flat : List TypeId) :
    (s.normalUnion flat).2.aliasTargets = s.aliasTargets :=
  aliasTargets_of_interns (.normalUnion s (fun _ => trivial) flat)

theorem aliasTargets_record (s : TypeStore) (fields : List (Atom × TypeId)) :
    (s.record fields).2.aliasTargets = s.aliasTargets :=
  aliasTargets_of_interns (.record s (fun _ _ => trivial) (fun _ => trivial) fields)

namespace Closed

variable {s : Store}

/-- New types. -/
theorem withTypes (h : s.Closed) {types : TypeStore} (hgrows : s.Grows { s with types })
    (hnamed : s.Steady { s with types })
    (haliases : ∀ entry ∈ types.aliasTargets, entry ∈ s.types.aliasTargets ∨
      (s.Known entry.1 ∧ s.Known entry.2)) (hshapes : types.ShapesUsed) :
    s.Retains { s with types } where
  closed :=
    { canonical := hgrows.canonical
      named := hnamed.named h.named
      emptyList := hgrows.keeps.listKnown _ h.emptyList
      values := fun v value hv => (h.values v value hv).mono hgrows.keeps fun _ ht => ht
      tables := fun t table ht => (h.tables t table ht).mono hgrows.keeps
      missed := h.missed
      aliases := fun entry hentry => by
        obtain ⟨halias, htarget⟩ := (haliases entry hentry).elim (h.aliases entry) id
        exact ⟨hgrows.keeps.known halias, hgrows.keeps.known htarget⟩
      shapes := hshapes }
  keeps := hgrows.keeps
  class? _ hv := hv
  table _ hv := hv

/-- New types, none of which is a type of instances. -/
theorem withPlainTypes (h : s.Closed) {types : TypeStore} (hgrows : s.Grows { s with types })
    (hplain : s.types.Plain types) (hinterns : s.types.Interns (fun _ => True) types) :
    s.Retains { s with types } :=
  h.withTypes hgrows (.ofTypes hplain)
    (fun _ hentry => .inl (aliasTargets_of_interns hinterns ▸ hentry))
    (hinterns.shapesUsed h.shapes)

/-! ## Values -/

/-- New and changed values that are no constructed classes, and new and changed tables. -/
theorem withValues (h : s.Closed) {values : ValueStore} (hkeeps : s.values.Keeps values)
    (hclass : ∀ v, (s.values.class? v).isSome → (values.class? v).isSome)
    (htable : ∀ t, s.TableKnown t → TableKnown { s with values } t)
    (hvalues : ∀ v value, values.get? v = some value →
      s.values.get? v = some value ∨ HandlesKnown { s with values } value)
    (htables : ∀ t table, values.table? t = some table →
      s.values.table? t = some table ∨ MembersKnown { s with values } table)
    (hmissed : values.missed = s.values.missed) :
    s.Retains { s with values } := by
  have hgrows := h.canonical.withValues hkeeps
  have hconstructed {v : ValueId} {cls : ConstructedData} (hv : values.constructed? v = some cls) :
      ∃ old, s.values.constructed? v = some old ∧ old.generic = cls.generic := by
    have happlication : values.application? v = some ⟨cls.generic, cls.arguments⟩ := by
      rw [ValueStore.application?, hv, Option.map_some]
    rw [hkeeps.application, ValueStore.application?] at happlication
    obtain ⟨old, hold, heq⟩ := Option.map_eq_some_iff.1 happlication
    exact ⟨old, hold, congrArg Application.generic heq⟩
  refine ⟨⟨hgrows.canonical, ⟨fun t v hk => hclass v (h.named.instanceOf t v hk), fun t v hk => ?_,
    fun v cls hv => ?_, fun x v hx => ?_⟩, hgrows.keeps.listKnown _ h.emptyList,
    fun v value hv => ?_, fun t table ht => ?_, hmissed.trans h.missed, fun entry hentry => ?_,
    h.shapes⟩, hgrows.keeps, hclass, htable⟩
  · exact hgrows.keeps.constructed? (h.named.constructedInstanceOf t v hk)
  · obtain ⟨old, hold, heq⟩ := hconstructed hv
    exact hclass _ (heq ▸ h.named.generic v old hold)
  · have hx' : s.values.applications[x]? = some v := by
      rw [← hkeeps.applications]
      exact hx
    exact hgrows.keeps.constructed? (h.named.applied x v hx')
  · rcases hvalues v value hv with hold | hknown
    · exact (h.values v value hold).mono hgrows.keeps htable
    · exact hknown
  · rcases htables t table ht with hold | hknown
    · exact (h.tables t table hold).mono hgrows.keeps
    · exact hknown
  · obtain ⟨halias, htarget⟩ := h.aliases entry hentry
    exact ⟨hgrows.keeps.known halias, hgrows.keeps.known htarget⟩

/-- A new value that is no constructed class. -/
theorem alloc (h : s.Closed) {value : Value} (hconstructed : value.constructed? = none)
    (hvalue : HandlesKnown { s with values := (s.values.alloc value).2 } value) :
    s.Retains { s with values := (s.values.alloc value).2 } := by
  refine h.withValues (.alloc _ hconstructed) (fun v hv => ?_) (fun _ ht => ht)
    (fun v found hv => ?_)
    (fun _ _ ht => .inl ht) rfl
  · obtain ⟨old, hget⟩ := Option.isSome_iff_exists.1 (valueKnown_of_class? hv)
    have hclass : s.values.class? v = old.class? := by
      rw [ValueStore.class?, hget, Option.bind_some]
    rw [ValueStore.class?, ValueStore.get?_alloc_of_some value hget, Option.bind_some, ← hclass]
    exact hv
  · rw [ValueStore.get?_alloc] at hv
    split at hv
    · cases hv
      exact .inr hvalue
    · exact .inl hv

/-- A value is changed, and only such handles are put in it as name something. -/
theorem update (h : s.Closed) {v : ValueId} (hv : s.ValueKnown v) {f : Value → Value}
    (hconstructed : ∀ value, (f value).constructed? = value.constructed?)
    (hclass : ∀ value, (f value).class?.isSome = value.class?.isSome)
    (hvalue : ∀ value, s.values.get? v = some value →
      HandlesKnown { s with values := s.values.update v f } value →
      HandlesKnown { s with values := s.values.update v f } (f value)) :
    s.Retains { s with values := s.values.update v f } := by
  have hkeeps : s.values.Keeps (s.values.update v f) := .update _ v hconstructed
  have htable (t : TableId) : (s.values.update v f).table? t = s.values.table? t :=
    s.values.table?_update v f t
  have hknown (t : TableId) (ht : s.TableKnown t) :
      TableKnown { s with values := s.values.update v f } t :=
    (congrArg Option.isSome (htable t)).trans ht
  have hgrows := h.canonical.withValues hkeeps
  refine h.withValues hkeeps (fun w hw => ?_) hknown (fun w value hw => ?_)
    (fun t table ht => .inl ((htable t).symm.trans ht)) (ValueStore.missed_update hv f)
  · unfold ValueStore.class? at hw ⊢
    rw [ValueStore.get?_update]
    split
    · cases hget : s.values.get? w with
      | none => simp [hget] at hw
      | some value =>
        rw [hget] at hw
        exact (hclass value).trans hw
    · exact hw
  · rw [ValueStore.get?_update] at hw
    split at hw
    · next heq =>
      obtain ⟨old, hold, rfl⟩ := Option.map_eq_some_iff.1 hw
      subst heq
      exact .inr (hvalue old hold ((h.values _ old hold).mono hgrows.keeps hknown))
    · exact .inl hw

/-- A slot is changed. -/
theorem mapSlot (h : s.Closed) {v : ValueId} (hv : s.ValueKnown v) (f : Slot → Slot) :
    s.Retains { s with values := s.values.update v (Value.mapSlot f) } := by
  refine h.update hv (fun value => ?_) (fun value => ?_) fun value _ hvalue => ?_
  · exact Canonical.mapSlot_constructed? f value
  · obtain ⟨node, table, data⟩ := value
    cases data <;> rfl
  · obtain ⟨htable, hdata⟩ := hvalue
    obtain ⟨node, table, data⟩ := value
    cases data <;> exact ⟨htable, hdata⟩

/-! ## Tables -/

/-- A value gets a table. -/
theorem allocTable (h : s.Closed) {owner : ValueId} (howner : s.ValueKnown owner) :
    s.Retains { s with values := (s.values.allocTable owner).2 } := by
  let values := (s.values.allocTable owner).2
  show s.Retains { s with values }
  have hkeeps : s.values.Keeps values :=
    (ValueStore.Keeps.withTables _ _ _).trans (.update _ owner fun _ => rfl)
  have hgrows := h.canonical.withValues hkeeps
  have hget (v : ValueId) := s.values.get?_allocTable owner v
  have hfound (t : TableId) := s.values.table?_allocTable owner t
  have htable (t : TableId) (ht : s.TableKnown t) : TableKnown { s with values } t := by
    rw [TableKnown, hfound, if_neg (ValueStore.table?_ne_of_isSome ht)]
    exact ht
  have hnew : TableKnown { s with values } ⟨s.values.tables.size⟩ := by
    rw [TableKnown, hfound, if_pos rfl]
    rfl
  refine h.withValues hkeeps (fun v hv => ?_) htable (fun v value hv => ?_)
    (fun t table ht => ?_) (ValueStore.missed_allocTable howner)
  · unfold ValueStore.class? at hv ⊢
    rw [hget]
    split
    · cases hold : s.values.get? v with
      | none => simp [hold] at hv
      | some value =>
        rw [hold] at hv
        exact hv
    · exact hv
  · rw [hget] at hv
    split at hv
    · obtain ⟨old, hold, rfl⟩ := Option.map_eq_some_iff.1 hv
      refine .inr ⟨fun t ht => ?_, ((h.values v old hold).mono hgrows.keeps htable).data⟩
      cases ht
      exact hnew
    · exact .inl hv
  · rw [hfound] at ht
    split at ht
    · cases ht
      exact .inr ⟨hgrows.keeps.valueKnown _ howner, fun entry hentry =>
        (List.not_mem_nil hentry).elim⟩
    · exact .inl ht

/-- A value gets a table of members, if it has none. -/
theorem ensureMembers (h : s.Closed) {v : ValueId} (hv : s.ValueKnown v) :
    s.Retains { s with values := s.values.ensureMembers v } := by
  unfold ValueStore.ensureMembers ValueStore.ensureTable
  split
  · exact .refl h
  · exact h.allocTable hv

/-- A table gets a property. -/
theorem newPropertyIn (h : s.Closed) {t : TableId} (ht : s.TableKnown t) (key : PropertyKey)
    (node : NodeRef) : s.Retains { s with values := (s.values.newPropertyIn t key node).2 } := by
  obtain ⟨table, htable⟩ := Option.isSome_iff_exists.1 ht
  cases hproperty : table.property? key with
  | some property =>
    rw [ValueStore.newPropertyIn_of_some node htable hproperty]
    exact .refl h
  | none =>
    rw [ValueStore.newPropertyIn_of_none node htable hproperty]
    let made := s.values.allocProperty t key node
    let values : ValueStore :=
      { made.2 with tables := s.values.tables.modify t.index (.insert key made.1) }
    show s.Retains { s with values }
    have hkeeps : s.values.Keeps values :=
      (ValueStore.Keeps.alloc s.values rfl).trans (.withTables _ _ _)
    have hgrows := h.canonical.withValues hkeeps
    have hfound (u : TableId) : values.table? u =
        if t = u then (s.values.table? u).map (.insert key made.1) else s.values.table? u :=
      made.2.table?_modify t u _
    have hknown (u : TableId) (hu : s.TableKnown u) : TableKnown { s with values } u := by
      rw [TableKnown, hfound]
      split
      · exact (Option.isSome_map ..).trans hu
      · exact hu
    have hmade : ValueKnown { s with values } made.1 :=
      ValueStore.isSome_get?_alloc_self s.values _
    refine h.withValues hkeeps (fun v hv => ?_) hknown (fun v value hv => ?_)
      (fun u entered hu => ?_) rfl
    · have hclass : values.class? v = s.values.class? v := ValueStore.class?_alloc rfl v
      rwa [hclass]
    · have hget : values.get? v = if v = made.1 then some _ else s.values.get? v :=
        ValueStore.get?_alloc _ _ _
      rw [hget] at hv
      split at hv
      · cases hv
        exact .inr (.untabled rfl (hknown t ht))
      · exact .inl hv
    · rw [hfound] at hu
      split at hu
      · next heq =>
        obtain ⟨old, hold, rfl⟩ := Option.map_eq_some_iff.1 hu
        have hmembers := (h.tables u old hold).mono hgrows.keeps
        refine .inr ⟨hmembers.owner, fun entry hentry => ?_⟩
        rcases List.mem_append.1 hentry with hentry | hentry
        · exact hmembers.entries entry hentry
        · rw [List.mem_singleton.1 hentry]
          exact hmade
      · exact .inl hu

/-- The table of a value is there. -/
theorem tableKnown_of_tableOf? (h : s.Closed) {v : ValueId} {t : TableId}
    (ht : s.values.tableOf? v = some t) : s.TableKnown t := by
  obtain ⟨value, hvalue, hvt⟩ := Option.bind_eq_some_iff.1 ht
  exact (h.values v value hvalue).table t hvt

/-- A value gets a member. -/
theorem newProperty (h : s.Closed) {owner : ValueId} (howner : s.ValueKnown owner)
    (key : PropertyKey) (node : NodeRef) :
    s.Retains { s with values := (s.values.newProperty owner key node).2 } := by
  have hensured := h.ensureMembers howner
  have htable := hensured.closed.tableKnown_of_tableOf? (ValueStore.tableOf?_ensureTable howner)
  exact hensured.trans (hensured.closed.newPropertyIn htable key node)

/-- A new object, with its table. -/
theorem newObject (h : s.Closed) (node : NodeRef) :
    s.Retains { s with values := (s.values.newObject node).2 } := by
  rw [ValueStore.newObject_eq]
  let object : Value := { node, data := .objectValue }
  have hmade : s.Retains { s with values := (s.values.alloc object).2 } :=
    h.alloc rfl (.untabled rfl trivial)
  exact hmade.trans (hmade.closed.ensureMembers (ValueStore.isSome_get?_alloc_self _ _))

/-- A new class, with known type parameters. -/
theorem newClass (h : s.Closed) (node : NodeRef) (kind : ClassKind) (name : String)
    {typeParameters : List TypeId} (hparameters : ∀ t ∈ typeParameters, s.Known t) :
    s.Retains { s with values := (s.values.newClass node kind name typeParameters).2 } := by
  let values := (s.values.newClass node kind name typeParameters).2
  show s.Retains { s with values }
  have hkeeps : s.values.Keeps values := Canonical.newClass_keeps _ _ _ _ _
  have hgrows := h.canonical.withValues hkeeps
  obtain ⟨hget, hfound, hmissed, -⟩ := s.values.newClass_tables node kind name typeParameters
  have hfirst : TableKnown { s with values } ⟨s.values.tables.size⟩ := by
    rw [TableKnown, hfound, if_pos rfl]
    rfl
  have hsecond : TableKnown { s with values } ⟨s.values.tables.size + 1⟩ := by
    rw [TableKnown, hfound, if_neg (by simp), if_pos rfl]
    rfl
  have hcls : ValueKnown { s with values } (.atPosition s.values.size) := by
    rw [ValueKnown, hget, if_pos rfl]
    rfl
  have hprototype : ValueKnown { s with values } (.atPosition (s.values.size + 1)) := by
    rw [ValueKnown, hget, if_neg (by simp [ValueId.atPosition]), if_pos rfl]
    rfl
  refine h.withValues hkeeps (fun v hv => ?_) (fun t ht => ?_) (fun v value hv => ?_)
    (fun t table ht => ?_) hmissed
  · have hlt := (valueKnown_of_class? hv).lt
    unfold ValueStore.class? at hv ⊢
    rw [hget, if_neg, if_neg]
    · exact hv
    all_goals
      rintro rfl
      simp only [ValueId.atPosition] at hlt
      omega
  · rw [TableKnown, hfound]
    split
    · rfl
    · split
      · rfl
      · exact ht
  · rw [hget] at hv
    split at hv
    · cases hv
      refine .inr ⟨fun t ht => ?_, fun t ht => hgrows.keeps.known (hparameters t ht), hprototype,
        fun b hb => (List.not_mem_nil hb).elim, fun w hw => (List.not_mem_nil hw).elim⟩
      cases ht
      exact hfirst
    · split at hv
      · cases hv
        refine .inr ⟨fun t ht => ?_, hfirst⟩
        cases ht
        exact hsecond
      · exact .inl hv
  · rw [hfound] at ht
    split at ht
    · cases ht
      refine .inr ⟨hcls, fun entry hentry => ?_⟩
      rw [List.mem_singleton.1 hentry]
      exact hprototype
    · split at ht
      · cases ht
        exact .inr ⟨hprototype, fun entry hentry => (List.not_mem_nil hentry).elim⟩
      · exact .inl ht

/-- A class is applied to a known list of types. -/
theorem newConstructedClass (h : s.Closed) (node : NodeRef) {generic : ValueId}
    {arguments : ListId} (hgeneric : (s.values.class? generic).isSome)
    (harguments : s.ListKnown arguments) :
    s.Retains { s with values := (s.values.newConstructedClass node generic arguments).2 } := by
  let values := (s.values.newConstructedClass node generic arguments).2
  show s.Retains { s with values }
  have hgrows : s.Grows { s with values } :=
    h.canonical.newConstructedClass node (valueKnown_of_class? hgeneric) harguments
  have hsteady : s.Steady { s with values } := .newConstructedClass node arguments fun _ => hgeneric
  have hget := s.values.get?_newConstructedClass node generic arguments
  obtain ⟨htables, hmissed⟩ := s.values.tables_newConstructedClass node generic arguments
  have hfound (t : TableId) : values.table? t = s.values.table? t := by
    rw [ValueStore.table?, htables]
    rfl
  have htable (t : TableId) (ht : s.TableKnown t) : TableKnown { s with values } t :=
    (congrArg Option.isSome (hfound t)).trans ht
  refine ⟨⟨hgrows.canonical, hsteady.named h.named, hgrows.keeps.listKnown _ h.emptyList,
    fun v value hv => ?_, fun t table ht => ?_, hmissed.trans h.missed, fun entry hentry => ?_,
    h.shapes⟩, hgrows.keeps, fun v hv => ?_, htable⟩
  · rcases hget v with hold | ⟨-, hnew⟩
    · exact (h.values v value (hold.symm.trans hv)).mono hgrows.keeps htable
    · obtain rfl := Option.some.inj (hnew.symm.trans hv)
      exact .untabled rfl ⟨hgrows.keeps.valueKnown _ (valueKnown_of_class? hgeneric),
        hgrows.keeps.listKnown _ harguments, fun w hw => (List.not_mem_nil hw).elim⟩
  · exact (h.tables t table ((hfound t).symm.trans ht)).mono hgrows.keeps
  · obtain ⟨halias, htarget⟩ := h.aliases entry hentry
    exact ⟨hgrows.keeps.known halias, hgrows.keeps.known htarget⟩
  · rwa [s.values.class?_newConstructedClass node generic arguments v]

/-! ## Classes that are filled in -/

/-- What is noted in a class names something. -/
theorem updateClass (h : s.Closed) {v : ValueId} (hv : (s.values.class? v).isSome)
    {f : ClassData → ClassData}
    (hf : ∀ cls, s.values.class? v = some cls →
      DataKnown { s with values := s.values.updateClass v f } (.classValue cls) →
      DataKnown { s with values := s.values.updateClass v f } (.classValue (f cls))) :
    s.Retains { s with values := s.values.updateClass v f } := by
  refine h.update (valueKnown_of_class? hv) (fun value => ?_) (fun value => ?_)
    fun value hget hvalue => ?_
  · obtain ⟨node, table, data⟩ := value
    cases data <;> rfl
  · obtain ⟨node, table, data⟩ := value
    cases data <;> rfl
  · obtain ⟨htable, hdata⟩ := hvalue
    obtain ⟨node, table, data⟩ := value
    cases data with
    | classValue cls =>
      have hcls : s.values.class? v = some cls := by
        rw [ValueStore.class?, hget]
        rfl
      exact ⟨htable, hf cls hcls hdata⟩
    | _ => exact ⟨htable, hdata⟩

/-- Noting the ancestors of a constructed class changes nothing in what it applies. -/
theorem updateConstructed_keeps (values : ValueStore) (v : ValueId) (ancestors : List ValueId) :
    values.Keeps (values.updateConstructed v fun cls =>
      { cls with ancestors, finalized := true }) where
  known w hw := by
    rw [ValueStore.updateConstructed, ValueStore.get?_update]
    split
    · exact (Option.isSome_map ..).trans hw
    · exact hw
  application w := by
    rw [ValueStore.application?, ValueStore.constructed?_updateConstructed]
    split
    · rw [Option.map_map]
      rfl
    · rfl
  applications := ValueStore.applications_update _ _ _

/-- The ancestors that are listed for a constructed class name something. -/
theorem updateConstructed (h : s.Closed) {v : ValueId} (hv : (s.values.constructed? v).isSome)
    {ancestors : List ValueId} (hancestors : ∀ w ∈ ancestors, s.ValueKnown w) :
    s.Retains { s with values := s.values.updateConstructed v fun cls =>
      { cls with ancestors, finalized := true } } := by
  let f : Value → Value := Value.mapConstructed fun cls => { cls with ancestors, finalized := true }
  let values := s.values.updateConstructed v fun cls => { cls with ancestors, finalized := true }
  show s.Retains { s with values }
  have hget : ∀ w, values.get? w = if v = w then (s.values.get? w).map f else s.values.get? w :=
    fun w => ValueStore.get?_update _ _ _ _
  have hfound (t : TableId) : values.table? t = s.values.table? t :=
    ValueStore.table?_update _ _ _ _
  have hkeeps : s.values.Keeps values := updateConstructed_keeps s.values v ancestors
  have hgrows := h.canonical.withValues hkeeps
  have hclass : ∀ w, values.class? w = s.values.class? w :=
    fun w => class?_updateConstructed _ _ _ _
  have htable (t : TableId) (ht : s.TableKnown t) : TableKnown { s with values } t :=
    (congrArg Option.isSome (hfound t)).trans ht
  refine h.withValues hkeeps (fun w hw => by rwa [hclass]) htable (fun w value hw => ?_)
    (fun t table ht => .inl ((hfound t).symm.trans ht))
    (ValueStore.missed_update (valueKnown_of_constructed? hv) _)
  rw [hget] at hw
  split at hw
  · obtain ⟨old, hold, rfl⟩ := Option.map_eq_some_iff.1 hw
    obtain ⟨hknown, hdata⟩ := (h.values _ old hold).mono hgrows.keeps htable
    refine .inr ?_
    obtain ⟨node, table, data⟩ := old
    cases data with
    | constructedClass cls =>
      exact ⟨hknown, hdata.1, hdata.2.1, fun u hu => hgrows.keeps.valueKnown u (hancestors u hu)⟩
    | _ => exact ⟨hknown, hdata⟩
  · exact .inl hw

end Closed

end Store

/-! ## Operations -/

/-- What a type of instances is made of is a class, and so is what is applied to types. -/
def Operation.Fits (s : Store) : Operation → Prop
  | .instanceOf cls | .newConstructedClass _ cls _ => (s.values.class? cls).isSome
  | .constructedInstanceOf cls => (s.values.constructed? cls).isSome
  | _ => True

/-- An operation on what is there keeps a store closed. -/
theorem Store.Closed.run {s : Store} (h : s.Closed) {op : Operation} (hop : op.Admissible s)
    (hfits : op.Fits s) : s.Retains (op.run s) := by
  have hgrows := h.canonical.run hop
  cases op with
  | instanceOf cls =>
    have hinterns : s.types.Interns (fun _ => True) (s.types.intern (.instanceOf cls)).2 :=
      .intern _ trivial
    exact h.withTypes hgrows (.instanceOf fun _ => hfits)
      (fun _ hentry => .inl (s.types.aliasTargets_intern _ ▸ hentry)) (hinterns.shapesUsed h.shapes)
  | constructedInstanceOf cls =>
    have hinterns :
        s.types.Interns (fun _ => True) (s.types.intern (.constructedInstanceOf cls)).2 :=
      .intern _ trivial
    exact h.withTypes hgrows (.constructedInstanceOf fun _ => hfits)
      (fun _ hentry => .inl (s.types.aliasTargets_intern _ ▸ hentry)) (hinterns.shapesUsed h.shapes)
  | reference value =>
    exact h.withPlainTypes hgrows (.intern _ (by simp) (by simp)) (.intern _ trivial)
  | function shape =>
    exact h.withPlainTypes hgrows (.intern _ (by simp) (by simp)) (.intern _ trivial)
  | union types => exact h.withPlainTypes hgrows (.union _ _) (.union _ (fun _ => trivial) _)
  | removeMember t member =>
    exact h.withPlainTypes hgrows (.removeMember _ _ _) (.removeMember _ (fun _ => trivial) _ _)
  | tuple elements => exact h.withPlainTypes hgrows (.tuple _ _) (.tuple _ (fun _ => trivial) _)
  | labeled label type =>
    exact h.withPlainTypes hgrows (.intern _ (by simp) (by simp)) (.intern _ trivial)
  | record fields =>
    exact h.withPlainTypes hgrows (.record _ _)
      (.record _ (fun _ _ => trivial) (fun _ => trivial) _)
  | parameter name node =>
    exact h.withPlainTypes hgrows (.intern _ (by simp) (by simp)) (.intern _ trivial)
  | aliasOf name tag =>
    exact h.withPlainTypes hgrows (.intern _ (by simp) (by simp)) (.intern _ trivial)
  | setAliasTarget t target =>
    refine h.withTypes hgrows (.ofTypes fun _ _ => ⟨id, id⟩) (fun entry hentry => ?_) h.shapes
    rcases List.mem_cons.1 hentry with rfl | hentry
    · exact .inr hop
    · exact .inl hentry
  | internList types => exact h.withPlainTypes hgrows (.internList _ _) (.internList _ _)
  | newVariable node name => exact h.alloc rfl (.untabled rfl trivial)
  | newProperty owner key node => exact h.newProperty hop key node
  | newFunction node => exact h.alloc rfl (.untabled rfl trivial)
  | newClass node kind name typeParameters => exact h.newClass node kind name hop
  | newConstructedClass node generic arguments =>
    exact h.newConstructedClass node hfits hop.2
  | newObject node => exact h.newObject node
  | newUndefined => exact h.alloc rfl (.untabled rfl trivial)
  | ensureMembers v => exact h.ensureMembers hop
  | addWrite v node | addRead v node => exact h.mapSlot hop _

/-- The empty store is closed. -/
theorem Store.Closed.new (prototypeName : Atom) : (Store.new prototypeName).Closed := by
  have hget (v : ValueId) : (Store.new prototypeName).values.get? v = none := by
    simp [Store.new, ValueStore.new, ValueStore.get?]
  refine ⟨.new prototypeName, ⟨fun t v hk => ?_, fun t v hk => ?_, fun v cls hv => ?_,
    fun x v hx => ?_⟩, rfl, fun v value hv => ?_, fun t table ht => ?_, rfl,
    fun entry hentry => ?_, fun id shape hid => ?_⟩
  · exact absurd (intrinsic_of_key?_new hk).1 (by simp [TypeKey.intrinsic?])
  · exact absurd (intrinsic_of_key?_new hk).1 (by simp [TypeKey.intrinsic?])
  · simp [ValueStore.constructed?, hget] at hv
  · simp [Store.new, ValueStore.new] at hx
  · simp [hget] at hv
  · simp [Store.new, ValueStore.new, ValueStore.table?] at ht
  · exact (List.not_mem_nil hentry).elim
  · simp [Store.new, TypeStore.new, TypeStore.shape?, Registry.empty, Registry.get?] at hid

end DocTypes
