import DocTypes.Proofs.Handles.Steps

/-!
# What a value store looks like after any operations

A `ValueOperation` makes a value, a property or a table, or notes a node at a slot. However a store
is built up by operations on values and tables that it gave out, its parts fit together
(`ValueStore.Represented`): values are numbered from the first on, a value has a table if and only
if the table says so, a property lies in a table under a key if and only if the property says so,
every class has its `prototype` in its own table, and a constructed class is found under what it
applies.

Operations only add (`ValueStore.Grows`): a value keeps its node, what it is and its table, a table
keeps its owner and its entries, and the two lists of a slot are continued. No operation is applied
to something that is not there.

## Main statement

* `ValueOperation.runAll_represents`: along every run of operations the parts fit together, and
  nothing is lost.
-/

namespace DocTypes

/-- The key of a property and the table it lies in. -/
def Value.heading? (v : Value) : Option (PropertyKey × TableId) :=
  match v.data with
  | .propertySlot key owner _ => some (key, owner)
  | _ => none

theorem Value.heading?_mapSlot (v : Value) (f : Slot → Slot) :
    (v.mapSlot f).heading? = v.heading? := by
  obtain ⟨node, table, data⟩ := v
  cases data <;> rfl

theorem Value.heading?_mapClass (v : Value) (f : ClassData → ClassData) :
    (v.mapClass f).heading? = v.heading? := by
  obtain ⟨node, table, data⟩ := v
  cases data <;> rfl

theorem Value.table_mapSlot (v : Value) (f : Slot → Slot) : (v.mapSlot f).table = v.table := by
  obtain ⟨node, table, data⟩ := v
  cases data <;> rfl

theorem Value.table_mapClass (v : Value) (f : ClassData → ClassData) :
    (v.mapClass f).table = v.table := by
  obtain ⟨node, table, data⟩ := v
  cases data <;> rfl

/-! ## Growing -/

/-- A value keeps its node, what it is and its table. Its slot is continued. -/
structure Value.Grows (old new : Value) : Prop where
  node : new.node = old.node
  data : (new.mapSlot fun _ => {}).data = (old.mapSlot fun _ => {}).data
  table : ∀ t, old.table = some t → new.table = some t
  slot : ∀ slot, old.slot? = some slot →
    ∃ slot', new.slot? = some slot' ∧ slot.writes <+: slot'.writes ∧ slot.reads <+: slot'.reads

namespace Value.Grows

variable {x y z : Value}

theorem refl (x : Value) : x.Grows x :=
  ⟨rfl, rfl, fun _ h => h, fun slot h => ⟨slot, h, List.prefix_rfl, List.prefix_rfl⟩⟩

theorem trans (h : x.Grows y) (h' : y.Grows z) : x.Grows z where
  node := h'.node.trans h.node
  data := h'.data.trans h.data
  table t ht := h'.table t (h.table t ht)
  slot old hold := by
    obtain ⟨middle, hmiddle, hwrites, hreads⟩ := h.slot old hold
    obtain ⟨new, hnew, hwrites', hreads'⟩ := h'.slot middle hmiddle
    exact ⟨new, hnew, hwrites.trans hwrites', hreads.trans hreads'⟩

/-- A value that gets its table. -/
theorem withTable (h : x.table = none) (t : TableId) : x.Grows { x with table := some t } := by
  obtain ⟨node, table, data⟩ := x
  cases h
  refine ⟨rfl, ?_, nofun, fun slot hslot => ⟨slot, hslot, List.prefix_rfl, List.prefix_rfl⟩⟩
  cases data <;> rfl

/-- A value whose slot is continued. -/
theorem mapSlot (x : Value) {f : Slot → Slot} (hwrites : ∀ slot, slot.writes <+: (f slot).writes)
    (hreads : ∀ slot, slot.reads <+: (f slot).reads) : x.Grows (x.mapSlot f) := by
  obtain ⟨node, table, data⟩ := x
  cases data with
  | variableSlot name slot | propertySlot key owner slot =>
    refine ⟨rfl, rfl, fun _ h => h, fun old hold => ⟨f slot, rfl, ?_⟩⟩
    cases hold
    exact ⟨hwrites slot, hreads slot⟩
  | _ => exact refl _

end Value.Grows

/-- A table keeps its owner and its entries, in their places. -/
structure MemberTable.Grows (old new : MemberTable) : Prop where
  owner : new.owner = old.owner
  entries : old.entries <+: new.entries

namespace ValueStore

/-- Every value and every table is still there and was only added to, and so were the
applications. -/
structure Grows (s s' : ValueStore) : Prop where
  values : ∀ v old, s.get? v = some old → ∃ new, s'.get? v = some new ∧ old.Grows new
  tables : ∀ t old, s.table? t = some old → ∃ new, s'.table? t = some new ∧ old.Grows new
  applications : ∀ (x : Application) (v : ValueId), s.applications[x]? = some v →
    s'.applications[x]? = some v
  prototypeName : s'.prototypeName = s.prototypeName

namespace Grows

variable {s s' s'' : ValueStore} {v : ValueId} {t : TableId}

theorem refl (s : ValueStore) : s.Grows s :=
  ⟨fun _ old h => ⟨old, h, .refl old⟩, fun _ old h => ⟨old, h, rfl, List.prefix_rfl⟩,
    fun _ _ h => h, rfl⟩

theorem trans (h : s.Grows s') (h' : s'.Grows s'') : s.Grows s'' where
  values v old hold := by
    obtain ⟨middle, hmiddle, hgrows⟩ := h.values v old hold
    obtain ⟨new, hnew, hgrows'⟩ := h'.values v middle hmiddle
    exact ⟨new, hnew, hgrows.trans hgrows'⟩
  tables t old hold := by
    obtain ⟨middle, hmiddle, howner, hentries⟩ := h.tables t old hold
    obtain ⟨new, hnew, howner', hentries'⟩ := h'.tables t middle hmiddle
    exact ⟨new, hnew, howner'.trans howner, hentries.trans hentries'⟩
  applications x v hv := h'.applications x v (h.applications x v hv)
  prototypeName := h'.prototypeName.trans h.prototypeName

theorem isSome (h : s.Grows s') (hv : (s.get? v).isSome) : (s'.get? v).isSome := by
  obtain ⟨old, hold⟩ := Option.isSome_iff_exists.1 hv
  obtain ⟨new, hnew, -⟩ := h.values v old hold
  exact Option.isSome_of_eq_some hnew

/-- A value keeps its table. -/
theorem tableOf? (h : s.Grows s') (ht : s.tableOf? v = some t) : s'.tableOf? v = some t := by
  obtain ⟨old, hold, htable⟩ := Option.bind_eq_some_iff.1 ht
  obtain ⟨new, hnew, hgrows⟩ := h.values v old hold
  exact Option.bind_eq_some_iff.2 ⟨new, hnew, hgrows.table t htable⟩

theorem alloc (s : ValueStore) (value : Value) : s.Grows (s.alloc value).2 where
  values _ old hold := ⟨old, get?_alloc_of_some value hold, .refl old⟩
  tables _ old hold := ⟨old, hold, rfl, List.prefix_rfl⟩
  applications _ _ hx := hx
  prototypeName := rfl

theorem update (s : ValueStore) (v : ValueId) {f : Value → Value}
    (hf : ∀ x, s.get? v = some x → x.Grows (f x)) : s.Grows (s.update v f) where
  values w old hold := by
    rw [get?_update, hold]
    split
    · next heq => exact ⟨f old, rfl, hf old (heq ▸ hold)⟩
    · exact ⟨old, rfl, .refl old⟩
  tables t old hold := ⟨old, (table?_update ..).trans hold, rfl, List.prefix_rfl⟩
  applications x w h := by
    rw [applications_update]
    exact h
  prototypeName := prototypeName_update s v f

/-- A table that is added. -/
theorem pushTable (s : ValueStore) (table : MemberTable) :
    s.Grows { s with tables := s.tables.push table } where
  values _ old hold := ⟨old, hold, .refl old⟩
  tables t old hold := by
    obtain ⟨hlt, heq⟩ := Array.getElem?_eq_some_iff.1 hold
    exact ⟨old, (Array.getElem?_push_lt hlt).trans (congrArg some heq), rfl, List.prefix_rfl⟩
  applications _ _ hx := hx
  prototypeName := rfl

/-- A table that is continued. -/
theorem modifyTable (s : ValueStore) (t : TableId) {f : MemberTable → MemberTable}
    (hf : ∀ x : MemberTable, x.Grows (f x)) :
    s.Grows { s with tables := s.tables.modify t.index f } where
  values _ old hold := ⟨old, hold, .refl old⟩
  tables u old hold := by
    rw [table?_modify, hold]
    split
    · exact ⟨f old, rfl, hf old⟩
    · exact ⟨old, rfl, rfl, List.prefix_rfl⟩
  applications _ _ hx := hx
  prototypeName := rfl

theorem ensureMembers (s : ValueStore) (v : ValueId) : s.Grows (s.ensureMembers v) := by
  unfold ValueStore.ensureMembers ensureTable
  split
  · exact refl s
  · next hnone =>
    refine (pushTable s { owner := v }).trans (update _ v fun x hx => .withTable ?_ _)
    rw [ValueStore.tableOf?, show s.get? v = some x from hx] at hnone
    exact hnone

theorem newPropertyIn (s : ValueStore) (t : TableId) (key : PropertyKey) (node : NodeRef) :
    s.Grows (s.newPropertyIn t key node).2 := by
  unfold ValueStore.newPropertyIn
  split
  · exact ⟨(refl s).values, (refl s).tables, fun _ _ hx => hx, rfl⟩
  · split
    · exact refl s
    · exact (alloc s _).trans (modifyTable _ t fun x => ⟨rfl, List.prefix_append _ _⟩)

theorem newProperty (s : ValueStore) (owner : ValueId) (key : PropertyKey) (node : NodeRef) :
    s.Grows (s.newProperty owner key node).2 :=
  (ensureMembers s owner).trans (newPropertyIn _ _ key node)

theorem newObject (s : ValueStore) (node : NodeRef) : s.Grows (s.newObject node).2 := by
  rw [newObject_eq]
  exact (alloc s _).trans (ensureMembers _ _)

/-- A class and its prototype are new, and so are their tables. -/
theorem newClass (s : ValueStore) (node : NodeRef) (kind : ClassKind) (name : String)
    (typeParameters : List TypeId) : s.Grows (s.newClass node kind name typeParameters).2 := by
  obtain ⟨hget, hfound, -, hname⟩ := s.newClass_tables node kind name typeParameters
  refine ⟨fun v old hold => ⟨old, ?_, .refl old⟩, fun t old hold => ⟨old, ?_, rfl, List.prefix_rfl⟩,
    fun x v h => ?_, hname⟩
  · have hne (n : Nat) (hn : s.size ≤ n) : v ≠ .atPosition n := by
      rintro rfl
      simp only [get?, ValueId.position?_atPosition, Option.bind_some,
        Array.getElem?_eq_none hn] at hold
      cases hold
    rw [hget, if_neg (hne _ (Nat.le_refl _)), if_neg (hne _ (Nat.le_succ _)), hold]
  · have hne (n : Nat) (hn : s.tables.size ≤ n) : t ≠ ⟨n⟩ := by
      rintro rfl
      simp [table?, Array.getElem?_eq_none hn] at hold
    rw [hfound, if_neg (hne _ (Nat.le_refl _)), if_neg (hne _ (Nat.le_succ _)), hold]
  · obtain ⟨-, -, happlications, -⟩ := s.newClass_spec node kind name typeParameters
    rw [happlications]
    exact h

theorem newConstructedClass (s : ValueStore) (node : NodeRef) (generic : ValueId)
    (arguments : ListId) : s.Grows (s.newConstructedClass node generic arguments).2 := by
  unfold ValueStore.newConstructedClass
  split
  · exact refl s
  · next hnone =>
    refine ⟨(alloc s _).values, (refl s).tables, fun x v hv => ?_, rfl⟩
    rw [Std.TreeMap.getElem?_insert]
    split
    · next hcmp =>
      rw [← Std.LawfulEqOrd.eq_of_compare hcmp, hnone] at hv
      cases hv
    · exact hv

end Grows

/-! ## Numbers -/

variable {s s' : ValueStore} {v : ValueId} {t : TableId}

theorem position?_of_get? (h : (s.get? v).isSome) : ∃ n, n < s.size ∧ v = .atPosition n := by
  obtain ⟨value, hvalue⟩ := Option.isSome_iff_exists.1 h
  obtain ⟨n, hn, hget⟩ := Option.bind_eq_some_iff.1 hvalue
  exact ⟨n, (Array.getElem?_eq_some_iff.1 hget).1, ValueId.position?_eq_some_iff.1 hn⟩

theorem isSome_get?_atPosition {n : Nat} (h : n < s.size) : (s.get? (.atPosition n)).isSome := by
  simp only [get?, ValueId.position?_atPosition, Option.bind_some, isSome_getElem?]
  exact h

/-- Values are numbered from the first on. -/
theorem isSome_get?_iff (s : ValueStore) (v : ValueId) :
    (s.get? v).isSome ↔ ValueId.first ≤ v.index ∧ v.index < ValueId.first + s.size := by
  constructor
  · intro h
    obtain ⟨n, hn, rfl⟩ := position?_of_get? h
    simp only [ValueId.atPosition]
    omega
  · rintro ⟨hfirst, hlt⟩
    have hv : v = .atPosition (v.index - ValueId.first) := by
      obtain ⟨index⟩ := v
      simp only [ValueId.atPosition, ValueId.mk.injEq] at hfirst ⊢
      omega
    rw [hv]
    exact isSome_get?_atPosition (by omega)

/-- Tables are numbered from zero on. -/
theorem isSome_table?_iff (s : ValueStore) (t : TableId) :
    (s.table? t).isSome ↔ t.index < s.tables.size := by
  rw [table?, isSome_getElem?]

theorem isSome_get?_of_application? {x : Application} (h : s.application? v = some x) :
    (s.get? v).isSome := by
  obtain ⟨cls, hcls, -⟩ := Option.map_eq_some_iff.1 h
  obtain ⟨value, hvalue, -⟩ := Option.bind_eq_some_iff.1 hcls
  exact Option.isSome_of_eq_some hvalue

/-! ## Headings -/

/-- The key of a property and the table it lies in. -/
def heading? (s : ValueStore) (v : ValueId) : Option (PropertyKey × TableId) :=
  (s.get? v).bind Value.heading?

theorem isSome_get?_of_heading? {heading : PropertyKey × TableId}
    (h : s.heading? v = some heading) : (s.get? v).isSome := by
  obtain ⟨value, hvalue, -⟩ := Option.bind_eq_some_iff.1 h
  exact Option.isSome_of_eq_some hvalue

/-- A class is no property. -/
theorem heading?_ne_some_of_class? {cls : ClassData} (h : s.class? v = some cls)
    (heading : PropertyKey × TableId) : s.heading? v ≠ some heading := by
  obtain ⟨⟨node, table, data⟩, hvalue, hcls⟩ := Option.bind_eq_some_iff.1 h
  rw [heading?, hvalue]
  cases data with
  | classValue => exact nofun
  | _ => cases hcls

theorem heading?_update {f : Value → Value} (h : ∀ x, (f x).heading? = x.heading?) (v w : ValueId) :
    (s.update v f).heading? w = s.heading? w := by
  simp only [heading?, get?_update]
  split
  · cases s.get? w <;> simp [h]
  · rfl

theorem heading?_alloc (s : ValueStore) (value : Value) (v : ValueId) :
    (s.alloc value).2.heading? v =
      if v = (s.alloc value).1 then value.heading? else s.heading? v := by
  simp only [heading?, get?_alloc]
  split <;> rfl

theorem tableOf?_alloc {value : Value} (h : value.table = none) (v : ValueId) :
    (s.alloc value).2.tableOf? v = s.tableOf? v := by
  simp only [tableOf?, get?_alloc]
  split
  · next hv => simp [h, hv, get?_fst_alloc]
  · rfl

/-! ## Links -/

/-- The owner of a table. -/
def owner? (s : ValueStore) (t : TableId) : Option ValueId := (s.table? t).map (·.owner)

/-- The property of a table at a key. -/
def member? (s : ValueStore) (t : TableId) (key : PropertyKey) : Option ValueId :=
  (s.table? t).bind (·.property? key)

/-- Values and tables know each other, and so do tables and properties. -/
structure Linked (s : ValueStore) : Prop where
  owned : ∀ v t, s.tableOf? v = some t ↔ s.owner? t = some v
  filed : ∀ t key property, s.member? t key = some property ↔ s.heading? property = some (key, t)

namespace Linked

/-- Links depend on what values say of tables, and on the tables. -/
theorem of_eq (h : s.Linked) (htable : ∀ v, s'.tableOf? v = s.tableOf? v)
    (hheading : ∀ v, s'.heading? v = s.heading? v) (hfound : ∀ t, s'.table? t = s.table? t) :
    s'.Linked where
  owned v t := by
    rw [htable, owner?, hfound]
    exact h.owned v t
  filed t key property := by
    rw [hheading, member?, hfound]
    exact h.filed t key property

theorem alloc (h : s.Linked) {value : Value} (htable : value.table = none)
    (hheading : value.heading? = none) : (s.alloc value).2.Linked := by
  refine h.of_eq (tableOf?_alloc htable) (fun v => ?_) fun _ => rfl
  rw [heading?_alloc]
  split
  · next hv => rw [hheading, hv, heading?, get?_fst_alloc, Option.bind_none]
  · rfl

theorem update (h : s.Linked) (v : ValueId) {f : Value → Value}
    (htable : ∀ x, (f x).table = x.table) (hheading : ∀ x, (f x).heading? = x.heading?) :
    (s.update v f).Linked :=
  h.of_eq (tableOf?_update htable v) (heading?_update hheading v) (table?_update s v f)

/-- A table for a value that has none. -/
theorem allocTable (h : s.Linked) {owner : ValueId} (howner : (s.get? owner).isSome)
    (hnone : s.tableOf? owner = none) : (s.allocTable owner).2.Linked := by
  let new : TableId := ⟨s.tables.size⟩
  have hfresh : s.table? new = none := Array.getElem?_eq_none (Nat.le_refl _)
  have htable := tableOf?_allocTable howner
  have hfound := s.table?_allocTable owner
  have hheading (v : ValueId) : (s.allocTable owner).2.heading? v = s.heading? v :=
    heading?_update (s := { s with tables := s.tables.push { owner } })
      (f := fun value => { value with table := some new }) (fun _ => rfl) owner v
  refine ⟨fun v t => ?_, fun t key property => ?_⟩
  · rw [htable, owner?, hfound]
    by_cases hv : owner = v
    · subst hv
      rw [if_pos rfl]
      by_cases ht : t = new
      · rw [if_pos ht, ht]
        simp [new]
      · rw [if_neg ht]
        have hother : ¬ (s.table? t).map (·.owner) = some owner := fun howned => by
          rw [(h.owned owner t).2 howned] at hnone
          cases hnone
        simp only [Option.some.injEq, hother, iff_false]
        exact Ne.symm ht
    · rw [if_neg hv, h.owned, owner?]
      split
      · next ht =>
        rw [ht, hfresh]
        simp [hv]
      · exact Iff.rfl
  · rw [hheading, ← h.filed, member?, member?, hfound]
    split
    · next ht =>
      rw [ht, hfresh]
      simp [MemberTable.property?]
    · exact Iff.rfl

theorem ensureMembers (h : s.Linked) (hv : (s.get? v).isSome) : (s.ensureMembers v).Linked := by
  unfold ValueStore.ensureMembers ensureTable
  split
  · exact h
  · next hnone => exact h.allocTable hv hnone

/-- A property in a table. -/
theorem newPropertyIn (h : s.Linked) (ht : (s.table? t).isSome) (key : PropertyKey)
    (node : NodeRef) : (s.newPropertyIn t key node).2.Linked := by
  obtain ⟨table, htable⟩ := Option.isSome_iff_exists.1 ht
  cases hnone : table.property? key with
  | some property =>
    rw [newPropertyIn_of_some node htable hnone]
    exact h
  | none =>
    rw [newPropertyIn_of_none node htable hnone]
    let made := s.allocProperty t key node
    let s' : ValueStore := { made.2 with tables := s.tables.modify t.index (.insert key made.1) }
    show s'.Linked
    have htableOf (v : ValueId) : s'.tableOf? v = s.tableOf? v := tableOf?_alloc rfl v
    have hheading (v : ValueId) :
        s'.heading? v = if v = made.1 then some (key, t) else s.heading? v := heading?_alloc _ _ _
    have hfresh : s.heading? made.1 = none := by
      rw [heading?, show s.get? made.1 = none from get?_fst_alloc _ _, Option.bind_none]
    have hfound (u : TableId) : s'.table? u =
        if t = u then (s.table? u).map (.insert key made.1) else s.table? u :=
          made.2.table?_modify ..
    refine ⟨fun v u => ?_, fun u other property => ?_⟩
    · rw [htableOf, h.owned, owner?, owner?, hfound]
      split
      · rw [Option.map_map]
        rfl
      · exact Iff.rfl
    · rw [hheading, member?, hfound]
      by_cases hu : t = u
      · subst hu
        rw [if_pos rfl, htable, Option.map_some, Option.bind_some]
        have hold := h.filed t other property
        rw [member?, htable, Option.bind_some] at hold
        rw [property?_insert]
        by_cases hp : property = made.1
        · -- the new property is in no table yet, and its key is free
          subst hp
          rw [hfresh] at hold
          by_cases hkey : other = key
          · simp [hkey, hnone]
          · simp [hkey, hold, Ne.symm hkey]
        · rw [if_neg hp, ← hold]
          by_cases hkey : other = key
          · simp [hkey, hnone, Ne.symm hp]
          · simp [hkey]
      · rw [if_neg hu]
        have hold := h.filed u other property
        rw [member?] at hold
        rw [hold]
        split
        · next hp =>
          subst hp
          simp [hfresh, hu]
        · exact Iff.rfl

/-- The table that is ensured is there. -/
theorem isSome_table?_ensureTable (h : s.Linked) (hv : (s.get? v).isSome) :
    ((s.ensureMembers v).table? (s.ensureTable v).1).isSome := by
  have howned := ((h.ensureMembers hv).owned v _).1 (tableOf?_ensureTable hv)
  exact Option.isSome_map.symm.trans (Option.isSome_of_eq_some howned)

/-- The property that is made is there. -/
theorem isSome_get?_newPropertyIn (h : s.Linked) (ht : (s.table? t).isSome) (key : PropertyKey)
    (node : NodeRef) :
    ((s.newPropertyIn t key node).2.get? (s.newPropertyIn t key node).1).isSome := by
  obtain ⟨table, htable, hproperty⟩ := property?_newPropertyIn ht key node
  have hentry : (s.newPropertyIn t key node).2.member? t key =
      some (s.newPropertyIn t key node).1 := Option.bind_eq_some_iff.2 ⟨table, htable, hproperty⟩
  exact isSome_get?_of_heading? (((h.newPropertyIn ht key node).filed t key _).1 hentry)

theorem newObject (h : s.Linked) (node : NodeRef) : (s.newObject node).2.Linked := by
  rw [newObject_eq]
  exact (h.alloc rfl rfl).ensureMembers (isSome_get?_alloc_self s _)

theorem newClass (h : s.Linked) (node : NodeRef) (kind : ClassKind) (name : String)
    (typeParameters : List TypeId) : (s.newClass node kind name typeParameters).2.Linked := by
  have hmade : (s.allocClass node kind name typeParameters).2.Linked := h.alloc rfl rfl
  have hknown : ((s.allocClass node kind name typeParameters).2.get?
      (s.allocClass node kind name typeParameters).1).isSome := isSome_get?_alloc_self s _
  have hensured := hmade.ensureMembers hknown
  have htable := hmade.isSome_table?_ensureTable hknown
  have hprototype := hensured.isSome_get?_newPropertyIn htable (.name s.prototypeName) node
  rw [newClass_eq]
  exact ((hensured.newPropertyIn htable _ node).ensureMembers hprototype).update _
    (fun x => x.table_mapClass _) fun x => x.heading?_mapClass _

theorem newConstructedClass (h : s.Linked) (node : NodeRef) (generic : ValueId)
    (arguments : ListId) : (s.newConstructedClass node generic arguments).2.Linked := by
  unfold ValueStore.newConstructedClass
  split
  · exact h
  · let constructed : Value := { node, data := .constructedClass { generic, arguments } }
    have hmade : (s.alloc constructed).2.Linked := h.alloc rfl rfl
    exact hmade.of_eq (fun _ => rfl) (fun _ => rfl) fun _ => rfl

end Linked

/-! ## What fits together -/

/-- The `prototype` of a class lies in the table of the class, and has a table too. -/
structure ClassFits (s : ValueStore) (v : ValueId) (cls : ClassData) : Prop where
  statics : ∃ t, s.tableOf? v = some t ∧ s.member? t (.name s.prototypeName) = some cls.prototype
  prototype : (s.tableOf? cls.prototype).isSome

/-- The parts of a store fit together, and nothing was asked for that is not there. -/
structure Represented (s : ValueStore) : Prop where
  linked : s.Linked
  classes : ∀ v cls, s.class? v = some cls → s.ClassFits v cls
  applied : ∀ (x : Application) (v : ValueId),
    s.applications[x]? = some v ↔ s.application? v = some x
  missed : s.missed = []

theorem Grows.member? (h : s.Grows s') {key : PropertyKey} {property : ValueId}
    (hp : s.member? t key = some property) : s'.member? t key = some property := by
  obtain ⟨table, htable, hproperty⟩ := Option.bind_eq_some_iff.1 hp
  obtain ⟨new, hnew, -, rest, hrest⟩ := h.tables t table htable
  refine Option.bind_eq_some_iff.2 ⟨new, hnew, ?_⟩
  rw [MemberTable.property?] at hproperty ⊢
  rw [← hrest, List.lookup_append, hproperty, Option.some_or]

theorem Grows.classFits (h : s.Grows s') {cls : ClassData} (hcls : s.ClassFits v cls) :
    s'.ClassFits v cls := by
  obtain ⟨⟨t, ht, hentry⟩, hprototype⟩ := hcls
  obtain ⟨u, hu⟩ := Option.isSome_iff_exists.1 hprototype
  exact ⟨⟨t, h.tableOf? ht, h.prototypeName ▸ h.member? hentry⟩,
    Option.isSome_of_eq_some (h.tableOf? hu)⟩

/-- A new class fits. -/
theorem classFits_newClass (s : ValueStore) (node : NodeRef) (kind : ClassKind) (name : String)
    (typeParameters : List TypeId) {cls : ClassData}
    (hcls : (s.newClass node kind name typeParameters).2.class?
      (s.newClass node kind name typeParameters).1 = some cls) :
    (s.newClass node kind name typeParameters).2.ClassFits
      (s.newClass node kind name typeParameters).1 cls := by
  obtain ⟨hget, hfound, -, hname⟩ := s.newClass_tables node kind name typeParameters
  have hmade : (s.newClass node kind name typeParameters).1 = .atPosition s.size := rfl
  have hne : ValueId.atPosition (s.size + 1) ≠ .atPosition s.size := by simp [ValueId.atPosition]
  rw [hmade] at hcls ⊢
  rw [class?, hget, if_pos rfl] at hcls
  obtain rfl := Option.some.inj hcls
  refine ⟨⟨⟨s.tables.size⟩, ?_, ?_⟩, ?_⟩
  · rw [tableOf?, hget, if_pos rfl]
    rfl
  · rw [member?, hfound, if_pos rfl, hname]
    simp [MemberTable.property?]
  · rw [tableOf?, hget, if_neg hne, if_pos rfl]
    rfl

namespace Represented

theorem new (prototypeName : Atom) : (ValueStore.new prototypeName).Represented := by
  have hget (v : ValueId) : (ValueStore.new prototypeName).get? v = none := by
    simp [ValueStore.get?, ValueStore.new]
  have htable (t : TableId) : (ValueStore.new prototypeName).table? t = none := by
    simp [ValueStore.table?, ValueStore.new]
  refine ⟨⟨fun v t => ?_, fun t key property => ?_⟩, fun v cls hcls => ?_, fun x v => ?_, rfl⟩
  · simp [tableOf?, owner?, hget, htable]
  · simp [member?, heading?, hget, htable]
  · simp [class?, hget] at hcls
  · simp [ValueStore.new, application?, constructed?, get?]

/-- The parts still fit together after an addition that keeps the links, whose new classes fit and
whose applications are those of the constructed classes. -/
theorem extend (h : s.Represented) (hgrows : s.Grows s') (hlinked : s'.Linked)
    (hclasses : ∀ v cls, s'.class? v = some cls → s.class? v = some cls ∨ s'.ClassFits v cls)
    (happlied : ∀ (x : Application) (v : ValueId),
      s'.applications[x]? = some v ↔ s'.application? v = some x)
    (hmissed : s'.missed = s.missed) : s'.Represented where
  linked := hlinked
  classes v cls hcls :=
    (hclasses v cls hcls).elim (fun hold => hgrows.classFits (h.classes v cls hold)) id
  applied := happlied
  missed := hmissed.trans h.missed

/-- An addition that makes no class and applies none. -/
theorem extend_of_sameClasses (h : s.Represented) (hgrows : s.Grows s') (hlinked : s'.Linked)
    (hsame : s.SameClasses s') (hmissed : s'.missed = s.missed) : s'.Represented := by
  refine h.extend hgrows hlinked (fun v cls hcls => .inl ((hsame.class? v).symm.trans hcls))
    (fun x v => ?_) hmissed
  rw [hsame.applications, h.applied, application?, application?, hsame.constructed?]

/-- A new class. -/
theorem newClass (h : s.Represented) (node : NodeRef) (kind : ClassKind) (name : String)
    (typeParameters : List TypeId) :
    (s.newClass node kind name typeParameters).2.Represented := by
  obtain ⟨⟨_, hclass⟩, hconstructed, happlications, -⟩ :=
    s.newClass_spec node kind name typeParameters
  obtain ⟨-, -, hmissed, -⟩ := s.newClass_tables node kind name typeParameters
  refine h.extend (.newClass s node kind name typeParameters)
    (h.linked.newClass node kind name typeParameters) (fun v cls hcls => ?_) (fun x v => ?_) hmissed
  · by_cases hv : v = (s.newClass node kind name typeParameters).1
    · subst hv
      exact .inr (s.classFits_newClass node kind name typeParameters hcls)
    · left
      rwa [hclass, if_neg hv] at hcls
  · rw [happlications, h.applied, application?, application?, hconstructed]

/-- A generic class that is applied. -/
theorem newConstructedClass (h : s.Represented) (node : NodeRef) (generic : ValueId)
    (arguments : ListId) : (s.newConstructedClass node generic arguments).2.Represented := by
  refine h.extend (.newConstructedClass s node generic arguments)
    (h.linked.newConstructedClass node generic arguments) ?_ ?_
    (s.tables_newConstructedClass node generic arguments).2
  all_goals
    unfold ValueStore.newConstructedClass
    split
  · exact fun v cls hcls => .inl hcls
  · exact fun v cls hcls => .inl ((class?_alloc rfl v).symm.trans hcls)
  · exact h.applied
  · next hnone =>
    intro x v
    let new := (s.alloc { node, data := .constructedClass { generic, arguments } }).1
    have happlication :
        (s.alloc { node, data := .constructedClass { generic, arguments } }).2.application? v =
          if v = new then some ⟨generic, arguments⟩ else s.application? v := by
      simp only [application?, constructed?, get?_alloc]
      split <;> rfl
    have hfresh {x : Application} : s.application? new ≠ some x := by
      intro hx
      have hnew := isSome_get?_of_application? hx
      rw [get?_fst_alloc] at hnew
      cases hnew
    show (s.applications.insert ⟨generic, arguments⟩ new)[x]? = some v ↔ _ = some x
    rw [Std.TreeMap.getElem?_insert]
    show _ ↔ (s.alloc _).2.application? v = some x
    rw [happlication]
    by_cases hx : (⟨generic, arguments⟩ : Application) = x
    · -- no other value applies the class to the list
      subst hx
      have hother : s.application? v ≠ some ⟨generic, arguments⟩ := by
        intro hold
        rw [(h.applied _ v).2 hold] at hnone
        cases hnone
      by_cases hv : v = new
      · simp [hv]
      · simp [hv, hother, Ne.symm hv]
    · have hcmp : compare (⟨generic, arguments⟩ : Application) x ≠ .eq :=
        fun hc => hx (Std.LawfulEqOrd.eq_of_compare hc)
      rw [if_neg hcmp, h.applied]
      by_cases hv : v = new
      · simp [hv, hfresh, hx]
      · rw [if_neg hv]

end Represented

end ValueStore

/-! ## Operations -/

/-- A step that makes a value or a table, or notes a node at a slot. -/
inductive ValueOperation where
  | newVariable (node : NodeRef) (name : Atom)
  | newPropertyIn (t : TableId) (key : PropertyKey) (node : NodeRef)
  | newFunction (node : NodeRef)
  | newClass (node : NodeRef) (kind : ClassKind) (name : String) (typeParameters : List TypeId)
  | newConstructedClass (node : NodeRef) (generic : ValueId) (arguments : ListId)
  | newObject (node : NodeRef)
  | newUndefined
  | ensureTable (value : ValueId)
  | addWrite (value : ValueId) (node : NodeRef)
  | addRead (value : ValueId) (node : NodeRef)

namespace ValueOperation

/-- What an operation gives back. -/
inductive Result where
  | value (v : ValueId)
  | table (t : TableId)
  | nothing
  deriving DecidableEq, Repr

/-- What an operation gives back, and the store after it. -/
def apply (s : ValueStore) : ValueOperation → Result × ValueStore
  | newVariable node name => (s.newVariable node name).map .value id
  | newPropertyIn t key node => (s.newPropertyIn t key node).map .value id
  | newFunction node => (s.newFunction node).map .value id
  | newClass node kind name typeParameters =>
    (s.newClass node kind name typeParameters).map .value id
  | newConstructedClass node generic arguments =>
    (s.newConstructedClass node generic arguments).map .value id
  | newObject node => (s.newObject node).map .value id
  | newUndefined => s.newUndefined.map .value id
  | ensureTable value => (s.ensureTable value).map .table id
  | addWrite value node => (.nothing, s.addWrite value node)
  | addRead value node => (.nothing, s.addRead value node)

/-- The store after an operation. -/
def run (s : ValueStore) (op : ValueOperation) : ValueStore := (op.apply s).2

/-- The values and tables that an operation is applied to are there. -/
def Given (s : ValueStore) : ValueOperation → Prop
  | newPropertyIn t _ _ => (s.table? t).isSome
  | newConstructedClass _ v _ | ensureTable v | addWrite v _ | addRead v _ => (s.get? v).isSome
  | _ => True

/-- The store after operations, from the left. -/
def runAll : ValueStore → List ValueOperation → ValueStore
  | s, [] => s
  | s, op :: ops => runAll (op.run s) ops

/-- Every operation is applied to values and tables that are there when its turn comes. -/
def AllGiven : ValueStore → List ValueOperation → Prop
  | _, [] => True
  | s, op :: ops => op.Given s ∧ AllGiven (op.run s) ops

/-- The value that is given back has the next number, or was there, and then nothing changes. -/
def GivesValue (s : ValueStore) (r : ValueId × ValueStore) : Prop :=
  r.1 = .atPosition s.size ∧ s.size < r.2.size ∨ (s.get? r.1).isSome ∧ r.2 = s

/-- The table that is given back has the next number, or was there, and then nothing changes. -/
def GivesTable (s : ValueStore) (r : TableId × ValueStore) : Prop :=
  r.1 = ⟨s.tables.size⟩ ∧ s.tables.size < r.2.tables.size ∧ r.2.size = s.size ∨
    (s.table? r.1).isSome ∧ r.2 = s

/-- What an operation gives back is new under the next number, or was there. -/
def Numbers (s : ValueStore) (op : ValueOperation) : Prop :=
  match op.apply s with
  | (.value v, s') => GivesValue s (v, s')
  | (.table t, s') => GivesTable s (t, s')
  | (.nothing, s') => s'.size = s.size ∧ s'.tables = s.tables

variable {s : ValueStore}

theorem grows (s : ValueStore) (op : ValueOperation) : s.Grows (op.run s) := by
  cases op with
  | newVariable | newFunction | newUndefined => exact .alloc s _
  | newPropertyIn t key node => exact .newPropertyIn s t key node
  | newClass node kind name typeParameters => exact .newClass s node kind name typeParameters
  | newConstructedClass node generic arguments =>
    exact .newConstructedClass s node generic arguments
  | newObject node => exact .newObject s node
  | ensureTable value => exact .ensureMembers s value
  | addWrite value node =>
    exact .update s value fun x _ =>
      .mapSlot x (fun _ => List.prefix_append _ _) fun _ => List.prefix_rfl
  | addRead value node =>
    exact .update s value fun x _ =>
      .mapSlot x (fun _ => List.prefix_rfl) fun _ => List.prefix_append _ _

/-- The parts of a store still fit together after an operation. -/
theorem represented (h : s.Represented) {op : ValueOperation} (hop : op.Given s) :
    (op.run s).Represented := by
  have hgrows := op.grows s
  cases op with
  | newVariable | newFunction | newUndefined =>
    exact h.extend_of_sameClasses hgrows (h.linked.alloc rfl rfl) (.alloc s rfl rfl) rfl
  | newPropertyIn t key node =>
    exact h.extend_of_sameClasses hgrows (h.linked.newPropertyIn hop key node)
      (.newPropertyIn s t key node) (ValueStore.missed_newPropertyIn hop key node)
  | newClass node kind name typeParameters => exact h.newClass node kind name typeParameters
  | newConstructedClass node generic arguments => exact h.newConstructedClass node generic arguments
  | newObject node =>
    exact h.extend_of_sameClasses hgrows (h.linked.newObject node) (.newObject s node)
      (s.missed_newObject node)
  | ensureTable value =>
    exact h.extend_of_sameClasses hgrows (h.linked.ensureMembers hop) (.ensureMembers s value)
      (ValueStore.missed_ensureTable hop)
  | addWrite value node | addRead value node =>
    exact h.extend_of_sameClasses hgrows
      (h.linked.update value (fun x => x.table_mapSlot _) fun x => x.heading?_mapSlot _)
      (.mapSlot s value _) (ValueStore.missed_update hop _)

/-- A new value under the next number. -/
theorem lt_size_of_isSome {s' : ValueStore} (h : (s'.get? (.atPosition s.size)).isSome) :
    s.size < s'.size := by
  have hlt := ((s'.isSome_get?_iff _).1 h).2
  simp only [ValueId.atPosition] at hlt
  omega

theorem numbers (h : s.Represented) {op : ValueOperation} (hop : op.Given s) : op.Numbers s := by
  cases op with
  | newVariable | newFunction | newUndefined =>
    exact .inl ⟨rfl, lt_size_of_isSome (s.isSome_get?_alloc_self _)⟩
  | newPropertyIn t key node =>
    obtain ⟨table, htable⟩ := Option.isSome_iff_exists.1 hop
    show GivesValue s (s.newPropertyIn t key node)
    cases hproperty : table.property? key with
    | some property =>
      rw [ValueStore.newPropertyIn_of_some node htable hproperty]
      have hentry : s.member? t key = some property :=
        Option.bind_eq_some_iff.2 ⟨table, htable, hproperty⟩
      exact .inr ⟨ValueStore.isSome_get?_of_heading?
        ((h.linked.filed t key property).1 hentry), rfl⟩
    | none =>
      rw [ValueStore.newPropertyIn_of_none node htable hproperty]
      exact .inl ⟨rfl, lt_size_of_isSome (s.isSome_get?_alloc_self _)⟩
  | newClass node kind name typeParameters =>
    obtain ⟨hget, -⟩ := s.newClass_tables node kind name typeParameters
    refine .inl ⟨rfl, lt_size_of_isSome ?_⟩
    show ((s.newClass node kind name typeParameters).2.get? _).isSome
    rw [hget, if_pos rfl]
    rfl
  | newConstructedClass node generic arguments =>
    show GivesValue s (s.newConstructedClass node generic arguments)
    unfold ValueStore.newConstructedClass
    cases happlied : s.applications[Application.mk generic arguments]? with
    | some v =>
        exact .inr ⟨ValueStore.isSome_get?_of_application? ((h.applied _ v).1 happlied), rfl⟩
    | none => exact .inl ⟨rfl, lt_size_of_isSome (s.isSome_get?_alloc_self _)⟩
  | newObject node =>
    show GivesValue s (s.newObject node)
    rw [s.newObject_eq]
    refine .inl ⟨rfl, lt_size_of_isSome ?_⟩
    exact (ValueStore.isSome_get?_ensureMembers _ _ _).trans (s.isSome_get?_alloc_self _)
  | ensureTable v =>
    show GivesTable s (s.ensureTable v)
    unfold ValueStore.ensureTable
    cases htable : s.tableOf? v with
    | some t =>
      have howner := (h.linked.owned v t).1 htable
      exact .inr ⟨Option.isSome_map.symm.trans (Option.isSome_of_eq_some howner), rfl⟩
    | none =>
      refine .inl ⟨rfl, ?_, ValueStore.size_update _ _ _⟩
      show _ < (ValueStore.update _ _ _).tables.size
      rw [ValueStore.tables_update, Array.size_push]
      exact Nat.lt_succ_self _
  | addWrite value node | addRead value node =>
    exact ⟨s.size_update _ _, s.tables_update _ _⟩

theorem grows_runAll (s : ValueStore) (ops : List ValueOperation) : s.Grows (runAll s ops) := by
  induction ops generalizing s with
  | nil => exact .refl s
  | cons op ops ih => exact (op.grows s).trans (ih _)

theorem represented_runAll (h : s.Represented) {ops : List ValueOperation}
    (hops : AllGiven s ops) : (runAll s ops).Represented := by
  induction ops generalizing s with
  | nil => exact h
  | cons op ops ih => exact ih (represented h hops.1) hops.2

/-- **A store is what its operations made.** Take a store that operations made from the empty one,
each on values and tables that are there, and any further operations of this sort.

No operation is applied to something that is not there. Values are numbered from the first on and
tables from zero on, and what an operation gives back has the next number or was there. A value has
a table if and only if the table says that it belongs to the value. A table has a property under a
key if and only if the property says that it lies in this table under this key. Every class has a
table in which its `prototype` lies under its name, and the `prototype` has a table of its own. The
constructed classes are what the generic classes are applied to, one for each list.

The further operations only add to the values and to the tables. -/
theorem runAll_represents (prototypeName : Atom) (ops later : List ValueOperation)
    (hops : AllGiven (.new prototypeName) ops)
    (hlater : AllGiven (runAll (.new prototypeName) ops) later) :
    let s := runAll (.new prototypeName) ops
    let s' := runAll s later
    s.missed = [] ∧
      (∀ v, (s.get? v).isSome ↔ ValueId.first ≤ v.index ∧ v.index < ValueId.first + s.size) ∧
      (∀ t, (s.table? t).isSome ↔ t.index < s.tables.size) ∧
      (∀ op : ValueOperation, op.Given s → op.Numbers s) ∧
      (∀ v t, s.tableOf? v = some t ↔ s.owner? t = some v) ∧
      (∀ t key property,
        s.member? t key = some property ↔ s.heading? property = some (key, t)) ∧
      (∀ v cls, s.class? v = some cls → ∃ t u, s.tableOf? v = some t ∧
        s.member? t (.name prototypeName) = some cls.prototype ∧
        s.tableOf? cls.prototype = some u ∧ u ≠ t) ∧
      (∀ (x : Application) (v : ValueId),
        s.applications[x]? = some v ↔ s.application? v = some x) ∧
      s.Grows s' ∧ s'.missed = [] := by
  intro s s'
  have hs : s.Represented := represented_runAll (.new prototypeName) hops
  have hs' : s'.Represented := represented_runAll hs hlater
  have hname : s.prototypeName = prototypeName :=
    (grows_runAll (.new prototypeName) ops).prototypeName
  refine ⟨hs.missed, s.isSome_get?_iff, s.isSome_table?_iff, fun op hop => numbers hs hop,
    hs.linked.owned, hs.linked.filed, fun v cls hcls => ?_, hs.applied, grows_runAll s later,
    hs'.missed⟩
  obtain ⟨⟨t, ht, hentry⟩, hprototype⟩ := hs.classes v cls hcls
  obtain ⟨u, hu⟩ := Option.isSome_iff_exists.1 hprototype
  refine ⟨t, u, ht, hname ▸ hentry, hu, ?_⟩
  -- the class and its `prototype` are two values, and a table belongs to one
  rintro rfl
  have howner := (hs.linked.owned v u).1 ht
  have hsame : cls.prototype = v := Option.some.inj
    (((hs.linked.owned cls.prototype u).1 hu).symm.trans howner)
  have hheading := (hs.linked.filed u _ cls.prototype).1 hentry
  rw [hsame] at hheading
  exact ValueStore.heading?_ne_some_of_class? hcls _ hheading

/-- A class, a static property that is asked for twice and written to, and the class applied. -/
def boxMembers : List ValueOperation :=
  [.newClass none .ordinary "Box" [⟨1000⟩], .newPropertyIn ⟨0⟩ (.name ⟨7⟩) none,
    .newPropertyIn ⟨0⟩ (.name ⟨7⟩) none, .ensureTable ⟨1002⟩,
    .newConstructedClass none ⟨1000⟩ ⟨1⟩, .addWrite ⟨1002⟩ (some 3)]

/-- The static property has the third table, also after the class is applied again. -/
theorem boxMembers_represents :
    let s := runAll (.new ⟨0⟩) boxMembers
    let later : List ValueOperation :=
      [.newConstructedClass none ⟨1000⟩ ⟨1⟩, .addRead ⟨1002⟩ (some 4), .newObject none]
    AllGiven (.new ⟨0⟩) boxMembers ∧ AllGiven s later ∧ s.tableOf? ⟨1002⟩ = some ⟨2⟩ ∧
      s.heading? ⟨1002⟩ = some (.name ⟨7⟩, ⟨0⟩) ∧ (runAll s later).missed = [] := by
  intro s later
  have hops : AllGiven (.new ⟨0⟩) boxMembers := ⟨trivial, rfl, rfl, rfl, rfl, rfl, trivial⟩
  have hlater : AllGiven s later := ⟨rfl, rfl, trivial, trivial⟩
  obtain ⟨-, -, -, -, howned, hfiled, -, -, -, hmissed⟩ :=
    runAll_represents ⟨0⟩ boxMembers later hops hlater
  exact ⟨hops, hlater, (howned _ _).2 rfl, (hfiled _ _ _).1 rfl, hmissed⟩

end ValueOperation

end DocTypes
