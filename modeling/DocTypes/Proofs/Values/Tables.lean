import DocTypes.Proofs.Values.Changes

/-!
# What operations do to tables

The tables of a store change in two ways only: a value gets a table, and a table gets a property.
The lemmas here say what is found under each number after that, for the values and for the tables,
and that nothing is noted as missing if what is named is there.

## Main statements

* `ValueStore.newClass_tables`: a new class, its `prototype` and their tables.
-/

namespace DocTypes

namespace ValueStore

variable {s : ValueStore} {v owner : ValueId} {t : TableId} {key : PropertyKey}

/-! ## Updates -/

theorem tables_update (s : ValueStore) (v : ValueId) (f : Value → Value) :
    (s.update v f).tables = s.tables := by
  unfold update
  split <;> rfl

theorem table?_update (s : ValueStore) (v : ValueId) (f : Value → Value) (t : TableId) :
    (s.update v f).table? t = s.table? t := by
  rw [table?, tables_update]
  rfl

theorem prototypeName_update (s : ValueStore) (v : ValueId) (f : Value → Value) :
    (s.update v f).prototypeName = s.prototypeName := by
  unfold update
  split <;> rfl

theorem size_update (s : ValueStore) (v : ValueId) (f : Value → Value) :
    (s.update v f).size = s.size := by
  unfold update size
  split
  · exact Array.size_modify
  · rfl

/-- Nothing is missing if what is updated is there. -/
theorem missed_update (h : (s.get? v).isSome) (f : Value → Value) :
    (s.update v f).missed = s.missed := by
  rw [update, if_pos h]

theorem tableOf?_update {f : Value → Value} (h : ∀ x, (f x).table = x.table) (v w : ValueId) :
    (s.update v f).tableOf? w = s.tableOf? w := by
  simp only [tableOf?, get?_update]
  split
  · cases s.get? w <;> simp [h]
  · rfl

/-! ## New values -/

theorem isSome_get?_alloc_self (s : ValueStore) (value : Value) :
    ((s.alloc value).2.get? (s.alloc value).1).isSome :=
  Option.isSome_of_eq_some (s.get?_alloc_self value)

theorem isSome_get?_update (s : ValueStore) (v w : ValueId) (f : Value → Value) :
    ((s.update v f).get? w).isSome = (s.get? w).isSome := by
  rw [get?_update]
  split
  · exact Option.isSome_map
  · rfl

/-! ## New tables -/

theorem get?_allocTable (s : ValueStore) (owner v : ValueId) :
    (s.allocTable owner).2.get? v = if owner = v then
      (s.get? v).map fun value => { value with table := some ⟨s.tables.size⟩ } else s.get? v :=
  get?_update ..

theorem table?_allocTable (s : ValueStore) (owner : ValueId) (t : TableId) :
    (s.allocTable owner).2.table? t =
      if t = ⟨s.tables.size⟩ then some { owner } else s.table? t := by
  have hindex : t = ⟨s.tables.size⟩ ↔ t.index = s.tables.size := by
    cases t
    simp
  unfold allocTable
  rw [table?_update]
  simp only [table?, Array.getElem?_push, hindex]

theorem tableOf?_allocTable (h : (s.get? owner).isSome) (v : ValueId) :
    (s.allocTable owner).2.tableOf? v =
      if owner = v then some ⟨s.tables.size⟩ else s.tableOf? v := by
  rw [tableOf?, get?_allocTable]
  split
  · next heq =>
    subst heq
    obtain ⟨value, hvalue⟩ := Option.isSome_iff_exists.1 h
    rw [hvalue]
    rfl
  · rfl

theorem missed_allocTable (h : (s.get? owner).isSome) : (s.allocTable owner).2.missed = s.missed :=
  missed_update (s := { s with tables := s.tables.push { owner } }) h _

theorem table?_ne_of_isSome (h : (s.table? t).isSome) : t ≠ ⟨s.tables.size⟩ := by
  rintro rfl
  simp [table?] at h

theorem missed_ensureTable (h : (s.get? v).isSome) : (s.ensureTable v).2.missed = s.missed := by
  unfold ensureTable
  split
  · rfl
  · exact missed_allocTable h

theorem isSome_get?_ensureMembers (s : ValueStore) (v w : ValueId) :
    ((s.ensureMembers v).get? w).isSome = (s.get? w).isSome := by
  unfold ensureMembers ensureTable
  split
  · rfl
  · exact isSome_get?_update _ _ _ _

/-- A value that is there has the table that is ensured. -/
theorem tableOf?_ensureTable (h : (s.get? v).isSome) :
    (s.ensureTable v).2.tableOf? v = some (s.ensureTable v).1 := by
  unfold ensureTable
  split
  · next heq => exact heq
  · exact (tableOf?_allocTable h v).trans (if_pos rfl)

theorem missed_newObject (s : ValueStore) (node : NodeRef) :
    (s.newObject node).2.missed = s.missed := by
  rw [newObject_eq]
  exact missed_ensureTable (isSome_get?_alloc_self s _)

/-! ## New properties -/

/-- A new property, which is in no table yet. -/
def allocProperty (s : ValueStore) (t : TableId) (key : PropertyKey) (node : NodeRef) :
    ValueId × ValueStore :=
  s.alloc { node, data := .propertySlot key t {} }

theorem newPropertyIn_of_some {table : MemberTable} {property : ValueId} (node : NodeRef)
    (ht : s.table? t = some table) (hproperty : table.property? key = some property) :
    s.newPropertyIn t key node = (property, s) := by
  simp only [newPropertyIn, ht, hproperty]

theorem newPropertyIn_of_none {table : MemberTable} (node : NodeRef)
    (ht : s.table? t = some table) (hproperty : table.property? key = none) :
    s.newPropertyIn t key node = ((s.allocProperty t key node).1,
      { (s.allocProperty t key node).2 with
        tables := s.tables.modify t.index (.insert key (s.allocProperty t key node).1) }) := by
  simp only [newPropertyIn, ht, hproperty]
  rfl

theorem table?_modify (s : ValueStore) (t u : TableId) (f : MemberTable → MemberTable) :
    table? { s with tables := s.tables.modify t.index f } u =
      if t = u then (s.table? u).map f else s.table? u := by
  have hindex : t = u ↔ t.index = u.index := by
    cases t
    cases u
    simp
  simp only [table?, Array.getElem?_modify, hindex]

theorem missed_newPropertyIn (h : (s.table? t).isSome) (key : PropertyKey) (node : NodeRef) :
    (s.newPropertyIn t key node).2.missed = s.missed := by
  obtain ⟨table, htable⟩ := Option.isSome_iff_exists.1 h
  cases hproperty : table.property? key with
  | some property => rw [newPropertyIn_of_some node htable hproperty]
  | none =>
    rw [newPropertyIn_of_none node htable hproperty]
    rfl

/-! ## Looking properties up -/

theorem property?_eq_some_iff {property : ValueId} :
    s.property? owner key = some property ↔ ∃ t table, s.tableOf? owner = some t ∧
      s.table? t = some table ∧ table.property? key = some property := by
  unfold property? members
  constructor
  · intro h
    cases ht : s.tableOf? owner with
    | none => simp [ht] at h
    | some t =>
      cases htable : s.table? t with
      | none => simp [ht, htable] at h
      | some table =>
        refine ⟨t, table, rfl, htable, ?_⟩
        simpa [ht, htable, MemberTable.property?] using h
  · rintro ⟨t, table, ht, htable, h⟩
    simpa [ht, htable, MemberTable.property?] using h

/-- What is put into a table is found there, and what was there before. -/
theorem property?_insert (table : MemberTable) (key other : PropertyKey) (property : ValueId) :
    (table.insert key property).property? other =
      (table.property? other).or (if other = key then some property else none) := by
  unfold MemberTable.property? MemberTable.insert
  rw [List.lookup_append, List.lookup_cons, List.lookup_nil]
  by_cases h : other = key
  · simp [h]
  · rw [beq_eq_false_iff_ne.2 h, if_neg h]

/-- The property that is made is found in its table. -/
theorem property?_newPropertyIn (h : (s.table? t).isSome) (key : PropertyKey) (node : NodeRef) :
    ∃ table, (s.newPropertyIn t key node).2.table? t = some table ∧
      table.property? key = some (s.newPropertyIn t key node).1 := by
  obtain ⟨table, htable⟩ := Option.isSome_iff_exists.1 h
  cases hproperty : table.property? key with
  | some property =>
    rw [newPropertyIn_of_some node htable hproperty]
    exact ⟨table, htable, hproperty⟩
  | none =>
    rw [newPropertyIn_of_none node htable hproperty]
    refine ⟨table.insert key (s.allocProperty t key node).1, ?_, ?_⟩
    · have hfound := (s.allocProperty t key node).2.table?_modify t t
        (.insert key (s.allocProperty t key node).1)
      rw [if_pos rfl, show (s.allocProperty t key node).2.table? t = some table from htable]
        at hfound
      exact hfound
    · rw [property?_insert, hproperty, if_pos rfl, Option.none_or]

theorem tableOf?_newPropertyIn (h : (s.get? v).isSome) (t : TableId) (key : PropertyKey)
    (node : NodeRef) : (s.newPropertyIn t key node).2.tableOf? v = s.tableOf? v := by
  unfold newPropertyIn
  split
  · rfl
  · split
    · rfl
    · obtain ⟨value, hvalue⟩ := Option.isSome_iff_exists.1 h
      show ((s.alloc _).2.get? v).bind _ = (s.get? v).bind _
      rw [get?_alloc_of_some _ hvalue, hvalue]

/-- The member that is made is found under its key. -/
theorem property?_newProperty (h : (s.get? owner).isSome)
    (htable : ((s.ensureMembers owner).table? (s.ensureTable owner).1).isSome) (key : PropertyKey)
    (node : NodeRef) :
    (s.newProperty owner key node).2.property? owner key =
      some (s.newProperty owner key node).1 := by
  obtain ⟨table, hfound, hproperty⟩ := property?_newPropertyIn htable key node
  refine property?_eq_some_iff.2 ⟨_, table, ?_, hfound, hproperty⟩
  exact (tableOf?_newPropertyIn ((isSome_get?_ensureMembers s owner owner).trans h) _
    key node).trans
    (tableOf?_ensureTable h)

theorem tables_newConstructedClass (s : ValueStore) (node : NodeRef) (generic : ValueId)
    (arguments : ListId) :
    (s.newConstructedClass node generic arguments).2.tables = s.tables ∧
      (s.newConstructedClass node generic arguments).2.missed = s.missed := by
  unfold newConstructedClass
  split <;> exact ⟨rfl, rfl⟩

/-! ## New classes -/

/-- A new value with its first table. -/
theorem allocTable_alloc (s : ValueStore) (value : Value) :
    let v := ValueId.atPosition s.size
    let s' := ((s.alloc value).2.allocTable v).2
    (∀ w, s'.get? w =
      if w = v then some { value with table := some ⟨s.tables.size⟩ } else s.get? w) ∧
    (∀ t, s'.table? t = if t = ⟨s.tables.size⟩ then some { owner := v } else s.table? t) ∧
    s'.missed = s.missed := by
  intro v s'
  have hget (w : ValueId) : (s.alloc value).2.get? w = if w = v then some value else s.get? w :=
    get?_alloc s value w
  refine ⟨fun w => ?_, table?_allocTable _ v, missed_allocTable (isSome_get?_alloc_self s value)⟩
  show ((s.alloc value).2.allocTable v).2.get? w = _
  rw [get?_allocTable, hget]
  by_cases hw : w = v
  · rw [if_pos hw.symm, if_pos hw, if_pos hw]
    rfl
  · rw [if_neg (Ne.symm hw), if_neg hw, if_neg hw]

/-- A new property with its first table, in a table that has no property of its key. -/
theorem ensureMembers_newPropertyIn {table : MemberTable} (node : NodeRef)
    (ht : s.table? t = some table) (hproperty : table.property? key = none) :
    let property := ValueId.atPosition s.size
    let s' := (s.newPropertyIn t key node).2.ensureMembers property
    (s.newPropertyIn t key node).1 = property ∧
    (∀ v, s'.get? v =
      if v = property then some
        { node, table := some ⟨s.tables.size⟩, data := .propertySlot key t {} }
      else s.get? v) ∧
    (∀ u, s'.table? u =
      if u = ⟨s.tables.size⟩ then some { owner := property }
      else if u = t then some (table.insert key property) else s.table? u) ∧
    s'.missed = s.missed ∧ s'.prototypeName = s.prototypeName := by
  intro property s'
  let entered : ValueStore :=
    { (s.allocProperty t key node).2 with
      tables := s.tables.modify t.index (.insert key property) }
  have hentered : s.newPropertyIn t key node = (property, entered) :=
    newPropertyIn_of_none node ht hproperty
  have hget (v : ValueId) : entered.get? v =
      if v = property then some { node, data := .propertySlot key t {} } else s.get? v :=
    get?_alloc s _ v
  have htable (u : TableId) : entered.table? u =
      if t = u then (s.table? u).map (.insert key property) else s.table? u :=
    table?_modify (s.allocProperty t key node).2 t u _
  have hsize : entered.tables.size = s.tables.size := Array.size_modify
  have hfresh : entered.tableOf? property = none := by
    rw [tableOf?, hget, if_pos rfl]
    rfl
  have hthere : (entered.get? property).isSome := by
    rw [hget, if_pos rfl]
    rfl
  have hrun : s' = (entered.allocTable property).2 := by
    show (s.newPropertyIn t key node).2.ensureMembers property = _
    rw [hentered, ensureMembers, ensureTable, hfresh]
  refine ⟨by rw [hentered], fun v => ?_, fun u => ?_, ?_, ?_⟩
  · rw [hrun, get?_allocTable, hget, hsize]
    by_cases hv : v = property
    · rw [if_pos hv.symm, if_pos hv, if_pos hv]
      rfl
    · rw [if_neg (Ne.symm hv), if_neg hv, if_neg hv]
  · rw [hrun, table?_allocTable, htable, hsize]
    by_cases hu : u = t
    · rw [if_pos hu.symm, if_pos hu, hu, ht]
      rfl
    · rw [if_neg (Ne.symm hu), if_neg hu]
  · rw [hrun, missed_allocTable hthere]
    rfl
  · rw [hrun]
    exact prototypeName_update _ _ _

/-- A new class, its table, its `prototype` and the table of that come next, in this order. -/
theorem newClass_tables (s : ValueStore) (node : NodeRef) (kind : ClassKind) (name : String)
    (typeParameters : List TypeId) :
    let cls := ValueId.atPosition s.size
    let prototype := ValueId.atPosition (s.size + 1)
    let key := PropertyKey.name s.prototypeName
    let s' := (s.newClass node kind name typeParameters).2
    (∀ v, s'.get? v =
      if v = cls then some
        { node, table := some ⟨s.tables.size⟩,
          data := .classValue { kind, name, typeParameters, prototype } }
      else if v = prototype then some
        { node, table := some ⟨s.tables.size + 1⟩, data := .propertySlot key ⟨s.tables.size⟩ {} }
      else s.get? v) ∧
    (∀ t, s'.table? t =
      if t = ⟨s.tables.size⟩ then some { owner := cls, entries := [(key, prototype)] }
      else if t = ⟨s.tables.size + 1⟩ then some { owner := prototype } else s.table? t) ∧
    s'.missed = s.missed ∧ s'.prototypeName = s.prototypeName := by
  intro cls prototype key s'
  have hne : cls ≠ prototype := by simp [prototype, cls, ValueId.atPosition]
  let statics : TableId := ⟨s.tables.size⟩
  -- the class and its table
  let tabled := ((s.allocClass node kind name typeParameters).2.allocTable cls).2
  obtain ⟨hget₁, htable₁, hmissed₁⟩ : (∀ v, tabled.get? v = _) ∧ (∀ t, tabled.table? t = _) ∧
    tabled.missed = s.missed := allocTable_alloc s _
  have hsize : tabled.size = s.size + 1 := (size_update _ _ _).trans (Array.size_push _)
  have hsize' : tabled.tables.size = s.tables.size + 1 :=
    (congrArg Array.size (tables_update _ _ _)).trans (Array.size_push _)
  have hstatics : tabled.table? statics = some { owner := cls } :=
    (htable₁ statics).trans (if_pos rfl)
  -- the `prototype`, in the table of the class, and its own table
  let made := tabled.newPropertyIn statics key node
  have hfree : MemberTable.property? { owner := cls } key = none := rfl
  obtain ⟨hmade, hget₂, htable₂, hmissed₂, hname₂⟩ :=
    ensureMembers_newPropertyIn node hstatics hfree
  rw [hsize] at hmade hget₂ htable₂ hmissed₂ hname₂
  rw [hsize'] at hget₂ htable₂
  have hrun : s' = (made.2.ensureMembers prototype).update cls
      (Value.mapClass fun c => { c with prototype }) := by
    show ((made.2.ensureMembers made.1).update cls
      (Value.mapClass fun c => { c with prototype := made.1 })) = _
    rw [show made.1 = prototype from hmade]
  refine ⟨fun v => ?_, fun t => ?_, ?_, ?_⟩
  · rw [hrun, get?_update, hget₂, hget₁]
    by_cases hv : v = cls
    · subst hv
      rw [if_pos rfl, if_neg hne, if_pos rfl, if_pos rfl]
      rfl
    · rw [if_neg (Ne.symm hv), if_neg hv, if_neg hv]
  · rw [hrun, table?_update, htable₂, htable₁]
    by_cases ht : t = statics
    · subst ht
      have hother : statics ≠ ⟨s.tables.size + 1⟩ := by simp [statics]
      rw [if_neg hother, if_pos rfl, if_pos rfl]
      rfl
    · rw [if_neg ht, if_neg ht, if_neg ht]
  · have hclass : ((made.2.ensureMembers prototype).get? cls).isSome := by
      rw [hget₂, if_neg hne, hget₁, if_pos rfl]
      rfl
    rw [hrun, missed_update hclass]
    exact hmissed₂.trans hmissed₁
  · rw [hrun, prototypeName_update]
    exact hname₂.trans (prototypeName_update _ _ _)

end ValueStore

end DocTypes
