import DocTypes.Proofs.Handles.Names
import DocTypes.Proofs.Tree.Comments
import DocTypes.Proofs.TypeExpr.Names
import DocTypes.Proofs.Values.Representation

/-!
# What stands at a node

While names are bound, only nodes that are there get a value, and a class is the value of one node:
the node that makes it (`Arena.MakesClass`). The class is of the sort that the comment says which
governs the node. Only names get a type (`Arena.IsLabel`).

`Binder.Sited` says so of a state of the walk, together with what it rests on: scopes bind names to
slots, members are slots, and what is parked is an identifier. `Binder.Settles` says it of the state
after a step, in which nothing is lost.

## Main statements

* `Analysis.Sited.withValues`, `Analysis.Sited.setValue`, `Analysis.Sited.withScope`: the
  writes that keep a state so.
* `Binder.onAnalysis_settles`, `Binder.updateScope_settles`: the steps of the walk that make them.
-/

namespace DocTypes

/-! ## Values -/

/-- A class knows its node, and no absent node reads a slot. -/
structure Value.Tidy (value : Value) : Prop where
  node : value.class?.isSome → value.node.isSome
  reads : ∀ slot, value.slot? = some slot → none ∉ slot.reads

theorem Value.Grows.class? {x y : Value} (h : x.Grows y) : y.class? = x.class? := by
  have hdata := h.data
  obtain ⟨_, _, data⟩ := x
  obtain ⟨_, _, data'⟩ := y
  cases data <;> cases data' <;> simp_all [Value.mapSlot, Value.class?]

theorem Value.Grows.isSome_slot? {x y : Value} (h : x.Grows y) (hx : x.slot?.isSome) :
    y.slot?.isSome := by
  obtain ⟨slot, hslot⟩ := Option.isSome_iff_exists.1 hx
  obtain ⟨slot', hslot', -⟩ := h.slot slot hslot
  exact Option.isSome_of_eq_some hslot'

theorem Value.slot?_mapClass (f : ClassData → ClassData) (v : Value) :
    (v.mapClass f).slot? = v.slot? := by
  obtain ⟨node, table, data⟩ := v
  cases data <;> rfl

theorem Value.Tidy.mapClass {value : Value} (h : value.Tidy) (f : ClassData → ClassData) :
    (value.mapClass f).Tidy := by
  refine ⟨fun hcls => ?_, fun slot hslot => h.reads slot (slot?_mapClass f value ▸ hslot)⟩
  obtain ⟨node, table, data⟩ := value
  cases data with
  | classValue cls => exact h.node rfl
  | _ => cases hcls

namespace ValueStore

theorem isSome_slot?_iff {s : ValueStore} {v : ValueId} :
    (s.slot? v).isSome ↔ ∃ value, s.get? v = some value ∧ value.slot?.isSome := by
  rw [slot?]
  cases s.get? v <;> simp

theorem Grows.slot? {s s' : ValueStore} (h : s.Grows s') {v : ValueId} (hv : (s.slot? v).isSome) :
    (s'.slot? v).isSome := by
  obtain ⟨old, hold, hslot⟩ := isSome_slot?_iff.1 hv
  obtain ⟨new, hnew, hgrows⟩ := h.values v old hold
  exact isSome_slot?_iff.2 ⟨new, hnew, hgrows.isSome_slot? hslot⟩

/-- A slot stays one in a store in which no value loses its slot. -/
theorem isSome_slot?_update {s : ValueStore} {f : Value → Value}
    (hf : ∀ x : Value, x.slot?.isSome → (f x).slot?.isSome) (v : ValueId) {w : ValueId}
    (hw : (s.slot? w).isSome) : ((s.update v f).slot? w).isSome := by
  obtain ⟨old, hold, hslot⟩ := isSome_slot?_iff.1 hw
  rw [isSome_slot?_iff, get?_update]
  split
  · exact ⟨f old, congrArg (·.map f) hold, hf old hslot⟩
  · exact ⟨old, hold, hslot⟩

theorem Grows.class?_eq {s s' : ValueStore} (h : s.Grows s') {v : ValueId}
    (hv : (s.get? v).isSome) :
    s'.class? v = s.class? v := by
  obtain ⟨old, hold⟩ := Option.isSome_iff_exists.1 hv
  obtain ⟨new, hnew, hgrows⟩ := h.values v old hold
  rw [ValueStore.class?, ValueStore.class?, hold, hnew, Option.bind_some, Option.bind_some,
    hgrows.class?]

theorem Grows.node_eq {s s' : ValueStore} (h : s.Grows s') {v : ValueId} (hv : (s.get? v).isSome) :
    (s'.get? v).bind (·.node) = (s.get? v).bind (·.node) := by
  obtain ⟨old, hold⟩ := Option.isSome_iff_exists.1 hv
  obtain ⟨new, hnew, hgrows⟩ := h.values v old hold
  rw [hold, hnew, Option.bind_some, Option.bind_some, hgrows.node]

/-- A slot is no class. -/
theorem class?_of_slot? {s : ValueStore} {v : ValueId} (h : (s.slot? v).isSome) :
    s.class? v = none := by
  unfold slot? at h
  unfold class?
  cases hv : s.get? v with
  | none => rfl
  | some value =>
    rw [hv] at h
    obtain ⟨node, members, data⟩ := value
    cases data <;> first | rfl | cases h

theorem isSome_get?_of_slot? {s : ValueStore} {v : ValueId} (h : (s.slot? v).isSome) :
    (s.get? v).isSome := by
  unfold slot? at h
  cases hv : s.get? v with
  | none => simp [hv] at h
  | some value => rfl

end ValueStore

namespace ValueStore

theorem isSome_slot?_allocTable {s : ValueStore} (owner : ValueId) {v : ValueId}
    (h : (s.slot? v).isSome) : ((s.allocTable owner).2.slot? v).isSome := by
  let pushed : ValueStore := { s with tables := s.tables.push { owner } }
  let link (value : Value) : Value := { value with table := some ⟨s.tables.size⟩ }
  have hpushed : (pushed.slot? v).isSome := h
  exact isSome_slot?_update (f := link) (fun _ hx => hx) owner hpushed

/-- The values are in order, a value has a table that is there, and members are slots. -/
structure Tidy (s : ValueStore) : Prop where
  values : ∀ v value, s.get? v = some value → value.Tidy
  tables : ∀ v t, s.tableOf? v = some t → (s.table? t).isSome
  members : ∀ t table, s.table? t = some table → ∀ entry ∈ table.entries, (s.slot? entry.2).isSome

namespace Tidy

variable {s s' : ValueStore}

theorem new (prototypeName : Atom) : (ValueStore.new prototypeName).Tidy := by
  have hget (v : ValueId) : (ValueStore.new prototypeName).get? v = none := by
    simp [ValueStore.get?, ValueStore.new]
  have htable (t : TableId) : (ValueStore.new prototypeName).table? t = none := by
    simp [ValueStore.table?, ValueStore.new]
  refine ⟨fun v value hv => ?_, fun v t ht => ?_, fun t table ht => ?_⟩
  · simp [hget] at hv
  · simp [tableOf?, hget] at ht
  · simp [htable] at ht

theorem alloc (h : s.Tidy) {value : Value} (hvalue : value.Tidy) (htable : value.table = none) :
    (s.alloc value).2.Tidy where
  values v x hx := by
    rw [get?_alloc] at hx
    split at hx
    · cases hx
      exact hvalue
    · exact h.values v x hx
  tables v t ht := h.tables v t ((tableOf?_alloc htable v).symm.trans ht)
  members t table ht entry hentry := (Grows.alloc s value).slot? (h.members t table ht entry hentry)

theorem update (h : s.Tidy) (v : ValueId) {f : Value → Value}
    (hslot : ∀ x : Value, x.slot?.isSome → (f x).slot?.isSome)
    (htable : ∀ x : Value, (f x).table = x.table) (htidy : ∀ x : Value, x.Tidy → (f x).Tidy) :
    (s.update v f).Tidy where
  values w x hx := by
    rw [get?_update] at hx
    split at hx
    · obtain ⟨old, hold, rfl⟩ := Option.map_eq_some_iff.1 hx
      exact htidy old (h.values w old hold)
    · exact h.values w x hx
  tables w t ht := by
    rw [table?_update]
    exact h.tables w t ((tableOf?_update htable v w).symm.trans ht)
  members t table ht entry hentry := by
    exact isSome_slot?_update hslot v
      (h.members t table ((table?_update ..).symm.trans ht) entry hentry)

/-- What a member is looked up as is a slot. -/
theorem property? (h : s.Tidy) {owner property : ValueId} {key : PropertyKey}
    (hp : s.property? owner key = some property) : (s.slot? property).isSome := by
  obtain ⟨t, table, -, htable, hproperty⟩ := property?_eq_some_iff.1 hp
  exact h.members t table htable _ (Store.mem_of_lookup_eq_some hproperty)

theorem allocTable (h : s.Tidy) (v : ValueId) : (s.allocTable v).2.Tidy where
  values w x hx := by
    rw [get?_allocTable] at hx
    split at hx
    · obtain ⟨old, hold, rfl⟩ := Option.map_eq_some_iff.1 hx
      exact ⟨(h.values w old hold).node, (h.values w old hold).reads⟩
    · exact h.values w x hx
  tables w t ht := by
    rw [table?_allocTable]
    split
    · rfl
    · next hne =>
      rw [tableOf?, get?_allocTable] at ht
      split at ht
      · obtain ⟨x, hx, hxt⟩ := Option.bind_eq_some_iff.1 ht
        obtain ⟨old, -, rfl⟩ := Option.map_eq_some_iff.1 hx
        exact absurd (Option.some.inj hxt).symm hne
      · exact h.tables w t ht
  members t table ht entry hentry := by
    rw [table?_allocTable] at ht
    split at ht
    · cases ht
      cases hentry
    · exact isSome_slot?_allocTable v (h.members t table ht entry hentry)

theorem ensureMembers (h : s.Tidy) (v : ValueId) : (s.ensureMembers v).Tidy := by
  unfold ValueStore.ensureMembers ensureTable
  split
  · exact h
  · exact h.allocTable v

/-- The table that is ensured is there, whatever the value. -/
theorem isSome_table?_ensureMembers (h : s.Tidy) (v : ValueId) :
    ((s.ensureMembers v).table? (s.ensureTable v).1).isSome := by
  unfold ValueStore.ensureMembers ensureTable
  split
  · next ht => exact h.tables v _ ht
  · exact Option.isSome_of_eq_some ((table?_allocTable ..).trans (if_pos rfl))

theorem newPropertyIn (h : s.Tidy) {t : TableId} (ht : (s.table? t).isSome) (key : PropertyKey)
    (node : NodeRef) :
    (s.newPropertyIn t key node).2.Tidy ∧
      ((s.newPropertyIn t key node).2.slot? (s.newPropertyIn t key node).1).isSome := by
  obtain ⟨table, htable⟩ := Option.isSome_iff_exists.1 ht
  cases hproperty : table.property? key with
  | some property =>
    rw [newPropertyIn_of_some node htable hproperty]
    exact ⟨h, h.members t table htable _ (Store.mem_of_lookup_eq_some hproperty)⟩
  | none =>
    rw [newPropertyIn_of_none node htable hproperty]
    let made := s.allocProperty t key node
    have hslot : (made.2.slot? made.1).isSome := by
      rw [ValueStore.slot?, show made.2.get? made.1 = some _ from get?_alloc_self _ _]
      rfl
    have hmade : made.2.Tidy := by
      refine h.alloc ⟨fun hcls => ?_, fun old hold => ?_⟩ rfl
      · cases hcls
      · cases hold
        exact List.not_mem_nil
    have hfound (u : TableId) := made.2.table?_modify t u (.insert key made.1)
    refine ⟨⟨hmade.values, fun v u hu => ?_, fun u new hnew entry hentry => ?_⟩, hslot⟩
    · have hold := hmade.tables v u hu
      exact (hfound u).symm ▸ by split <;> simp [hold]
    · replace hnew := (hfound u).symm.trans hnew
      split at hnew
      · obtain ⟨old, hold, rfl⟩ := Option.map_eq_some_iff.1 hnew
        rcases List.mem_append.1 hentry with hentry | hentry
        · exact hmade.members u old hold entry hentry
        · rw [List.mem_singleton.1 hentry]
          exact hslot
      · exact hmade.members u new hnew entry hentry

theorem newProperty (h : s.Tidy) (owner : ValueId) (key : PropertyKey) (node : NodeRef) :
    (s.newProperty owner key node).2.Tidy ∧
      ((s.newProperty owner key node).2.slot? (s.newProperty owner key node).1).isSome :=
  (h.ensureMembers owner).newPropertyIn (h.isSome_table?_ensureMembers owner) key node

theorem newObject (h : s.Tidy) (node : NodeRef) : (s.newObject node).2.Tidy := by
  rw [newObject_eq]
  refine (h.alloc ⟨fun hcls => ?_, fun slot hslot => ?_⟩ rfl).ensureMembers _
  · cases hcls
  · cases hslot

/-- A class made at a node that is there. -/
theorem newClass (h : s.Tidy) (n : Nat) (kind : ClassKind) (name : String)
    (typeParameters : List TypeId) : (s.newClass (some n) kind name typeParameters).2.Tidy := by
  have hcls : (s.allocClass (some n) kind name typeParameters).2.Tidy :=
    h.alloc ⟨fun _ => rfl, fun slot hslot => by cases hslot⟩ rfl
  rw [newClass_eq]
  exact ((hcls.newProperty _ _ _).1.ensureMembers _).update _
    (fun x hx => x.slot?_mapClass _ ▸ hx) (fun x => x.table_mapClass _) fun x hx => hx.mapClass _

theorem mapSlot (h : s.Tidy) (v : ValueId) {f : Slot → Slot}
    (hwrites : ∀ slot, slot.writes <+: (f slot).writes)
    (hreads : ∀ slot, slot.reads <+: (f slot).reads)
    (hnone : ∀ slot, none ∉ slot.reads → none ∉ (f slot).reads) :
    (s.update v (Value.mapSlot f)).Tidy := by
  refine h.update v (fun x => (Value.Grows.mapSlot x hwrites hreads).isSome_slot?)
    (fun x => x.table_mapSlot f) fun x hx => ?_
  obtain ⟨node, table, data⟩ := x
  cases data with
  | variableSlot name slot | propertySlot key owner slot =>
    refine ⟨nofun, fun new hnew => ?_⟩
    cases hnew
    exact hnone slot (hx.reads slot rfl)
  | _ => exact hx

theorem addWrite (h : s.Tidy) (v : ValueId) (node : NodeRef) : (s.addWrite v node).Tidy :=
  h.mapSlot v (fun _ => List.prefix_append _ _) (fun _ => List.prefix_rfl) fun _ hnone => hnone

theorem addRead (h : s.Tidy) (v : ValueId) (n : Nat) : (s.addRead v (some n)).Tidy := by
  refine h.mapSlot v (fun _ => List.prefix_rfl) (fun _ => List.prefix_append _ _)
    fun slot hnone => ?_
  simp [hnone]

end Tidy

theorem Grows.addWrite (s : ValueStore) (v : ValueId) (node : NodeRef) :
    s.Grows (s.addWrite v node) :=
  .update s v fun x _ => .mapSlot x (fun _ => List.prefix_append _ _) fun _ => List.prefix_rfl

theorem Grows.addRead (s : ValueStore) (v : ValueId) (node : NodeRef) :
    s.Grows (s.addRead v node) :=
  .update s v fun x _ => .mapSlot x (fun _ => List.prefix_rfl) fun _ => List.prefix_append _ _

end ValueStore

/-! ## Nodes -/

namespace Arena

/-- A name that may get a type while names are bound. -/
def IsLabel (a : Arena) (r : NodeRef) : Prop :=
  a.kind? r = some .identifier ∨ a.kind? r = some .jsDocName

/-- A node of the program that makes a class of a sort: a function under a comment that says so, a
class body, or a declaration that a comment alone makes a class. -/
def MakesClass (a : Arena) (root : NodeRef) (n : Nat) (kind : ClassKind) : Prop :=
  n ∈ a.code root ∧
    match a.kind? (some n) with
    | some .functionDeclaration | some .functionExpression | some .arrowFunction =>
      ∃ doc, a.governingDoc n = some doc ∧ doc.kind.isClass = true ∧ kind =
        Binder.classKind (some doc)
    | some .classDeclaration | some .classExpression => kind = Binder.classKind (a.governingDoc n)
    | some .varDeclaration =>
      a.isOf (fun kind => kind.isFunctionLike || kind.isClassLike) (a.child (some n) 1) = false
    | some .expressionStatement => a.isKind (a.child (some n) 0) .memberExpression = true
    | _ => False

end Arena

/-! ## States -/

namespace Analysis

/-- A value that may stand at a node. A class stands at its own node, which makes it. -/
structure Stands (a : Arena) (root : NodeRef) (x : Analysis) (r : NodeRef)
    (v : ValueId) : Prop where
  present : r.isSome
  known : (x.store.values.get? v).isSome
  cls : ∀ data, x.store.values.class? v = some data →
    ∃ n, r = some n ∧ (x.store.values.get? v).bind (·.node) = some n ∧ a.MakesClass root n data.kind

/-- No alias stands for anything yet, and none is found to be defined through itself. Each alias
that has a tag has that of a comment in the program. -/
structure Pending (a : Arena) (root : NodeRef) (x : Analysis) : Prop where
  targets : x.store.types.aliasTargets = []
  reports : TypeExpr.cyclicReports x = []
  aliases : ∀ t name tag, x.store.types.key? t = some (.aliasOf name (some tag)) →
    a.InComment root tag

/-- Only nodes that are there have a value, and a class stands at the node that makes it. -/
structure Sited (a : Arena) (root : NodeRef) (x : Analysis) : Prop where
  tidy : x.store.values.Tidy
  undefined : (x.store.values.get? x.undefinedValue).isSome ∧
    x.store.values.class? x.undefinedValue = none
  values : ∀ r v, x.valueOf? r = some v → x.Stands a root r v
  types : ∀ r, (x.typeOf? r).isSome → a.IsLabel r
  vars : ∀ id scope, x.scopes.get? id = some scope → ∀ entry ∈ scope.vars,
    (x.store.values.slot? entry.2.target).isSome
  parked : ∀ id scope, x.scopes.get? id = some scope → ∀ p ∈ scope.parked.toList,
    a.kind? p.node = some .identifier
  pending : x.Pending a root

variable {a : Arena} {root : NodeRef} {x y : Analysis}

namespace Pending

/-- Types get numbers. The aliases among them are those of tags of comments. -/
theorem withTypes (h : x.Pending a root) {types : TypeStore} (hinterns : x.store.types.Interns
      (fun key => ∀ name tag, key = .aliasOf name (some tag) → a.InComment root tag) types) :
    Pending a root { x with store := { x.store with types } } where
  targets := hinterns.aliasTargets_eq.trans h.targets
  reports := h.reports
  aliases t name tag ht := (hinterns.key?_cases ht).elim (h.aliases t name tag)
    fun hkey => hkey name tag rfl

/-- Problems are reported that are no cycles. -/
theorem withReports (h : x.Pending a root) {diagnostics : Array Diagnostic}
    (hreports : ∀ d ∈ diagnostics.toList, d ∈ x.diagnostics.toList ∨ d.problem ≠ .cyclicTypedef) :
    Pending a root { x with diagnostics } where
  targets := h.targets
  reports := by
    refine List.filter_eq_nil_iff.2 fun d hd => ?_
    rcases hreports d hd with hd | hproblem
    · exact List.filter_eq_nil_iff.1 h.reports d hd
    · simpa using hproblem
  aliases := h.aliases

/-- One problem is reported that is no cycle. -/
theorem report (h : x.Pending a root) {d : Diagnostic} (hd : d.problem ≠ .cyclicTypedef) :
    (Analysis.report d x).2.Pending a root := by
  have hreports : ∀ e ∈ (x.diagnostics.push d).toList,
      e ∈ x.diagnostics.toList ∨ e.problem ≠ .cyclicTypedef := by
    intro other hother
    rw [Array.toList_push, List.mem_append, List.mem_singleton] at hother
    refine hother.imp_right ?_
    rintro rfl
    exact hd
  exact h.withReports hreports

end Pending

theorem Stands.mono {r : NodeRef} {v : ValueId} (h : Stands a root x r v)
    (hgrows : x.store.values.Grows y.store.values) : Stands a root y r v where
  present := h.present
  known := hgrows.isSome h.known
  cls data hdata := by
    rw [hgrows.class?_eq h.known] at hdata
    rw [hgrows.node_eq h.known]
    exact h.cls data hdata

/-- A value that is no class stands at any node that is there. -/
theorem Stands.ofPlain {r : NodeRef} (hr : r.isSome) {v : ValueId}
    (hknown : (x.store.values.get? v).isSome) (hcls : x.store.values.class? v = none) :
    Stands a root x r v where
  present := hr
  known := hknown
  cls data hdata := by
    rw [hcls] at hdata
    cases hdata

theorem Stands.ofSlot {r : NodeRef} (hr : r.isSome) {v : ValueId}
    (hslot : (x.store.values.slot? v).isSome) : Stands a root x r v :=
  .ofPlain hr (ValueStore.isSome_get?_of_slot? hslot) (ValueStore.class?_of_slot? hslot)

namespace Sited

variable (h : x.Sited a root)
include h

/-- A step that loses no value and enters what may stand where it is entered. -/
theorem step (hgrows : x.store.values.Grows y.store.values) (htidy : y.store.values.Tidy)
    (hundefined : y.undefinedValue = x.undefinedValue)
    (hvalues : ∀ r v, y.valueOf? r = some v → x.valueOf? r = some v ∨ y.Stands a root r v)
    (htypes : ∀ r, (y.typeOf? r).isSome → (x.typeOf? r).isSome ∨ a.IsLabel r)
    (hvars : ∀ id scope, y.scopes.get? id = some scope → ∀ entry ∈ scope.vars,
      (y.store.values.slot? entry.2.target).isSome ∨
        ∃ old, x.scopes.get? id = some old ∧ entry ∈ old.vars)
    (hparked : ∀ id scope, y.scopes.get? id = some scope → ∀ p ∈ scope.parked.toList,
      a.kind? p.node = some .identifier ∨
        ∃ old, x.scopes.get? id = some old ∧ p ∈ old.parked.toList)
    (hpending : y.Pending a root) : y.Sited a root where
  tidy := htidy
  undefined := by
    rw [hundefined, hgrows.class?_eq h.undefined.1]
    exact ⟨hgrows.isSome h.undefined.1, h.undefined.2⟩
  values r v hv := (hvalues r v hv).elim (fun hv => (h.values r v hv).mono hgrows) id
  types r hr := (htypes r hr).elim (h.types r) id
  vars id scope hscope entry hentry := by
    rcases hvars id scope hscope entry hentry with hslot | ⟨old, hold, hmem⟩
    · exact hslot
    · exact hgrows.slot? (h.vars id old hold entry hmem)
  parked id scope hscope p hp := by
    rcases hparked id scope hscope p hp with hkind | ⟨old, hold, hmem⟩
    · exact hkind
    · exact h.parked id old hold p hmem
  pending := hpending

/-- Values are made or written to. -/
theorem withValues {values : ValueStore} (hgrows : x.store.values.Grows values)
    (htidy : values.Tidy) : Sited a root { x with store := { x.store with values } } :=
  h.step hgrows htidy rfl (fun _ _ => .inl) (fun _ => .inl)
    (fun _ scope hscope _ hentry => .inr ⟨scope, hscope, hentry⟩)
    (fun _ scope hscope _ hp => .inr ⟨scope, hscope, hp⟩)
    ⟨h.pending.targets, h.pending.reports, h.pending.aliases⟩

/-- Types are made, classes and names are noted, and problems are reported. -/
theorem withNotes {types : TypeStore} (namedTypes : List (ValueId × TypeId))
    (classes : List ClassDecl) {diagnostics : Array Diagnostic}
    (hpending : Pending a root { x with store := { x.store with types }, diagnostics }) :
    Sited a root { x with store := { x.store with types }, namedTypes, classes, diagnostics } :=
  h.step (.refl _) h.tidy rfl (fun _ _ => .inl) (fun _ => .inl)
    (fun _ scope hscope _ hentry => .inr ⟨scope, hscope, hentry⟩)
    (fun _ scope hscope _ hp => .inr ⟨scope, hscope, hp⟩)
    ⟨hpending.targets, hpending.reports, hpending.aliases⟩

/-- A node gets a value that may stand there. -/
theorem setValue {r : NodeRef} {v : ValueId} (hv : x.Stands a root r v) :
    Sited a root { x with valueTable := x.valueTable.insert r v } := by
  refine h.step (.refl _) h.tidy rfl (fun q w hw => ?_) (fun _ => .inl)
    (fun _ scope hscope _ hentry => .inr ⟨scope, hscope, hentry⟩)
    (fun _ scope hscope _ hp => .inr ⟨scope, hscope, hp⟩)
    ⟨h.pending.targets, h.pending.reports, h.pending.aliases⟩
  have hget : (x.valueTable.insert r v).get? q = some w := hw
  rw [NodeTable.get?_insert] at hget
  split at hget
  · next heq =>
    cases hget
    subst heq
    exact .inr ⟨hv.present, hv.known, hv.cls⟩
  · exact .inl hget

/-- A name gets a type. -/
theorem setType {r : NodeRef} (hr : a.IsLabel r) (t : TypeId) :
    Sited a root { x with typeTable := x.typeTable.insert r t } := by
  refine h.step (.refl _) h.tidy rfl (fun _ _ => .inl) (fun q hq => ?_)
    (fun _ scope hscope _ hentry => .inr ⟨scope, hscope, hentry⟩)
    (fun _ scope hscope _ hp => .inr ⟨scope, hscope, hp⟩)
    ⟨h.pending.targets, h.pending.reports, h.pending.aliases⟩
  have hget : ((x.typeTable.insert r t).get? q).isSome := hq
  rw [NodeTable.get?_insert] at hget
  split at hget
  · next heq => exact .inr (heq ▸ hr)
  · exact .inl hget

/-- A scope binds names to slots, and identifiers are parked in it. -/
theorem withScope (id : ScopeId) {f : Scope → Scope}
    (hvars : ∀ scope, ∀ entry ∈ (f scope).vars, entry ∈ scope.vars ∨
      (x.store.values.slot? entry.2.target).isSome)
    (hparked : ∀ scope, ∀ p ∈ (f scope).parked.toList, p ∈ scope.parked.toList ∨
      a.kind? p.node = some .identifier) : Sited a root (x.withScope id f) := by
  have hget (other : ScopeId) (scope : Scope)
      (hscope : (x.scopes.update id f).get? other = some scope) :
      ∃ old, x.scopes.get? other = some old ∧ (scope = old ∨ scope = f old) := by
    rw [ScopeTree.get?_update] at hscope
    split at hscope
    · obtain ⟨old, hold, rfl⟩ := Option.map_eq_some_iff.1 hscope
      exact ⟨old, hold, .inr rfl⟩
    · exact ⟨scope, hscope, .inl rfl⟩
  refine h.step (.refl _) h.tidy rfl (fun _ _ => .inl) (fun _ => .inl)
    (fun other scope hscope entry hentry => ?_) (fun other scope hscope p hp => ?_)
    ⟨h.pending.targets, h.pending.reports, h.pending.aliases⟩
  · obtain ⟨old, hold, rfl | rfl⟩ := hget other scope hscope
    · exact .inr ⟨_, hold, hentry⟩
    · exact (hvars old entry hentry).symm.imp_right fun hmem => ⟨old, hold, hmem⟩
  · obtain ⟨old, hold, rfl | rfl⟩ := hget other scope hscope
    · exact .inr ⟨_, hold, hp⟩
    · exact (hparked old p hp).symm.imp_right fun hmem => ⟨old, hold, hmem⟩

/-- An empty scope is opened. -/
theorem pushScope (kind : ScopeKind) (node : NodeRef) (outer : Option ScopeId) :
    Sited a root { x with scopes := (x.scopes.push { kind, node, outer }).2 } := by
  refine h.step (.refl _) h.tidy rfl (fun _ _ => .inl) (fun _ => .inl)
    (fun id scope hscope entry hentry => ?_) (fun id scope hscope p hp => ?_)
    ⟨h.pending.targets, h.pending.reports, h.pending.aliases⟩
  · have hget : (x.scopes.push { kind, node, outer }).2.get? id = some scope := hscope
    rw [ScopeTree.get?_push] at hget
    split at hget
    · cases hget
      cases hentry
    · exact .inr ⟨scope, hget, hentry⟩
  · have hget : (x.scopes.push { kind, node, outer }).2.get? id = some scope := hscope
    rw [ScopeTree.get?_push] at hget
    split at hget
    · cases hget
      cases hp
    · exact .inr ⟨scope, hget, hp⟩

end Sited

end Analysis

/-! ## The walk -/

namespace Binder

open Analysis

variable {a : Arena} {root : NodeRef} {b b' b'' : Binder}

/-- What stands at nodes is in order, and each compiled comment is the one on its node, in the
program. -/
structure Sited (a : Arena) (root : NodeRef) (b : Binder) : Prop where
  analysis : b.analysis.Sited a root
  comments : ∀ t doc, b.comments.get? (some t) = some doc → doc = a.commentOn t
  belong : ∀ r doc, b.comments.get? r = some doc → doc.Belongs a root

/-- No value and no comment is lost. -/
structure Grows (b b' : Binder) : Prop where
  values : b.analysis.store.values.Grows b'.analysis.store.values
  comments : ∀ r, (b.comments.get? r).isSome → (b'.comments.get? r).isSome

/-- Nothing is lost, and what stands at nodes is in order afterwards. -/
structure Settles (a : Arena) (root : NodeRef) (b b' : Binder) : Prop where
  sited : b'.Sited a root
  grows : b.Grows b'

theorem Grows.refl (b : Binder) : b.Grows b := ⟨.refl _, fun _ h => h⟩

theorem Grows.trans (h : b.Grows b') (h' : b'.Grows b'') : b.Grows b'' :=
  ⟨h.values.trans h'.values, fun r hr => h'.comments r (h.comments r hr)⟩

namespace Settles

theorem refl (hb : b.Sited a root) : Settles a root b b := ⟨hb, .refl b⟩

instance : IsTrans Binder (Settles a root) := ⟨fun _ _ _ h h' => ⟨h'.sited, h.grows.trans h'.grows⟩⟩

instance : Anchored (Settles a root) := ⟨fun h => .refl h.sited⟩

theorem slot (h : Settles a root b b') {v : ValueId}
    (hv : (b.analysis.store.values.slot? v).isSome) :
    (b'.analysis.store.values.slot? v).isSome := h.grows.values.slot? hv

end Settles

/-! ### Steps -/

theorem pure_settles {α : Type} (hb : b.Sited a root) {P : α → Binder → Prop} {r : α} (h : P r b) :
    Runs (Settles a root) b (pure r) P := .pure (.refl hb) h

/-- A step of the analysis. -/
theorem onAnalysis_settles {α : Type} (hb : b.Sited a root) {m : Analyze α}
    {P : α → Analysis → Prop}
    (hsited : (m b.analysis).2.Sited a root)
    (hgrows : b.analysis.store.values.Grows (m b.analysis).2.store.values)
    (hresult : P (m b.analysis).1 (m b.analysis).2) :
    Runs (Settles a root) b (Bind.onAnalysis m) fun r b' => P r b'.analysis :=
  ⟨⟨⟨hsited, hb.comments, hb.belong⟩, ⟨hgrows, fun _ h => h⟩⟩, hresult⟩

/-- A step that leaves the values alone. -/
theorem onAnalysis_still {α : Type} (hb : b.Sited a root) {m : Analyze α}
    (hsited : (m b.analysis).2.Sited a root)
    (hvalues : (m b.analysis).2.store.values = b.analysis.store.values) :
    Runs (Settles a root) b (Bind.onAnalysis m) fun _ _ => True :=
  onAnalysis_settles (P := fun _ _ => True) hb hsited (hvalues ▸ .refl _) trivial

/-- A type is made. If it is an alias, its tag is that of a comment. -/
theorem intern_settles (hb : b.Sited a root) {key : TypeKey}
    (hkey : ∀ name tag, key = .aliasOf name (some tag) → a.InComment root tag) :
    Runs (Settles a root) b (Bind.onAnalysis (onTypes (·.intern key))) fun _ _ => True :=
  onAnalysis_still hb (hb.analysis.withNotes _ _
    (hb.analysis.pending.withTypes (.intern _ hkey))) rfl

theorem reportAt_settles (hb : b.Sited a root) {problem : Problem} (h : problem ≠ .cyclicTypedef)
    (node : NodeRef) :
    Runs (Settles a root) b (Bind.onAnalysis (reportAt a problem node)) fun _ _ => True :=
  onAnalysis_still hb (hb.analysis.withNotes _ _ (hb.analysis.pending.report h)) rfl

theorem reportRelated_settles (hb : b.Sited a root) {problem : Problem}
    (h : problem ≠ .cyclicTypedef)
    (node related : NodeRef) :
    Runs (Settles a root) b (Bind.onAnalysis (reportRelated a problem node related))
      fun _ _ => True :=
  onAnalysis_still hb (hb.analysis.withNotes _ _ (hb.analysis.pending.report h)) rfl

theorem nameType_settles (hb : b.Sited a root) (v : ValueId) (t : TypeId) :
    Runs (Settles a root) b (Bind.onAnalysis (nameType v t)) fun _ _ => True :=
  onAnalysis_still hb (hb.analysis.withNotes _ _ hb.analysis.pending) rfl

theorem setType_settles (hb : b.Sited a root) {r : NodeRef} (hr : a.IsLabel r) (t : TypeId) :
    Runs (Settles a root) b (Bind.onAnalysis (setType r t)) fun _ _ => True :=
  onAnalysis_still hb (hb.analysis.setType hr t) rfl

theorem setValue_settles (hb : b.Sited a root) {r : NodeRef} {v : ValueId}
    (hv : b.analysis.Stands a root r v) :
    Runs (Settles a root) b (Bind.onAnalysis (setValue r v)) fun _ _ => True :=
  onAnalysis_still hb (hb.analysis.setValue hv) rfl

theorem onValues_settles {α : Type} (hb : b.Sited a root) {f : ValueStore → α × ValueStore}
    {P : α → ValueStore → Prop}
    (hgrows : b.analysis.store.values.Grows (f b.analysis.store.values).2)
    (htidy : (f b.analysis.store.values).2.Tidy)
    (hresult : P (f b.analysis.store.values).1 (f b.analysis.store.values).2) :
    Runs (Settles a root) b (Bind.onAnalysis (onValues f))
      fun v b' => P v b'.analysis.store.values :=
  onAnalysis_settles (P := fun v x => P v x.store.values) hb
    (hb.analysis.withValues hgrows htidy) hgrows
    hresult

/-- A value that is no class is made. -/
theorem alloc_settles (hb : b.Sited a root) {value : Value} (hcls : value.class? = none)
    (hreads : ∀ slot, value.slot? = some slot → none ∉ slot.reads)
    (htable : value.table = none) :
    Runs (Settles a root) b (Bind.onAnalysis (onValues (·.alloc value))) fun v b' =>
      b'.analysis.store.values.get? v = some value := by
  refine onValues_settles (P := fun v values => values.get? v = some value) hb (.alloc _ _)
    (hb.analysis.tidy.alloc ⟨?_, hreads⟩ htable) (ValueStore.get?_alloc_self _ _)
  rw [hcls]
  nofun

theorem newVariable_settles (hb : b.Sited a root) (node : NodeRef) (name : Atom) :
    Runs (Settles a root) b (Bind.onAnalysis (onValues (·.newVariable node name))) fun v b' =>
      (b'.analysis.store.values.slot? v).isSome := by
  let value : Value := { node, data := .variableSlot name {} }
  have hreads (slot : Slot) (hslot : value.slot? = some slot) : none ∉ slot.reads := by
    cases hslot
    exact List.not_mem_nil
  have halloc : Runs (Settles a root) b (Bind.onAnalysis (onValues (·.alloc value))) fun v b' =>
      b'.analysis.store.values.get? v = some value := alloc_settles hb rfl hreads rfl
  refine halloc.weaken fun v b' _ hv => ?_
  rw [ValueStore.slot?, hv]
  rfl

/-- A function is made at a node. -/
theorem newFunction_settles (hb : b.Sited a root) (n : Nat) :
    Runs (Settles a root) b (Bind.onAnalysis (onValues (·.newFunction (some n)))) fun v b' =>
      b'.analysis.Stands a root (some n) v := by
  let value : Value := { node := some n, data := .functionValue }
  have halloc : Runs (Settles a root) b (Bind.onAnalysis (onValues (·.alloc value))) fun v b' =>
      b'.analysis.store.values.get? v = some value := alloc_settles hb rfl nofun rfl
  refine halloc.weaken fun v b₁ _ hv => .ofPlain rfl (Option.isSome_of_eq_some hv) ?_
  rw [ValueStore.class?, hv]
  rfl

/-- An object is made at a node. -/
theorem newObject_settles (hb : b.Sited a root) (n : Nat) :
    Runs (Settles a root) b (Bind.onAnalysis (onValues (·.newObject (some n)))) fun v b' =>
      b'.analysis.Stands a root (some n) v := by
  let values := b.analysis.store.values
  let object : Value := { node := some n, data := .objectValue }
  have hknown : ((values.alloc object).2.get? (values.alloc object).1).isSome :=
    values.isSome_get?_alloc_self object
  have hgrows : (values.alloc object).2.Grows (values.newObject (some n)).2 := by
    rw [ValueStore.newObject_eq]
    exact .ensureMembers _ _
  refine (onValues_settles (P := fun v after => (after.get? v).isSome ∧ after.class? v = none) hb
    (.newObject _ _) (hb.analysis.tidy.newObject _) ⟨hgrows.isSome hknown, ?_⟩).weaken
    fun v b₁ _ hv => .ofPlain rfl hv.1 hv.2
  refine (hgrows.class?_eq hknown).trans ?_
  rw [ValueStore.class?, ValueStore.get?_alloc_self]
  rfl

theorem newProperty_settles (hb : b.Sited a root) (owner : ValueId) (key : PropertyKey)
    (node : NodeRef) :
    Runs (Settles a root) b (Bind.onAnalysis (onValues (·.newProperty owner key node))) fun v b' =>
      (b'.analysis.store.values.slot? v).isSome := by
  obtain ⟨htidy, hslot⟩ := hb.analysis.tidy.newProperty owner key node
  exact onValues_settles (P := fun v values => (values.slot? v).isSome) hb (.newProperty _ _ _ _)
    htidy hslot

theorem addWrite_settles (hb : b.Sited a root) (v : ValueId) (node : NodeRef) :
    Runs (Settles a root) b (Bind.onAnalysis (modifyValues (·.addWrite v node))) fun _ _ => True :=
  onValues_settles (P := fun _ _ => True) hb (.addWrite _ _ _)
    (hb.analysis.tidy.addWrite _ _) trivial

theorem addRead_settles (hb : b.Sited a root) (v : ValueId) (n : Nat) :
    Runs (Settles a root) b (Bind.onAnalysis (modifyValues (·.addRead v (some n))))
      fun _ _ => True :=
  onValues_settles (P := fun _ _ => True) hb (.addRead _ _ _) (hb.analysis.tidy.addRead _ _) trivial

theorem updateScope_settles (hb : b.Sited a root) (id : ScopeId) {f : Scope → Scope}
    (hvars : ∀ scope, ∀ entry ∈ (f scope).vars, entry ∈ scope.vars ∨
      (b.analysis.store.values.slot? entry.2.target).isSome)
    (hparked : ∀ scope, ∀ p ∈ (f scope).parked.toList, p ∈ scope.parked.toList ∨
      a.kind? p.node = some .identifier) :
    Runs (Settles a root) b (updateScope id f) fun _ _ => True :=
  ⟨⟨⟨hb.analysis.withScope id hvars hparked, hb.comments, hb.belong⟩,
    ⟨.refl _, fun _ h => h⟩⟩, trivial⟩

theorem enterScope_settles (hb : b.Sited a root) (kind : ScopeKind) (node : NodeRef) :
    Runs (Settles a root) b (enterScope kind node) fun _ _ => True :=
  ⟨⟨⟨hb.analysis.pushScope kind node _, hb.comments, hb.belong⟩, ⟨.refl _, fun _ h => h⟩⟩, trivial⟩

end Binder

end DocTypes
