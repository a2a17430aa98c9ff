import DocTypes.Proofs.Handles.Change
import DocTypes.Proofs.Run

/-!
# Steps between closed states

Each step on the store or on an analysis, as the passes take it: from a closed state, and with
handles that are known there, it leads to a closed state, and the handle that it gives back is
known in that state.

## Main statements

* `Store.operation_runs`: an operation leads to a closed store.
* `Store.union_runs`, `Store.newProperty_runs` and the like: what each operation gives back
  is known.
* `Analysis.onStore_runs`: a step on the store is a step of the analysis.
-/

namespace DocTypes

namespace Store

instance : Anchored Leads := ⟨fun h => .refl h.closed⟩

variable {s : Store}

/-- An operation leads to a closed store. -/
theorem operation_runs {α : Type} (hs : s.Closed) (op : Operation) (hop : op.Admissible s)
    (hfits : op.Fits s) {m : StateM Store α} (hm : (m s).2 = op.run s) {P : α → Store → Prop}
    (hP : P (m s).1 (op.run s)) : Runs Leads s m P := by
  unfold Runs
  rw [hm]
  exact ⟨.change hs (.operation op hop hfits), hP⟩

/-! ## Types -/

theorem known_intern (s : Store) (key : TypeKey) :
    Known { s with types := (s.types.intern key).2 } (s.types.intern key).1 :=
  Option.isSome_iff_exists.2 ⟨key, s.types.key?_intern key⟩

/-- The intrinsic types are always known. -/
theorem known_of_lt (s : Store) {t : TypeId} (h : t.index < TypeKey.intrinsics.length) :
    s.Known t := by
  have hintrinsic : t.isIntrinsic = true := by
    simp only [TypeKey.intrinsics, List.length_cons, List.length_nil] at h
    exact decide_eq_true (by simp only [TypeId.firstInterned]; omega)
  unfold Known TypeStore.key?
  rw [if_pos hintrinsic, List.getElem?_eq_getElem h]
  rfl

/-- The union of known types is known. -/
theorem known_normalUnion {flat : List TypeId} (h : ∀ t ∈ flat, s.Known t) :
    Known { s with types := (s.types.normalUnion flat).2 } (s.types.normalUnion flat).1 := by
  unfold TypeStore.normalUnion
  simp only
  split
  · exact @known_of_lt s .any (by decide)
  split
  · exact @known_of_lt s .nil (by decide)
  · next t hset =>
    have hmem : t ∈ (TypeStore.sortedSet flat).filter (· ≠ TypeId.nil) := by
      rw [hset]
      exact List.mem_cons_self
    exact h t (TypeStore.mem_sortedSet.1 (List.mem_of_mem_filter hmem))
  · exact known_intern { s with types := _ } _

theorem instanceOf_runs (hs : s.Closed) {cls : ValueId} (hcls : (s.values.class? cls).isSome) :
    Runs Leads s (onTypes (·.instanceOf cls)) fun t s' => s'.Known t :=
  operation_runs hs (.instanceOf cls) (valueKnown_of_class? hcls) hcls rfl (s.known_intern _)

theorem constructedInstanceOf_runs (hs : s.Closed) {cls : ValueId}
    (hcls : (s.values.constructed? cls).isSome) :
    Runs Leads s (onTypes (·.constructedInstanceOf cls)) fun t s' => s'.Known t :=
  operation_runs hs (.constructedInstanceOf cls) (valueKnown_of_constructed? hcls) hcls rfl
    (s.known_intern _)

theorem reference_runs (hs : s.Closed) {v : ValueId} (hv : s.ValueKnown v) :
    Runs Leads s (onTypes (·.reference v)) fun t s' => s'.Known t :=
  operation_runs hs (.reference v) hv trivial rfl (s.known_intern _)

theorem function_runs (hs : s.Closed) {shape : FunctionShape}
    (hshape : s.KeyKnown (.function shape)) :
    Runs Leads s (onTypes (·.function shape)) fun t s' => s'.Known t :=
  operation_runs hs (.function shape) hshape trivial rfl (s.known_intern _)

theorem union_runs (hs : s.Closed) {types : List TypeId} (htypes : ∀ t ∈ types, s.Known t) :
    Runs Leads s (onTypes (·.union types)) fun t s' => s'.Known t := by
  refine operation_runs hs (.union types) htypes trivial rfl (known_normalUnion fun t ht => ?_)
  obtain ⟨u, hu, ht⟩ := List.mem_flatMap.1 ht
  exact hs.canonical.known_of_mem_members (htypes u hu) ht

theorem removeMember_runs (hs : s.Closed) {t u : TypeId} (ht : s.Known t) (hu : s.Known u) :
    Runs Leads s (onTypes (·.removeMember t u)) fun t s' => s'.Known t := by
  refine operation_runs hs (.removeMember t u) ⟨ht, hu⟩ trivial rfl
    (known_normalUnion fun v hv => ?_)
  exact hs.canonical.known_of_mem_members ht (List.mem_of_mem_filter hv)

theorem tuple_runs (hs : s.Closed) {types : List TypeId} (htypes : ∀ t ∈ types, s.Known t) :
    Runs Leads s (onTypes (·.tuple types)) fun t s' => s'.Known t :=
  operation_runs hs (.tuple types) htypes trivial rfl (known_intern { s with types := _ } _)

theorem labeled_runs (hs : s.Closed) (label : Atom) {type : TypeId} (htype : s.Known type) :
    Runs Leads s (onTypes (·.labeled label type)) fun t s' => s'.Known t :=
  operation_runs hs (.labeled label type) htype trivial rfl (s.known_intern _)

theorem record_runs (hs : s.Closed) {fields : List (Atom × TypeId)}
    (hfields : ∀ field ∈ fields, s.Known field.2) :
    Runs Leads s (onTypes (·.record fields)) fun t s' => s'.Known t :=
  operation_runs hs (.record fields) hfields trivial rfl (known_intern { s with types := _ } _)

theorem parameter_runs (hs : s.Closed) (name : Atom) (node : NodeRef) :
    Runs Leads s (onTypes (·.parameter name node)) fun t s' => s'.Known t :=
  operation_runs hs (.parameter name node) trivial trivial rfl (s.known_intern _)

theorem aliasOf_runs (hs : s.Closed) (name : Atom) (tag : NodeRef) :
    Runs Leads s (onTypes (·.aliasOf name tag)) fun t s' => s'.Known t :=
  operation_runs hs (.aliasOf name tag) trivial trivial rfl (s.known_intern _)

theorem setAliasTarget_runs (hs : s.Closed) {t target : TypeId} (ht : s.Known t)
    (htarget : s.Known target) :
    Runs Leads s (onTypes fun types => ((), types.setAliasTarget t target)) fun _ _ => True :=
  operation_runs hs (.setAliasTarget t target) ⟨ht, htarget⟩ trivial rfl trivial

theorem internList_runs (hs : s.Closed) {types : List TypeId} (htypes : ∀ t ∈ types, s.Known t) :
    Runs Leads s (onTypes (·.internList types)) fun l s' => s'.ListKnown l :=
  operation_runs hs (.internList types) htypes trivial rfl (Canonical.listKnown_internList s types)

/-! ## Values -/

theorem valueKnown_alloc (s : Store) (value : Value) :
    ValueKnown { s with values := (s.values.alloc value).2 } (s.values.alloc value).1 :=
  congrArg Option.isSome (s.values.get?_alloc_self value)

theorem newVariable_runs (hs : s.Closed) (node : NodeRef) (name : Atom) :
    Runs Leads s (onValues (·.newVariable node name)) fun v s' => s'.ValueKnown v :=
  operation_runs hs (.newVariable node name) trivial trivial rfl (s.valueKnown_alloc _)

theorem newFunction_runs (hs : s.Closed) (node : NodeRef) :
    Runs Leads s (onValues (·.newFunction node)) fun v s' => s'.ValueKnown v :=
  operation_runs hs (.newFunction node) trivial trivial rfl (s.valueKnown_alloc _)

theorem newObject_runs (hs : s.Closed) (node : NodeRef) :
    Runs Leads s (onValues (·.newObject node)) fun v s' => s'.ValueKnown v := by
  refine operation_runs hs (.newObject node) trivial trivial rfl ?_
  show ((s.values.newObject node).2.get? (s.values.newObject node).1).isSome
  rw [ValueStore.newObject_eq, ValueStore.isSome_get?_ensureMembers]
  exact s.valueKnown_alloc _

theorem mem_of_lookup_eq_some {α β : Type} [BEq α] [LawfulBEq α] {entries : List (α × β)} {a : α}
    {b : β} (h : entries.lookup a = some b) : (a, b) ∈ entries := by
  induction entries with
  | nil => simp at h
  | cons entry rest ih =>
    obtain ⟨c, d⟩ := entry
    rw [List.lookup_cons] at h
    split at h
    · next heq =>
      obtain rfl := eq_of_beq heq
      obtain rfl := Option.some.inj h
      exact List.mem_cons_self
    · exact List.mem_cons_of_mem _ (ih h)

/-- A member of a value is known. -/
theorem Closed.property? (hs : s.Closed) {owner property : ValueId} {key : PropertyKey}
    (h : s.values.property? owner key = some property) : s.ValueKnown property := by
  obtain ⟨t, table, -, htable, hproperty⟩ := ValueStore.property?_eq_some_iff.1 h
  exact (hs.tables t table htable).entries _ (mem_of_lookup_eq_some hproperty)

theorem newProperty_runs (hs : s.Closed) {owner : ValueId} (howner : s.ValueKnown owner)
    (key : PropertyKey) (node : NodeRef) :
    Runs Leads s (onValues (·.newProperty owner key node)) fun v s' => s'.ValueKnown v := by
  have hensured := (hs.ensureMembers howner).closed
  have htable := hensured.tableKnown_of_tableOf? (ValueStore.tableOf?_ensureTable howner)
  exact operation_runs hs (.newProperty owner key node) howner trivial rfl
    ((hs.newProperty howner key node).closed.property?
      (ValueStore.property?_newProperty howner htable key node))

theorem newClass_runs (hs : s.Closed) (node : NodeRef) (kind : ClassKind) (name : String)
    {typeParameters : List TypeId} (hparameters : ∀ t ∈ typeParameters, s.Known t) :
    Runs Leads s (onValues (·.newClass node kind name typeParameters)) fun v s' =>
      (s'.values.class? v).isSome := by
  refine operation_runs hs (.newClass node kind name typeParameters) hparameters trivial rfl ?_
  obtain ⟨⟨_, hclass⟩, -⟩ := s.values.newClass_spec node kind name typeParameters
  show ((s.values.newClass node kind name typeParameters).2.class?
    (s.values.newClass node kind name typeParameters).1).isSome
  rw [hclass, if_pos rfl]
  rfl

theorem newConstructedClass_runs (hs : s.Closed) (node : NodeRef) {generic : ValueId}
    {arguments : ListId} (hgeneric : (s.values.class? generic).isSome)
    (harguments : s.ListKnown arguments) :
    Runs Leads s (onValues (·.newConstructedClass node generic arguments)) fun v s' =>
      (s'.values.constructed? v).isSome := by
  have hretains := hs.newConstructedClass node hgeneric harguments
  exact operation_runs hs (.newConstructedClass node generic arguments)
    ⟨valueKnown_of_class? hgeneric, harguments⟩ hgeneric rfl
    (TypeExpr.isSome_constructed?_newConstructedClass hretains.closed.named)

/-- A node is noted among the readers or the writes of a slot. -/
theorem addRead_runs (hs : s.Closed) {v : ValueId} (hv : s.ValueKnown v) (node : NodeRef) :
    Runs Leads s (onValues fun values => ((), values.addRead v node)) fun _ _ => True :=
  operation_runs hs (.addRead v node) hv trivial rfl trivial

theorem addWrite_runs (hs : s.Closed) {v : ValueId} (hv : s.ValueKnown v) (node : NodeRef) :
    Runs Leads s (onValues fun values => ((), values.addWrite v node)) fun _ _ => True :=
  operation_runs hs (.addWrite v node) hv trivial rfl trivial

/-- The type of the instances of a class or constructed class. -/
theorem instanceType_runs (hs : s.Closed) {cls : ValueId}
    (hcls : s.values.isClassLike cls = true) :
    Runs Leads s (instanceType cls) fun t s' => s'.Known t := by
  refine .get_bind (.ite (fun h => constructedInstanceOf_runs hs h) fun h => instanceOf_runs hs ?_)
  exact (ValueStore.isClassLike_iff.1 hcls).resolve_right h

end Store

namespace Analysis

instance : Anchored Leads := ⟨fun h => .refl h.closed⟩

variable {x : Analysis}

/-- A step on the store is a step of the analysis. -/
theorem onStore_runs {α : Type} (hx : x.Closed) {m : StateM Store α} {P : α → Store → Prop}
    (hm : Runs Store.Leads x.store m P) :
    Runs Leads x (Analyze.onStore m) fun r y => P r y.store := ⟨.onStore hx hm.1, hm.2⟩

theorem setValue_runs (hx : x.Closed) (r : NodeRef) {v : ValueId} (hv : x.store.ValueKnown v) :
    Runs Leads x (setValue r v) fun _ _ => True := ⟨.change hx (.setValue r v hv), trivial⟩

theorem setType_runs (hx : x.Closed) (r : NodeRef) {t : TypeId} (ht : x.store.Known t) :
    Runs Leads x (setType r t) fun _ _ => True := ⟨.change hx (.setType r t ht), trivial⟩

theorem setTypeIfNew_runs (hx : x.Closed) (r : NodeRef) {t : TypeId} (ht : x.store.Known t) :
    Runs Leads x (setTypeIfNew r t) fun _ _ => True := ⟨.change hx (.setTypeIfNew r t ht), trivial⟩

theorem declareType_runs (hx : x.Closed) {v : ValueId} {t : TypeId} (hv : x.store.ValueKnown v)
    (ht : x.store.Known t) : Runs Leads x (declareType v t) fun _ _ => True :=
  ⟨.change hx (.declareType v t hv ht), trivial⟩

theorem nameType_runs (hx : x.Closed) {v : ValueId} {t : TypeId} (hv : x.store.ValueKnown v)
    (ht : x.store.Known t) : Runs Leads x (nameType v t) fun _ _ => True :=
  ⟨.change hx (.nameType v t hv ht), trivial⟩

theorem reportAt_runs (hx : x.Closed) (a : Arena) (problem : Problem) (node : NodeRef) :
    Runs Leads x (reportAt a problem node) fun _ _ => True := ⟨.change hx (.report _), trivial⟩

theorem reportRelated_runs (hx : x.Closed) (a : Arena) (problem : Problem)
    (node related : NodeRef) :
    Runs Leads x (reportRelated a problem node related) fun _ _ => True :=
  ⟨.change hx (.report _), trivial⟩

theorem pure_runs {α : Type} (hx : x.Closed) {P : α → Analysis → Prop} {r : α} (h : P r x) :
    Runs Leads x (pure r) P := .pure (.refl hx) h

/-! ## What is read -/

/-- The type of a node is known, also if it has none. -/
theorem Closed.known_typeOf (hx : x.Closed) (r : NodeRef) : x.store.Known (x.typeOf r) := by
  unfold typeOf
  cases h : x.typeOf? r with
  | some t => exact hx.types r t h
  | none => exact x.store.known_of_lt (by decide)

theorem Closed.known_declaredType? (hx : x.Closed) {v : ValueId} {t : TypeId}
    (h : x.declaredType? v = some t) : x.store.Known t :=
  (hx.declared (v, t) (Store.mem_of_lookup_eq_some h)).2

theorem Closed.known_namedType? (hx : x.Closed) {v : ValueId} {t : TypeId}
    (h : x.namedType? v = some t) : x.store.Known t :=
  (hx.named (v, t) (Store.mem_of_lookup_eq_some h)).2

theorem Closed.known_aliasTarget? (hx : x.Closed) {t target : TypeId}
    (h : x.store.types.aliasTarget? t = some target) : x.store.Known target :=
  (hx.store.aliases (t, target) (Store.mem_of_lookup_eq_some h)).2

/-- A value that is found at one of the nodes of a list is known. -/
theorem Closed.valueKnown_findSome? (hx : x.Closed) {sites : List NodeRef} {p : ValueId → Bool}
    {v : ValueId} (h : (sites.findSome? fun site => (x.valueOf? site).filter p) = some v) :
    x.store.ValueKnown v := by
  obtain ⟨site, -, hsite⟩ := List.exists_of_findSome?_eq_some h
  exact hx.values site v (Option.filter_eq_some_iff.1 hsite).1

/-- What a known value stands for is known. -/
theorem Closed.valueKnown_denote (hx : x.Closed) {v : ValueId} (hv : x.store.ValueKnown v) :
    x.store.ValueKnown (x.denote v) := by
  have hsteps : ∀ steps v, x.store.ValueKnown v → x.store.ValueKnown (x.denoteIn steps v) := by
    intro steps
    induction steps with
    | zero => exact fun v hv => hv
    | succ steps ih =>
      intro v hv
      unfold denoteIn
      split
      · exact hv
      · split
        · next w hsolid => exact hx.valueKnown_findSome? hsolid
        · split
          · next w halias => exact ih w (hx.valueKnown_findSome? halias)
          · exact hv
  exact hsteps _ v hv

theorem isClassLike_of_classOf? {v cls : ValueId} (h : x.classOf? v = some cls) :
    x.store.values.isClassLike cls = true := by
  unfold classOf? at h
  split at h
  · next hlike => exact Option.some.inj h ▸ hlike
  · cases h

theorem valueKnown_of_classOf? {v cls : ValueId} (h : x.classOf? v = some cls) :
    x.store.ValueKnown cls := by
  have hlike := isClassLike_of_classOf? h
  exact (ValueStore.isClassLike_iff.1 hlike).elim Store.valueKnown_of_class?
    Store.valueKnown_of_constructed?

/-- What a dotted path stands for is known. -/
theorem Closed.valueKnown_resolvePath (hx : x.Closed) (a : Arena) {r : NodeRef} {v : ValueId}
    (h : x.resolvePath a r = some v) : x.store.ValueKnown v := by
  unfold resolvePath at h
  split at h
  · cases h
  · next n =>
    split at h
    · obtain ⟨object, -, hproperty⟩ := Option.bind_eq_some_iff.1 h
      exact hx.store.property? hproperty
    · exact hx.values _ v h
    · cases h

end Analysis

end DocTypes
