import DocTypes.Proofs.Nodes.Sites

/-!
# What stands at names

A declaration enters a slot at its name, and a class at the node that makes it. A reference gets the
slot that its name is bound to, or is parked, and a parked reference gets the slot that the closing
scope binds its name to.

## Main statements

* `Binder.declareVariable_settles`, `Binder.declareClass_settles`: what a declaration enters.
* `Binder.visitIdentifier_settles`, `Binder.visitMember_settles`: what a reference enters.
* `Binder.exitScope_settles`: what is entered when a scope closes.
-/

namespace DocTypes

namespace Binder

open Analysis

variable {a : Arena} {root : NodeRef} {b : Binder}

/-! ## Declarations -/

/-- What a scope binds a name to is a slot. -/
theorem Sited.slot_boundVariable? (hb : b.Sited a root) {id : ScopeId} {name : Atom}
    {binding : Binding ValueId}
    (h : (b.analysis.scopes.get? id).bind (·.boundVariable? name) = some binding) :
    (b.analysis.store.values.slot? binding.target).isSome := by
  obtain ⟨scope, hscope, hbound⟩ := Option.bind_eq_some_iff.1 h
  exact hb.analysis.vars id scope hscope _ (Store.mem_of_lookup_eq_some hbound)

/-- A name that is there is bound to a slot. -/
theorem declareVariable_settles (hb : b.Sited a root) (id : ScopeId) {binding : NodeRef}
    (hbinding : binding.isSome) : Runs (Settles a root) b (declareVariable a id binding) fun v b' =>
      (b'.analysis.store.values.slot? v).isSome := by
  refine .get_bind ?_
  split
  · next existing hexisting =>
    have hslot := hb.slot_boundVariable? hexisting
    refine (reportRelated_settles hb (by decide) _ _).bind fun _ b₁ h₁ _ => ?_
    refine (setValue_settles h₁.sited (.ofSlot hbinding (h₁.slot hslot))).bind fun _ b₂ h₂ _ => ?_
    exact pure_settles h₂.sited (h₂.slot (h₁.slot hslot))
  · refine (newVariable_settles hb _ _).bind fun v b₁ h₁ hslot => ?_
    have hbound : Runs (Settles a root) b₁
        (updateScope id (Scope.insertVariable (a.atom binding) ⟨v, binding⟩)) fun _ _ => True := by
      refine updateScope_settles h₁.sited id (fun scope entry hentry => ?_) fun _ _ => .inl
      refine (mem_bindings_insert hentry).imp_right ?_
      rintro rfl
      exact hslot
    refine hbound.bind fun _ b₂ h₂ _ => ?_
    refine (setValue_settles h₂.sited (.ofSlot hbinding (h₂.slot hslot))).bind fun _ b₃ h₃ _ => ?_
    exact pure_settles h₃.sited (h₃.slot (h₂.slot hslot))

/-- A name that is there is bound to a slot that a node is written to. -/
theorem declareWritten_settles (hb : b.Sited a root) (id : ScopeId) {binding : NodeRef}
    (hbinding : binding.isSome) (value : NodeRef) :
    Runs (Settles a root) b (do
      let variableId ← declareVariable a id binding
      Analysis.modifyValues (·.addWrite variableId value)) fun _ _ => True :=
  (declareVariable_settles hb id hbinding).bind fun _ _ h _ => addWrite_settles h.sited _ _

theorem declareType_settles (hb : b.Sited a root) (id : ScopeId) (nameNode : NodeRef) (t : TypeId) :
    Runs (Settles a root) b (declareType a id nameNode t) fun _ _ => True := by
  refine .get_bind ?_
  split
  · exact reportRelated_settles hb (by decide) _ _
  · exact updateScope_settles hb id (fun _ _ => .inl) fun _ _ => .inl

theorem reserve_settles (hb : b.Sited a root) (id : ScopeId) (space : Namespace) (name : Atom) :
    Runs (Settles a root) b (updateScope id (Scope.reserve space name)) fun _ _ => True := by
  refine updateScope_settles hb id (fun scope entry hentry => .inl ?_) fun scope p hp => .inl ?_
  · unfold Scope.reserve at hentry
    split at hentry <;> exact hentry
  · unfold Scope.reserve at hp
    split at hp <;> exact hp

theorem reserveAll_settles (hb : b.Sited a root) (id : ScopeId) (names : List (Namespace × Atom)) :
    Runs (Settles a root) b (reserveAll id names) fun _ _ => True :=
  .forM (.refl hb) fun _ _ _ h => reserve_settles h.sited _ _ _

theorem hoist_settles (hb : b.Sited a root) (id : ScopeId) (h : Hoisted) :
    Runs (Settles a root) b (hoist a id h) fun _ _ => True := by
  cases h with
  | variableName binding => exact (declareVariable_settles hb id rfl).discard
  | functionName function binding => exact declareWritten_settles hb id rfl _
  | typeName name => exact reserve_settles hb id .type name

theorem openBody_settles (hb : b.Sited a root) (id : ScopeId) (statements : List NodeRef) :
    Runs (Settles a root) b (openBody a id statements) fun _ _ => True := by
  refine (Runs.forM (.refl hb) fun h _ _ hkeeps => hoist_settles hkeeps.sited id h).bind
    fun _ _ h _ => ?_
  exact reserveAll_settles h.sited _ _

/-! ## Classes -/

/-- A class stands at the node that makes it. -/
theorem declareClass_settles (hb : b.Sited a root) {n : Nat} (name : String)
    {doc : Option DocComment}
    (heritage reportNode : NodeRef) (hmakes : a.MakesClass root n (classKind doc)) :
    Runs (Settles a root) b (declareClass a (some n) name doc heritage reportNode)
      fun _ _ => True := by
  let parameters := ((doc.map (·.typeParameters)).getD []).filterMap fun n =>
    b.analysis.typeOf? (some n)
  have hmade : Runs (Settles a root) b
      (Bind.onAnalysis (onValues (·.newClass (some n) (classKind doc) name parameters)))
      fun cls b' => b'.analysis.Stands a root (some n) cls := by
    refine (onValues_settles (P := fun cls values => ∃ value, values.get? cls = some value ∧
      value.node = some n ∧ ∀ data, value.class? = some data → data.kind = classKind doc) hb
      (.newClass _ _ _ _ _) (hb.analysis.tidy.newClass n _ _ _) ?_).weaken fun cls b' _ hcls => ?_
    · obtain ⟨hget, -⟩ := b.analysis.store.values.newClass_tables (some n)
        (classKind doc) name parameters
      refine ⟨_, (hget _).trans (if_pos rfl), rfl, fun data hdata => ?_⟩
      cases hdata
      rfl
    · obtain ⟨value, hvalue, hnode, hkind⟩ := hcls
      refine ⟨rfl, Option.isSome_of_eq_some hvalue, fun data hdata => ⟨n, rfl, ?_, ?_⟩⟩
      · rw [hvalue, Option.bind_some, hnode]
      · rw [ValueStore.class?, hvalue, Option.bind_some] at hdata
        exact hkind data hdata ▸ hmakes
  refine .get_bind (hmade.bind fun cls b₁ h₁ hcls => ?_)
  refine (setValue_settles h₁.sited hcls).bind fun _ b₂ h₂ _ => ?_
  have hnoted (classes : List ClassDecl) : Settles a root b₂
      { b₂ with analysis := { b₂.analysis with classes } } :=
    ⟨⟨h₂.sited.analysis.withNotes _ _ h₂.sited.analysis.pending, h₂.sited.comments,
      h₂.sited.belong⟩, ⟨.refl _, fun _ h => h⟩⟩
  exact ⟨hnoted _, trivial⟩

theorem instanceOf_settles (hb : b.Sited a root) (cls : ValueId) :
    Runs (Settles a root) b (instanceOf cls) fun _ _ => True := intern_settles hb (by simp)

theorem declarationScope_settles (hb : b.Sited a root) (statement : NodeRef) :
    Runs (Settles a root) b (declarationScope a statement) fun _ _ => True :=
  .ite (fun _ => .get_bind (pure_settles hb trivial)) fun _ => .get_bind (pure_settles hb trivial)

theorem classBindingSite_settles (hb : b.Sited a root) (node : NodeRef) :
    Runs (Settles a root) b (classBindingSite a node) fun _ _ => True := by
  unfold classBindingSite
  split
  · exact pure_settles hb trivial
  · exact .get_bind (pure_settles hb trivial)
  · exact .get_bind (pure_settles hb trivial)
  · refine .ite (fun _ => ?_) fun _ => pure_settles hb trivial
    exact (declarationScope_settles hb _).bind fun _ _ h _ => pure_settles h.sited trivial

theorem bindClassType_settles (hb : b.Sited a root) (node : NodeRef) (cls : ValueId) :
    Runs (Settles a root) b (bindClassType a node cls) fun _ _ => True := by
  refine (classBindingSite_settles hb node).bind fun site b₁ h₁ _ => ?_
  split
  · exact pure_settles h₁.sited trivial
  · exact (instanceOf_settles h₁.sited cls).bind fun t _ h₂ _ => declareType_settles h₂.sited _ _ t

/-- The alias of a comment in the program has its tag there. -/
theorem aliasFor_settles (hb : b.Sited a root) {doc : DocComment} (hdoc : doc.Belongs a root)
    (name : Atom) : Runs (Settles a root) b (aliasFor doc name) fun _ _ => True := by
  refine intern_settles hb fun other tag hkey => ?_
  obtain ⟨-, htag⟩ := TypeKey.aliasOf.inj hkey
  exact hdoc _ tag htag

/-! ## References -/

/-- A reference that is there gets a slot. -/
theorem bindReference_settles (hb : b.Sited a root) (n : Nat) {target : ValueId}
    (htarget : (b.analysis.store.values.slot? target).isSome) (assigned : NodeRef) :
    Runs (Settles a root) b (bindReference (some n) target assigned) fun _ _ => True := by
  refine (setValue_settles hb (.ofSlot rfl htarget)).bind fun _ b₁ h₁ _ => ?_
  refine (addRead_settles h₁.sited target n).bind fun _ b₂ h₂ _ => ?_
  exact .ite (fun _ => addWrite_settles h₂.sited _ _) fun _ => pure_settles h₂.sited trivial

/-- An identifier is parked. -/
theorem park_settles (hb : b.Sited a root) (id : ScopeId) {p : Parked}
    (hp : a.kind? p.node = some .identifier) :
    Runs (Settles a root) b (park id p) fun _ _ => True := by
  refine updateScope_settles hb id (fun _ _ => .inl) fun scope q hq => ?_
  have hmem : q ∈ scope.parked.toList ∨ q = p := by simpa [Scope.park] using hq
  refine hmem.imp_right ?_
  rintro rfl
  exact hp

theorem visitIdentifier_settles (hb : b.Sited a root) {n : Nat}
    (hkind : a.kind? (some n) = some .identifier) (assigned : NodeRef) :
    Runs (Settles a root) b (visitIdentifier a (some n) assigned) fun _ _ => True := by
  refine .get_bind ?_
  dsimp only
  split
  · next binding hlookup =>
    rw [ScopeTree.lookupVariable_eq] at hlookup
    obtain ⟨_, hbound⟩ := ScopeTree.binds_of_answer_bound hlookup
    refine (bindReference_settles hb n (hb.slot_boundVariable? hbound) assigned).bind
      fun _ _ h _ => ?_
    exact pure_settles h.sited trivial
  · exact (park_settles hb _ hkind).bind fun _ _ h _ => pure_settles h.sited trivial
  · split
    · obtain ⟨hknown, hcls⟩ := hb.analysis.undefined
      refine (setValue_settles hb (.ofPlain rfl hknown hcls)).bind fun _ _ h _ => ?_
      exact pure_settles h.sited trivial
    · split
      · exact pure_settles hb trivial
      · exact (park_settles hb _ hkind).bind fun _ _ h _ => pure_settles h.sited trivial

/-- A member whose name is there gets a slot. -/
theorem visitMember_settles (hb : b.Sited a root) {n : Nat} (hname : (a.child (some n) 1).isSome)
    (object : ValueId) (create : Bool) :
    Runs (Settles a root) b (visitMember a n object create) fun _ _ => True := by
  refine .get_bind ?_
  dsimp only
  split
  · refine (newProperty_settles hb _ _ _).bind fun v b₁ h₁ hslot => ?_
    refine (setValue_settles h₁.sited (.ofSlot hname hslot)).bind fun _ b₂ h₂ _ => ?_
    refine (setValue_settles h₂.sited (.ofSlot rfl (h₂.slot hslot))).bind fun _ b₃ h₃ _ => ?_
    exact pure_settles h₃.sited trivial
  · split
    · exact pure_settles hb trivial
    · next v hproperty =>
      have hslot := hb.analysis.tidy.property? hproperty
      refine (setValue_settles hb (.ofSlot hname hslot)).bind fun _ b₁ h₁ _ => ?_
      refine (setValue_settles h₁.sited (.ofSlot rfl (h₁.slot hslot))).bind fun _ b₂ h₂ _ => ?_
      exact (addRead_settles h₂.sited v n).bind fun _ _ h₃ _ => pure_settles h₃.sited trivial

theorem visitTypeName_settles (hb : b.Sited a root) (n : Nat) :
    Runs (Settles a root) b (visitTypeName a n) fun _ _ => True := by
  unfold visitTypeName
  dsimp only
  split
  · next hkind =>
    refine .ite (fun _ => pure_settles hb trivial) fun _ => .get_bind ?_
    split
    · exact setType_settles hb (.inl hkind) _
    · exact park_settles hb _ hkind
    · exact park_settles hb _ hkind
  · refine .ite (fun hroot => ?_) fun _ => pure_settles hb trivial
    rw [Arena.isKind_iff] at hroot
    obtain ⟨m, hm⟩ : ∃ m, a.pathRoot (a.child (some n) 0) = some m := by
      cases hm : a.pathRoot (a.child (some n) 0) with
      | some m => exact ⟨m, rfl⟩
      | none =>
        rw [hm] at hroot
        cases hroot
    rw [hm] at hroot ⊢
    exact (visitIdentifier_settles hb hroot none).discard
  · exact pure_settles hb trivial

theorem visitTypeNames_settles (hb : b.Sited a root) (document : NodeRef) :
    Runs (Settles a root) b (visitTypeNames a document) fun _ _ => True :=
  .forM (.refl hb) fun n _ _ h => visitTypeName_settles h.sited n

/-! ## Closing scopes -/

theorem unboundProblem_ne_cyclicTypedef (space : Namespace) :
    unboundProblem space ≠ .cyclicTypedef := by
  cases space <;> decide

/-- A parked identifier gets what a scope binds its name to, or is parked again. -/
theorem retry_settles (hb : b.Sited a root) (reportUndefined : Bool) {scope : Scope}
    (hvars : ∀ entry ∈ scope.vars, (b.analysis.store.values.slot? entry.2.target).isSome)
    {p : Parked}
    (hp : a.kind? p.node = some .identifier) :
    Runs (Settles a root) b (retry a reportUndefined scope p) fun _ _ => True := by
  obtain ⟨name, node, space, assigned⟩ := p
  obtain ⟨n, rfl⟩ : ∃ n, node = some n := by
    cases node with
    | some n => exact ⟨n, rfl⟩
    | none => cases hp
  unfold retry
  split
  · next binding _ hbound =>
    exact bindReference_settles hb n (hvars _ (Store.mem_of_lookup_eq_some hbound)) assigned
  · exact setType_settles hb (.inl hp) _
  · split
    · exact park_settles hb _ hp
    · exact .ite (fun _ => reportAt_settles hb (unboundProblem_ne_cyclicTypedef _) _)
        fun _ => pure_settles hb trivial

/-- Another scope becomes the current one. -/
theorem leave_settles (hb : b.Sited a root) (outer : ScopeId) :
    Runs (Settles a root) b (modify fun b => { b with current := outer } : Bind Unit)
      fun _ _ => True :=
  ⟨⟨⟨hb.analysis, hb.comments, hb.belong⟩, ⟨.refl _, fun _ h => h⟩⟩, trivial⟩

theorem exitScope_settles (hb : b.Sited a root) (reportUndefined : Bool) :
    Runs (Settles a root) b (exitScope a reportUndefined) fun _ _ => True := by
  refine .get_bind (.get_bind ?_)
  split
  · exact pure_settles hb trivial
  · next scope hscope =>
    have hvars := hb.analysis.vars _ scope hscope
    have hparked := hb.analysis.parked _ scope hscope
    have hsuspended : Runs (Settles a root) b (updateScope b.current fun scope =>
        { scope with state := .resolving, parked := #[] }) fun _ _ => True :=
      updateScope_settles hb _ (fun _ _ => .inl) fun _ _ hp => (List.not_mem_nil hp).elim
    refine hsuspended.bind fun _ b₁ h₁ _ => ?_
    have htried :
      Runs (Settles a root) b₁ (scope.parked.toList.forM (retry a reportUndefined scope))
        fun _ _ => True := by
      refine .forM (.refl h₁.sited) fun p hp b₂ h₂ => ?_
      exact retry_settles h₂.sited reportUndefined
        (fun entry hentry => h₂.slot (h₁.slot (hvars entry hentry))) (hparked p hp)
    refine htried.bind fun _ b₂ h₂ _ => ?_
    have hclosed : Runs (Settles a root) b₂ (updateScope b.current fun scope =>
        { scope with state := .closed }) fun _ _ => True :=
      updateScope_settles h₂.sited _ (fun _ _ => .inl) fun _ _ => .inl
    refine hclosed.bind fun _ b₃ h₃ _ => ?_
    split
    · exact leave_settles h₃.sited _
    · exact pure_settles h₃.sited trivial

end Binder

end DocTypes
