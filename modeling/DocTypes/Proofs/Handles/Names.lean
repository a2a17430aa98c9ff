import DocTypes.Binding.Reference
import DocTypes.Proofs.Handles.Walk
import DocTypes.Proofs.Scopes.Outward

/-!
# Handles in declarations and references

Declaring names, making classes and meeting references leads from a safe state of the walk to a
safe one: names are bound and parked in open scopes alone, and what they are bound to is known.
Closing the current scope leads back to the scope around it.

## Main statements

* `Binder.declareVariable_runs`, `Binder.declareType_runs`: names are bound in open scopes.
* `Binder.declareClass_runs`: a class that is made is declared.
* `Binder.visitIdentifier_runs`, `Binder.visitTypeName_runs`: references are bound to what is
  known, or parked in open scopes.
* `Binder.exitScope_leaves`, `Binder.Enters.exitScope`: closing a scope.
-/

namespace DocTypes

/-! ## What scopes bind -/

namespace ScopeTree

variable {α : Type} {t : ScopeTree} {s : ScopeId}

theorem mem_chain_of_answer_declared {space : Namespace} {name : Atom}
    {binding? : ScopeId → Option (Binding α)} {id : ScopeId}
    (h : answer (t.taker? space name s) binding? = .declared id) : id ∈ t.chain s := by
  cases htaker : t.taker? space name s with
  | none => simp [htaker, answer] at h
  | some mid =>
    rw [htaker] at h
    simp only [answer] at h
    split at h
    · cases h
    · cases h
      exact (mem_chain_of_taker? htaker).1

theorem binds_of_answer_bound {taker : Option ScopeId} {binding? : ScopeId → Option (Binding α)}
    {binding : Binding α} (h : answer taker binding? = .bound binding) :
    ∃ id, binding? id = some binding := by
  cases taker with
  | none => simp [answer] at h
  | some id =>
    simp only [answer] at h
    split at h
    · next found hfound =>
      cases h
      exact ⟨id, hfound⟩
    · cases h

end ScopeTree

namespace Analysis.Closed

variable {x : Analysis} (hx : x.Closed)
include hx

/-- What a scope binds a name to is known. -/
theorem valueKnown_boundVariable? {id : ScopeId} {name : Atom} {binding : Binding ValueId}
    (h : (x.scopes.get? id).bind (·.boundVariable? name) = some binding) :
    x.store.ValueKnown binding.target := by
  obtain ⟨scope, hscope, hbound⟩ := Option.bind_eq_some_iff.1 h
  exact (hx.scopes id scope hscope).vars _ (Store.mem_of_lookup_eq_some hbound)

theorem known_boundType? {id : ScopeId} {name : Atom} {binding : Binding TypeId}
    (h : (x.scopes.get? id).bind (·.boundType? name) = some binding) :
    x.store.Known binding.target := by
  obtain ⟨scope, hscope, hbound⟩ := Option.bind_eq_some_iff.1 h
  exact (hx.scopes id scope hscope).types _ (Store.mem_of_lookup_eq_some hbound)

end Analysis.Closed

namespace Binder

open Analysis

variable {b : Binder}

/-! ## Steps of the store and the tables -/

theorem onValues_runs {α : Type} (hb : b.Safe) {f : ValueStore → α × ValueStore}
    {P : α → Store → Prop} (hm : Runs Store.Leads b.analysis.store (Store.onValues f) P)
    (hsame : b.analysis.store.values.SameClasses (f b.analysis.store.values).2) :
    Runs Leads b (Bind.onAnalysis (Analysis.onValues f)) fun r b' => P r b'.analysis.store :=
  onAnalysis_runs hb (onStore_runs hb.closed hm) (.ofValues hsame) rfl

theorem onTypes_runs {α : Type} (hb : b.Safe) {f : TypeStore → α × TypeStore}
    {P : α → Store → Prop} (hm : Runs Store.Leads b.analysis.store (Store.onTypes f) P)
    (hplain : b.analysis.store.types.Plain (f b.analysis.store.types).2) :
    Runs Leads b (Bind.onAnalysis (Analysis.onTypes f)) fun r b' => P r b'.analysis.store :=
  onAnalysis_runs hb (onStore_runs hb.closed hm) (.ofTypes hplain) rfl

theorem newVariable_runs (hb : b.Safe) (node : NodeRef) (name : Atom) :
    Runs Leads b (Bind.onAnalysis (Analysis.onValues (·.newVariable node name)))
      fun v b' => b'.analysis.store.ValueKnown v :=
  onValues_runs hb (Store.newVariable_runs hb.closed.store node name) (.alloc _ rfl rfl)

theorem newFunction_runs (hb : b.Safe) (node : NodeRef) :
    Runs Leads b (Bind.onAnalysis (Analysis.onValues (·.newFunction node)))
      fun v b' => b'.analysis.store.ValueKnown v :=
  onValues_runs hb (Store.newFunction_runs hb.closed.store node) (.alloc _ rfl rfl)

theorem newObject_runs (hb : b.Safe) (node : NodeRef) :
    Runs Leads b (Bind.onAnalysis (Analysis.onValues (·.newObject node)))
      fun v b' => b'.analysis.store.ValueKnown v :=
  onValues_runs hb (Store.newObject_runs hb.closed.store node) (.newObject _ _)

theorem newProperty_runs (hb : b.Safe) {owner : ValueId}
    (howner : b.analysis.store.ValueKnown owner) (key : PropertyKey) (node : NodeRef) :
    Runs Leads b (Bind.onAnalysis (Analysis.onValues (·.newProperty owner key node)))
      fun v b' => b'.analysis.store.ValueKnown v :=
  onValues_runs hb (Store.newProperty_runs hb.closed.store howner key node) (.newProperty _ _ _ _)

theorem addRead_runs (hb : b.Safe) {v : ValueId} (hv : b.analysis.store.ValueKnown v)
    (node : NodeRef) :
    Runs Leads b (Bind.onAnalysis (Analysis.modifyValues (·.addRead v node))) fun _ _ => True :=
  onValues_runs hb (Store.addRead_runs hb.closed.store hv node) (.mapSlot _ _ _)

theorem addWrite_runs (hb : b.Safe) {v : ValueId} (hv : b.analysis.store.ValueKnown v)
    (node : NodeRef) :
    Runs Leads b (Bind.onAnalysis (Analysis.modifyValues (·.addWrite v node))) fun _ _ => True :=
  onValues_runs hb (Store.addWrite_runs hb.closed.store hv node) (.mapSlot _ _ _)

theorem setValue_runs (hb : b.Safe) (node : NodeRef) {v : ValueId}
    (hv : b.analysis.store.ValueKnown v) :
    Runs Leads b (Bind.onAnalysis (Analysis.setValue node v)) fun _ _ => True :=
  onAnalysis_runs hb (Analysis.setValue_runs hb.closed node hv) (.ofStore rfl rfl) rfl

theorem setType_runs (hb : b.Safe) (node : NodeRef) {t : TypeId}
    (ht : b.analysis.store.Known t) :
    Runs Leads b (Bind.onAnalysis (Analysis.setType node t)) fun _ _ => True :=
  onAnalysis_runs hb (Analysis.setType_runs hb.closed node ht) (.ofStore rfl rfl) rfl

theorem nameType_runs (hb : b.Safe) {v : ValueId} (hv : b.analysis.store.ValueKnown v) {t : TypeId}
    (ht : b.analysis.store.Known t) :
    Runs Leads b (Bind.onAnalysis (Analysis.nameType v t)) fun _ _ => True :=
  onAnalysis_runs hb (Analysis.nameType_runs hb.closed hv ht) (.ofStore rfl rfl) rfl

theorem reportAt_runs (hb : b.Safe) (a : Arena) (problem : Problem) (node : NodeRef) :
    Runs Leads b (Bind.onAnalysis (Analysis.reportAt a problem node)) fun _ _ => True :=
  onAnalysis_runs hb (Analysis.reportAt_runs hb.closed a _ _) (.ofStore rfl rfl) rfl

theorem reportRelated_runs (hb : b.Safe) (a : Arena) (problem : Problem) (node related : NodeRef) :
    Runs Leads b (Bind.onAnalysis (Analysis.reportRelated a problem node related))
      fun _ _ => True :=
  onAnalysis_runs hb (Analysis.reportRelated_runs hb.closed a _ _ _) (.ofStore rfl rfl) rfl

/-! ## Declarations -/

theorem Leads.isOpen {b' : Binder} (h : b.Leads b') {id : ScopeId} (hid : b.analysis.IsOpen id) :
    b'.analysis.IsOpen id := h.toReaches.isOpen hid

theorem reserve_runs (hb : b.Safe) {id : ScopeId} (hid : b.analysis.IsOpen id) (space : Namespace)
    (name : Atom) : Runs Leads b (updateScope id (Scope.reserve space name)) fun _ _ => True := by
  refine updateScope_runs hb id (.reserve id space name hid.isSome) ?_ ?_
  all_goals
    intro scope
    unfold Scope.reserve
    split <;> rfl

theorem reserveAll_runs (hb : b.Safe) {id : ScopeId} (hid : b.analysis.IsOpen id)
    (names : List (Namespace × Atom)) : Runs Leads b (reserveAll id names) fun _ _ => True :=
  .forM (.refl hb) fun _ _ _ h => reserve_runs h.safe (h.isOpen hid) _ _

/-- The scope that a declaration goes to is open. -/
theorem functionScope_runs (hb : b.Safe) :
    Runs Leads b functionScope fun id b' => b'.analysis.IsOpen id :=
  .get_bind (pure_runs hb (hb.isOpen_nearest _))

theorem lexicalScope_runs (hb : b.Safe) :
    Runs Leads b lexicalScope fun id b' => b'.analysis.IsOpen id :=
  .get_bind (pure_runs hb (hb.isOpen_nearest _))

theorem declarationScope_runs (hb : b.Safe) (a : Arena) (statement : NodeRef) :
    Runs Leads b (declarationScope a statement) fun id b' => b'.analysis.IsOpen id :=
  .ite (fun _ => lexicalScope_runs hb) fun _ => functionScope_runs hb

/-- A name is bound to a variable that is known. -/
theorem declareVariable_runs (hb : b.Safe) (a : Arena) {id : ScopeId} (hid : b.analysis.IsOpen id)
    (binding : NodeRef) :
    Runs Leads b (declareVariable a id binding) fun v b' => b'.analysis.store.ValueKnown v := by
  refine .get_bind ?_
  split
  · next existing hexisting =>
    have hknown := hb.closed.valueKnown_boundVariable? hexisting
    refine (reportRelated_runs hb a _ _ _).bind fun _ b₁ h₁ _ => ?_
    refine (setValue_runs h₁.safe binding (h₁.valueKnown hknown)).bind fun _ b₂ h₂ _ => ?_
    exact pure_runs h₂.safe (h₂.valueKnown (h₁.valueKnown hknown))
  · refine (newVariable_runs hb binding _).bind fun v b₁ h₁ hv => ?_
    refine (updateScope_runs h₁.safe id (.bindVariable id _ ⟨v, binding⟩ (h₁.isOpen hid) hv)
      (fun _ => rfl) fun _ => rfl).bind fun _ b₂ h₂ _ => ?_
    refine (setValue_runs h₂.safe binding (h₂.valueKnown hv)).bind fun _ b₃ h₃ _ => ?_
    exact pure_runs h₃.safe (h₃.valueKnown (h₂.valueKnown hv))

/-- A type name is bound to a type that is known. -/
theorem declareType_runs (hb : b.Safe) (a : Arena) {id : ScopeId} (hid : b.analysis.IsOpen id)
    (nameNode : NodeRef) {t : TypeId} (ht : b.analysis.store.Known t) :
    Runs Leads b (declareType a id nameNode t) fun _ _ => True := by
  refine .get_bind ?_
  split
  · exact reportRelated_runs hb a _ _ _
  · exact updateScope_runs hb id (.bindType id _ ⟨t, nameNode⟩ hid ht) (fun _ => rfl) fun _ => rfl

theorem hoist_runs (hb : b.Safe) (a : Arena) {id : ScopeId} (hid : b.analysis.IsOpen id)
    (h : Hoisted) : Runs Leads b (hoist a id h) fun _ _ => True := by
  cases h with
  | variableName binding => exact (declareVariable_runs hb a hid _).discard
  | functionName function binding =>
    exact (declareVariable_runs hb a hid _).bind fun v b' hb' hv => addWrite_runs hb'.safe hv _
  | typeName name => exact reserve_runs hb hid .type name

theorem openBody_runs (hb : b.Safe) (a : Arena) {id : ScopeId} (hid : b.analysis.IsOpen id)
    (statements : List NodeRef) : Runs Leads b (openBody a id statements) fun _ _ => True := by
  refine (Runs.forM (.refl hb) fun h _ b' hb' => ?_).bind fun _ b' hb' _ => ?_
  · exact hoist_runs hb'.safe a (hb'.isOpen hid) h
  · exact reserveAll_runs hb'.safe (hb'.isOpen hid) _

/-! ## Classes -/

/-- A class is made, noted at its node and declared. -/
theorem declareClass_runs (hb : b.Safe) (a : Arena) (site : NodeRef) (name : String)
    (doc : Option DocComment) (heritage reportNode : NodeRef) :
    Runs Leads b (declareClass a site name doc heritage reportNode) fun cls b' =>
      (b'.analysis.store.values.class? cls).isSome := by
  let x := b.analysis
  let parameters := ((doc.map (·.typeParameters)).getD []).filterMap fun n => x.typeOf? (some n)
  have hparameters : ∀ t ∈ parameters, x.store.Known t := by
    intro t ht
    obtain ⟨n, -, hn⟩ := List.mem_filterMap.1 ht
    exact hb.closed.types _ t hn
  let made := Analyze.onStore (Store.onValues (·.newClass site (classKind doc) name parameters)) x
  have hmade : x.Leads made.2 ∧ (made.2.store.values.class? made.1).isSome :=
    onStore_runs hb.closed (Store.newClass_runs hb.closed.store site
      (classKind doc) name hparameters)
  have hset := Analysis.setValue_runs hmade.1.closed site (Store.valueKnown_of_class? hmade.2)
  let decl : ClassDecl := { cls := made.1, node := reportNode, bases := baseRefs a doc heritage }
  have hdeclared := Analysis.Leads.change hset.1.closed (.declareClass decl hmade.2)
  have hprepares := (Prepares.newClass x site (classKind doc) name parameters
    (x.valueTable.insert site made.1) reportNode (baseRefs a doc heritage)).1
  have hreaches : b.Reaches (declareClass a site name doc heritage reportNode b).2 :=
    ⟨hmade.1.trans (hset.1.trans hdeclared), hprepares, .refl _⟩
  exact ⟨hreaches.leads hb rfl, hmade.2⟩

theorem instanceOf_runs (hb : b.Safe) {cls : ValueId}
    (hcls : (b.analysis.store.values.class? cls).isSome) :
    Runs Leads b (instanceOf cls) fun t b' => b'.analysis.store.Known t :=
  onAnalysis_runs hb (onStore_runs hb.closed (Store.instanceOf_runs hb.closed.store hcls))
    (.instanceOf hcls) rfl

/-- The scope in which the name of a class is bound as a type is open. -/
theorem classBindingSite_runs (hb : b.Safe) (a : Arena) (node : NodeRef) :
    Runs Leads b (classBindingSite a node) fun site b' =>
      ∀ nameNode id, site = some (nameNode, id) → b'.analysis.IsOpen id := by
  have hsite {m : Bind ScopeId} (nameNode : NodeRef)
      (hm : Runs Leads b m fun id b' => b'.analysis.IsOpen id) :
      Runs Leads b (do return some (nameNode, ← m)) fun site b' =>
        ∀ nameNode id, site = some (nameNode, id) → b'.analysis.IsOpen id := by
    refine hm.bind fun id b' hb' hid => pure_runs hb'.safe ?_
    rintro _ _ ⟨⟩
    exact hid
  unfold classBindingSite
  split
  · exact pure_runs hb fun _ _ h => nomatch h
  · exact hsite _ (functionScope_runs hb)
  · exact hsite _ (lexicalScope_runs hb)
  · refine .ite (fun _ => hsite _ (declarationScope_runs hb a _)) fun _ => ?_
    exact pure_runs hb fun _ _ h => nomatch h

theorem bindClassType_runs (hb : b.Safe) (a : Arena) (node : NodeRef) {cls : ValueId}
    (hcls : (b.analysis.store.values.class? cls).isSome) :
    Runs Leads b (bindClassType a node cls) fun _ _ => True := by
  refine (classBindingSite_runs hb a node).bind fun site b₁ h₁ hsite => ?_
  split
  · exact pure_runs h₁.safe trivial
  · next nameNode id =>
    refine (instanceOf_runs h₁.safe (h₁.analysis.class? hcls)).bind fun t b₂ h₂ ht => ?_
    exact declareType_runs h₂.safe a (h₂.isOpen (hsite nameNode id rfl)) nameNode ht

theorem aliasFor_runs (hb : b.Safe) (doc : DocComment) (name : Atom) :
    Runs Leads b (aliasFor doc name) fun t b' => b'.analysis.store.Known t :=
  onTypes_runs hb (Store.aliasOf_runs hb.closed.store name _) (.intern _ (by simp) (by simp))

/-! ## References -/

/-- What is noted when a reference is bound. -/
def noteReference (node : NodeRef) (target : ValueId) (assigned : NodeRef) : Analyze Unit := do
  Analysis.setValue node target
  Analysis.modifyValues (·.addRead target node)
  if assigned.isSome then Analysis.modifyValues (·.addWrite target assigned)

theorem bindReference_eq_onAnalysis (node : NodeRef) (target : ValueId) (assigned : NodeRef) :
    bindReference node target assigned = Bind.onAnalysis (noteReference node target assigned) := by
  cases assigned <;> rfl

theorem bindReference_reaches (hb : b.analysis.Closed) (node : NodeRef) {target : ValueId}
    (htarget : b.analysis.store.ValueKnown target) (assigned : NodeRef) :
    Runs Reaches b (bindReference node target assigned) fun _ _ => True := by
  rw [bindReference_eq_onAnalysis]
  refine @onAnalysis_reaches b Unit (noteReference node target assigned) (fun _ _ => True) ?_ ?_ ?_
  · refine (Analysis.setValue_runs hb node htarget).bind fun _ x₁ h₁ _ => ?_
    have htarget₁ := h₁.valueKnown htarget
    refine (onStore_runs h₁.closed (Store.addRead_runs h₁.closed.store htarget₁ node)).bind ?_
    intro _ x₂ h₂ _
    refine .ite (fun _ => ?_) fun _ => Analysis.pure_runs h₂.closed trivial
    exact onStore_runs h₂.closed
      (Store.addWrite_runs h₂.closed.store (h₂.valueKnown htarget₁) assigned)
  · have hread := ValueStore.SameClasses.mapSlot b.analysis.store.values target fun slot =>
      { slot with reads := slot.reads ++ [node] }
    cases assigned with
    | none => exact .trans (.ofValues hread) (.ofStore rfl rfl)
    | some value =>
      exact .trans (.ofValues (hread.trans (.mapSlot _ target _))) (.ofStore rfl rfl)
  · cases assigned <;> rfl

theorem bindReference_runs (hb : b.Safe) (node : NodeRef) {target : ValueId}
    (htarget : b.analysis.store.ValueKnown target) (assigned : NodeRef) :
    Runs Leads b (bindReference node target assigned) fun _ _ => True := by
  refine ⟨(bindReference_reaches hb.closed node htarget assigned).1.leads hb ?_, trivial⟩
  rw [bindReference_eq_onAnalysis]
  rfl

/-- A reference is parked in an open scope. -/
theorem park_runs (hb : b.Safe) {id : ScopeId} (hid : b.analysis.IsOpen id) (p : Parked) :
    Runs Leads b (park id p) fun _ _ => True :=
  updateScope_runs hb id (.park id p hid) (fun _ => rfl) fun _ => rfl

/-- What a name is bound to is known, and a scope that is to bind it is open. -/
theorem Safe.lookupVariable (hb : b.Safe) (name : Atom) :
    (∀ binding, b.analysis.scopes.lookupVariable b.current name = .bound binding →
      b.analysis.store.ValueKnown binding.target) ∧
    ∀ id, b.analysis.scopes.lookupVariable b.current name = .declared id →
      b.analysis.IsOpen id := by
  rw [ScopeTree.lookupVariable_eq]
  refine ⟨fun binding h => ?_, fun id h => hb.live id (ScopeTree.mem_chain_of_answer_declared h)⟩
  obtain ⟨_, hbound⟩ := ScopeTree.binds_of_answer_bound h
  exact hb.closed.valueKnown_boundVariable? hbound

theorem Safe.lookupType (hb : b.Safe) (name : Atom) :
    (∀ binding, b.analysis.scopes.lookupType b.current name = .bound binding →
      b.analysis.store.Known binding.target) ∧
    ∀ id, b.analysis.scopes.lookupType b.current name = .declared id → b.analysis.IsOpen id := by
  rw [ScopeTree.lookupType_eq]
  refine ⟨fun binding h => ?_, fun id h => hb.live id (ScopeTree.mem_chain_of_answer_declared h)⟩
  obtain ⟨_, hbound⟩ := ScopeTree.binds_of_answer_bound h
  exact hb.closed.known_boundType? hbound

/-- What an expression stands for, if it is there. -/
def FoundKnown (found : Option ValueId) (b : Binder) : Prop :=
  ∀ v, found = some v → b.analysis.store.ValueKnown v

theorem foundKnown_none (b : Binder) : FoundKnown none b := fun _ h => nomatch h

theorem foundKnown_some {v : ValueId} (hv : b.analysis.store.ValueKnown v) :
    FoundKnown (some v) b :=
  fun _ h => Option.some.inj h ▸ hv

/-- A reference is bound to a value that is known, or parked in an open scope. -/
theorem visitIdentifier_runs (hb : b.Safe) (a : Arena) (node assigned : NodeRef) :
    Runs Leads b (visitIdentifier a node assigned) FoundKnown := by
  obtain ⟨hbound, hdeclared⟩ := hb.lookupVariable (a.atom node)
  have hnone {m : Bind Unit} (hm : Runs Leads b m fun _ _ => True) :
      Runs Leads b (do m; return none) FoundKnown :=
    hm.bind fun _ b' hb' _ => pure_runs hb'.safe (foundKnown_none b')
  refine .get_bind ?_
  dsimp only
  split
  · next binding hlookup =>
    have hknown := hbound binding hlookup
    refine (bindReference_runs hb node hknown assigned).bind fun _ b' hb' _ => ?_
    exact pure_runs hb'.safe (foundKnown_some (hb'.valueKnown hknown))
  · next id hlookup => exact hnone (park_runs hb (hdeclared id hlookup) _)
  · split
    · have hknown := hb.closed.undefinedValue
      refine (setValue_runs hb node hknown).bind fun _ b' hb' _ => ?_
      exact pure_runs hb'.safe (foundKnown_some (hb'.valueKnown hknown))
    · split
      · exact pure_runs hb (foundKnown_none b)
      · exact hnone (park_runs hb hb.current _)

theorem visitMember_runs (hb : b.Safe) (a : Arena) (n : Nat) {object : ValueId}
    (hobject : b.analysis.store.ValueKnown object) (create : Bool) :
    Runs Leads b (visitMember a n object create) FoundKnown := by
  have howner := hb.closed.valueKnown_denote hobject
  refine .get_bind ?_
  dsimp only
  split
  · refine (newProperty_runs hb howner _ _).bind fun v b₁ h₁ hv => ?_
    refine (setValue_runs h₁.safe _ hv).bind fun _ b₂ h₂ _ => ?_
    refine (setValue_runs h₂.safe _ (h₂.valueKnown hv)).bind fun _ b₃ h₃ _ => ?_
    exact pure_runs h₃.safe (foundKnown_some (h₃.valueKnown (h₂.valueKnown hv)))
  · split
    · exact pure_runs hb (foundKnown_none b)
    · next v hproperty =>
      have hv := hb.closed.store.property? hproperty
      refine (setValue_runs hb _ hv).bind fun _ b₁ h₁ _ => ?_
      have hv₁ := h₁.valueKnown hv
      refine (setValue_runs h₁.safe _ hv₁).bind fun _ b₂ h₂ _ => ?_
      have hv₂ := h₂.valueKnown hv₁
      refine (addRead_runs h₂.safe hv₂ _).bind fun _ b₃ h₃ _ => ?_
      exact pure_runs h₃.safe (foundKnown_some (h₃.valueKnown hv₂))

/-- What a path stands for is known, and the work that it leaves closes no scope. -/
def PathKnown (found : Option ValueId × List Work) (b : Binder) : Prop :=
  FoundKnown found.1 b ∧ Plain found.2

theorem plain_nil : Plain [] := List.not_mem_nil

theorem plain_append {works works' : List Work} (h : Plain works) (h' : Plain works') :
    Plain (works ++ works') := by
  intro hmem
  exact (List.mem_append.1 hmem).elim h h'

theorem plain_visit? (r : NodeRef) : Plain (Work.visit? r) := by
  cases r <;> simp [Plain, Work.visit?]

theorem plain_children (a : Arena) (r : NodeRef) : Plain (Work.children a r) := by
  simp [Plain, Work.children]

theorem visitPath_runs (hb : b.Safe) (a : Arena) (r : NodeRef) (create : Bool) :
    Runs Leads b (visitPath a r create) PathKnown := by
  have hnothing {b : Binder} (hb : b.Safe) {works : List Work} (h : Plain works) :
      Runs Leads b (pure (none, works)) PathKnown := pure_runs hb ⟨foundKnown_none b, h⟩
  fun_induction visitPath a r create generalizing b with
  | case1 => exact hnothing hb plain_nil
  | case2 => exact hnothing hb plain_nil
  | case3 =>
    refine (visitIdentifier_runs hb a _ none).bind fun found b' hb' hfound => ?_
    exact pure_runs hb'.safe ⟨hfound, plain_nil⟩
  | case4 create n _ ih =>
    refine (ih hb).bind fun found b₁ h₁ hfound => ?_
    obtain ⟨object?, works⟩ := found
    cases object? with
    | none => exact hnothing h₁.safe hfound.2
    | some object =>
      refine (visitMember_runs h₁.safe a n (hfound.1 object rfl) create).bind fun v b₂ h₂ hv => ?_
      exact pure_runs h₂.safe ⟨hv, hfound.2⟩
  | case5 => exact hnothing hb plain_nil
  | case6 => exact hnothing hb (by simp [Plain])

/-- A type name gets a type that is known, or is parked in an open scope. -/
theorem visitTypeName_runs (hb : b.Safe) (a : Arena) (n : Nat) :
    Runs Leads b (visitTypeName a n) fun _ _ => True := by
  unfold visitTypeName
  dsimp only
  split
  · refine .ite (fun _ => pure_runs hb trivial) fun _ => .get_bind ?_
    obtain ⟨hbound, hdeclared⟩ := hb.lookupType (a.atom (a.child (some n) 0))
    split
    · next binding hlookup => exact setType_runs hb _ (hbound binding hlookup)
    · next id hlookup => exact park_runs hb (hdeclared id hlookup) _
    · exact park_runs hb hb.current _
  · refine .ite (fun _ => ?_) fun _ => pure_runs hb trivial
    exact (visitIdentifier_runs hb a _ none).discard
  · exact pure_runs hb trivial

theorem visitTypeNames_runs (hb : b.Safe) (a : Arena) (document : NodeRef) :
    Runs Leads b (visitTypeNames a document) fun _ _ => True :=
  .forM (.refl hb) fun n _ _ h => visitTypeName_runs h.safe a n

/-! ## Closing scopes -/

/-- A parked reference is bound to what is known, parked in an open scope, or reported. -/
theorem retry_reaches (hb : b.analysis.Closed) (a : Arena) (reportUndefined : Bool)
    {id : ScopeId} {scope : Scope} (hscope : b.analysis.store.ScopeKnown id scope)
    (houter : ∀ o, scope.outer = some o → b.analysis.IsOpen o) (p : Parked) :
    Runs Reaches b (retry a reportUndefined scope p) fun _ _ => True := by
  unfold retry
  split
  · next binding _ hbound =>
    exact bindReference_reaches hb _ (hscope.vars _ (Store.mem_of_lookup_eq_some hbound)) _
  · next binding hbound =>
    have hknown := hscope.types _ (Store.mem_of_lookup_eq_some hbound)
    exact onAnalysis_reaches (Analysis.setType_runs hb p.node hknown) (.ofStore rfl rfl) rfl
  · split
    · next o ho =>
      exact updateScope_reaches hb o (.park o p (houter o ho)) (fun _ => rfl) fun _ => rfl
    · refine .ite (fun _ => ?_) fun _ => .pure (.refl hb) trivial
      exact onAnalysis_reaches (Analysis.reportAt_runs hb a _ _) (.ofStore rfl rfl) rfl

/-- Changes after which the current scope is closed, and the one around it is the current one. -/
structure Leaves (b b' : Binder) : Prop where
  analysis : b.analysis.Leads b'.analysis
  prepares : b.analysis.Prepares b'.analysis
  scopes : ∀ s scope, s ≠ b.current → b.analysis.scopes.get? s = some scope →
    ∃ scope', b'.analysis.scopes.get? s = some scope' ∧ scope'.outer = scope.outer ∧
      scope'.state = scope.state
  outer : ∀ o, b.analysis.scopes.outer? b.current = some o → b'.current = o

/-- The state in which the names that are parked in the current scope are tried again. -/
def suspended (b : Binder) : Binder :=
  (updateScope b.current (fun s => { s with state := .resolving, parked := #[] }) b).2

/-- Closing a scope tries the names that are parked in it, and goes on in the scope around it. -/
theorem run_exitScope (a : Arena) (reportUndefined : Bool) {b : Binder} {scope : Scope}
    (hscope : b.analysis.scopes.get? b.current = some scope) :
    (exitScope a reportUndefined b).2 =
      let tried := (scope.parked.toList.forM (retry a reportUndefined scope) b.suspended).2
      { (updateScope b.current (fun s => { s with state := .closed }) tried).2 with
        current := scope.outer.getD tried.current } := by
  unfold exitScope
  rw [run_bind, run_get]
  dsimp only
  rw [run_bind, run_get, hscope]
  dsimp only
  cases scope.outer <;> rfl

theorem exitScope_leaves (hb : b.Safe) (a : Arena) (reportUndefined : Bool) :
    b.Leaves (exitScope a reportUndefined b).2 := by
  obtain ⟨scope, hscope, hopen⟩ := hb.current
  have houter? : b.analysis.scopes.outer? b.current = scope.outer := by
    rw [ScopeTree.outer?, hscope, Option.bind_some]
  have hother : ∀ (x : Analysis) (f : Scope → Scope) (s : ScopeId), s ≠ b.current →
      (x.scopes.update b.current f).get? s = x.scopes.get? s := by
    intro x f s hs
    rw [ScopeTree.get?_update, if_neg (Ne.symm hs)]
  -- the scope around the current one stays open while the names are tried
  have hsuspended : b.analysis.Leads b.suspended.analysis :=
    .change hb.closed (.suspend b.current ⟨scope, hscope, hopen⟩)
  have houter : ∀ o, scope.outer = some o → b.suspended.analysis.IsOpen o := by
    intro o ho
    obtain ⟨around, haround, hstate⟩ := hb.isOpen_outer (houter?.trans ho)
    have hlt := hb.closed.nested b.current o (houter?.trans ho)
    have hne : o ≠ b.current := by
      rintro rfl
      exact Nat.lt_irrefl _ hlt
    exact ⟨around, (hother _ _ o hne).trans haround, hstate⟩
  have hknown := (hb.closed.scopes _ scope hscope).mono hsuspended.store
  have htried : b.suspended.Reaches
      (scope.parked.toList.forM (retry a reportUndefined scope) b.suspended).2 := by
    refine (Runs.forM (.refl hsuspended.closed) fun p _ b' hb' => ?_).1
    exact retry_reaches hb'.closed a reportUndefined (hknown.mono hb'.analysis.store)
      (fun o ho => hb'.isOpen (houter o ho)) p
  rw [run_exitScope a reportUndefined hscope]
  generalize (scope.parked.toList.forM (retry a reportUndefined scope) b.suspended).2 =
    tried at htried
  have hcurrent : (tried.analysis.scopes.get? b.current).isSome := by
    refine htried.scopes.isSome ?_
    show ((b.analysis.scopes.update b.current _).get? b.current).isSome
    rw [ScopeTree.get?_update, if_pos rfl, hscope]
    rfl
  have hclosed := Analysis.Leads.change htried.closed (.close b.current hcurrent)
  refine ⟨hsuspended.trans (htried.analysis.trans hclosed), ?_, fun s old hs hold => ?_,
    fun o ho => ?_⟩
  · have hbefore : b.analysis.Prepares b.suspended.analysis := .ofStore rfl rfl
    exact hbefore.trans (htried.prepares.trans (.ofStore rfl rfl))
  · obtain ⟨new, hnew, hkept⟩ := htried.scopes s old ((hother _ _ s hs).trans hold)
    exact ⟨new, (hother _ _ s hs).trans hnew, hkept⟩
  · rw [houter?] at ho
    rw [ho]
    rfl

/-- Closing the scope that was opened leads back to where it was opened. -/
theorem Enters.exitScope {b' : Binder} (hb : b.Safe) (h : b.Enters b') (a : Arena)
    (reportUndefined : Bool) : b.Leads (exitScope a reportUndefined b').2 := by
  have hleaves := exitScope_leaves h.safe a reportUndefined
  have hreaches : b.Reaches (Binder.exitScope a reportUndefined b').2 := by
    refine ⟨h.analysis.trans hleaves.analysis, h.prepares.trans hleaves.prepares, ?_⟩
    intro s scope hscope
    obtain ⟨scope', hscope', houter, hstate⟩ := h.scopes s scope hscope
    have hs : s ≠ b'.current := by
      rintro rfl
      exact absurd (h.fresh.symm.trans hscope) (by simp)
    obtain ⟨scope'', hscope'', houter', hstate'⟩ := hleaves.scopes s scope' hs hscope'
    exact ⟨scope'', hscope'', houter'.trans houter, hstate'.trans hstate⟩
  exact hreaches.leads hb (hleaves.outer _ h.outer)

end Binder

end DocTypes
