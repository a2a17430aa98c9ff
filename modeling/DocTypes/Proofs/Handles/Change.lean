import DocTypes.Analysis.Basic
import DocTypes.Proofs.Handles.Closed
import DocTypes.Proofs.Scopes.Growth
import Mathlib.Logic.Relation

/-!
# Changes of an analysis

`Analysis.Change` lists what a run may do to its state, one write at a time, each with what
has to be there for it: the values, types and scopes that it is about exist, a name is bound or
parked only in a scope that is open. Every table of a run is written in one of these ways.

From a closed state a change leads to a closed one, and what was there stays there
(`Analysis.Leads`).

## Main statements

* `Analysis.Change.leads`: one change keeps an analysis closed.
* `Analysis.Closed.leads`: so do any number of changes.
-/

namespace DocTypes

open Relation

/-- Every handle of a scope names something, the scope around it is older, and nothing was put
in it when it was not open. -/
structure Store.ScopeKnown (s : Store) (id : ScopeId) (scope : Scope) : Prop where
  outer : ∀ o, scope.outer = some o → o.index < id.index
  timely : scope.overdue = false
  vars : ∀ entry ∈ scope.vars, s.ValueKnown entry.2.target
  types : ∀ entry ∈ scope.types, s.Known entry.2.target

theorem Store.ScopeKnown.mono {s s' : Store} (h : s.Retains s') {id : ScopeId} {scope : Scope}
    (hscope : s.ScopeKnown id scope) : s'.ScopeKnown id scope :=
  ⟨hscope.outer, hscope.timely, fun entry hentry => h.keeps.valueKnown _ (hscope.vars entry hentry),
    fun entry hentry => h.keeps.known (hscope.types entry hentry)⟩

/-- One write to a store, of which everything that it names is there. -/
inductive Store.Change (s : Store) : Store → Prop
  | operation (op : Operation) (hop : op.Admissible s) (hfits : op.Fits s) : Change s (op.run s)
  | noteBases (cls : ValueId) (bases : List ValueId) (hcls : (s.values.class? cls).isSome)
      (hbases : ∀ b ∈ bases, s.ValueKnown b) :
    Change s { s with values := s.values.updateClass cls fun data => { data with bases } }
  | noteAncestors (cls : ValueId) (ancestors : List ValueId) (hcls : (s.values.class? cls).isSome)
      (hancestors : ∀ v ∈ ancestors, s.ValueKnown v) :
    Change s { s with values := s.values.updateClass cls fun data =>
      { data with ancestors, finalized := true } }
  | noteConstructedAncestors (cls : ValueId) (ancestors : List ValueId)
      (hcls : (s.values.constructed? cls).isSome) (hancestors : ∀ v ∈ ancestors, s.ValueKnown v) :
    Change s { s with values := s.values.updateConstructed cls fun data =>
      { data with ancestors, finalized := true } }

/-- Changes that lead to a closed store, in which what was there is still there. -/
structure Store.Leads (s s' : Store) : Prop where
  retains : s.Retains s'
  steps : ReflTransGen Store.Change s s'

/-- A change keeps a store closed. -/
theorem Store.Change.retains {s s' : Store} (hs : s.Closed) (h : s.Change s') : s.Retains s' := by
  have hknown (values : ValueStore) (v : ValueId) (f : Value → Value) {w : ValueId}
      (hvalues : values = s.values.update v f) (hw : s.ValueKnown w) :
      Store.ValueKnown { s with values } w := by
    subst hvalues
    unfold Store.ValueKnown at hw ⊢
    rw [ValueStore.get?_update]
    split
    · exact (Option.isSome_map ..).trans hw
    · exact hw
  cases h with
  | operation op hop hfits => exact hs.run hop hfits
  | noteBases cls bases hcls hbases =>
    exact hs.updateClass hcls fun old _ ⟨hparameters, hprototype, _, hancestors⟩ =>
      ⟨hparameters, hprototype, fun b hb => hknown _ _ _ rfl (hbases b hb), hancestors⟩
  | noteAncestors cls ancestors hcls hancestors =>
    exact hs.updateClass hcls fun old _ ⟨hparameters, hprototype, hbases, _⟩ =>
      ⟨hparameters, hprototype, hbases, fun v hv => hknown _ _ _ rfl (hancestors v hv)⟩
  | noteConstructedAncestors cls ancestors hcls hancestors =>
    exact hs.updateConstructed hcls hancestors

namespace Store.Leads

variable {s s' s'' : Store}

theorem refl (hs : s.Closed) : s.Leads s := ⟨.refl hs, .refl⟩

theorem trans (h : s.Leads s') (h' : s'.Leads s'') : s.Leads s'' :=
  ⟨h.retains.trans h'.retains, h.steps.trans h'.steps⟩

instance : IsTrans Store Leads := ⟨fun _ _ _ => trans⟩

theorem change (hs : s.Closed) (h : s.Change s') : s.Leads s' := ⟨h.retains hs, .single h⟩

theorem closed (h : s.Leads s') : s'.Closed := h.retains.closed

theorem known (h : s.Leads s') {t : TypeId} (ht : s.Known t) : s'.Known t :=
  h.retains.keeps.known ht

theorem valueKnown (h : s.Leads s') {v : ValueId} (hv : s.ValueKnown v) : s'.ValueKnown v :=
  h.retains.keeps.valueKnown v hv

theorem listKnown (h : s.Leads s') {l : ListId} (hl : s.ListKnown l) : s'.ListKnown l :=
  h.retains.keeps.listKnown l hl

theorem class? (h : s.Leads s') {v : ValueId} (hv : (s.values.class? v).isSome) :
    (s'.values.class? v).isSome := h.retains.class? v hv

theorem constructed? (h : s.Leads s') {v : ValueId} (hv : (s.values.constructed? v).isSome) :
    (s'.values.constructed? v).isSome := h.retains.keeps.constructed? hv

end Store.Leads

namespace Analysis

/-- Every handle that an analysis keeps names something. -/
structure Closed (x : Analysis) : Prop where
  store : x.store.Closed
  undefinedValue : x.store.ValueKnown x.undefinedValue
  scopes : ∀ id scope, x.scopes.get? id = some scope → x.store.ScopeKnown id scope
  missed : x.scopes.missed = []
  values : ∀ r v, x.valueOf? r = some v → x.store.ValueKnown v
  types : ∀ r t, x.typeOf? r = some t → x.store.Known t
  named : ∀ entry ∈ x.namedTypes, x.store.ValueKnown entry.1 ∧ x.store.Known entry.2
  declared : ∀ entry ∈ x.declaredTypes, x.store.ValueKnown entry.1 ∧ x.store.Known entry.2
  classes : ∀ decl ∈ x.classes, (x.store.values.class? decl.cls).isSome

/-- A scope that takes bindings and parked names. -/
def IsOpen (x : Analysis) (id : ScopeId) : Prop :=
  ∃ scope, x.scopes.get? id = some scope ∧ scope.state = .opened

/-- The state with one scope changed. -/
def withScope (x : Analysis) (id : ScopeId) (f : Scope → Scope) : Analysis :=
  { x with scopes := x.scopes.update id f }

/-- One write to the state of a run, of which everything that it names is there. -/
inductive Change (x : Analysis) : Analysis → Prop
  | store (s : Store) (h : x.store.Change s) : Change x { x with store := s }
  | setValue (r : NodeRef) (v : ValueId) (hv : x.store.ValueKnown v) :
    Change x { x with valueTable := x.valueTable.insert r v }
  | setType (r : NodeRef) (t : TypeId) (ht : x.store.Known t) :
    Change x { x with typeTable := x.typeTable.insert r t }
  | setTypeIfNew (r : NodeRef) (t : TypeId) (ht : x.store.Known t) :
    Change x { x with typeTable := x.typeTable.insertIfNew r t }
  | nameType (v : ValueId) (t : TypeId) (hv : x.store.ValueKnown v) (ht : x.store.Known t) :
    Change x { x with namedTypes := (v, t) :: x.namedTypes }
  | declareType (v : ValueId) (t : TypeId) (hv : x.store.ValueKnown v) (ht : x.store.Known t) :
    Change x { x with declaredTypes := (v, t) :: x.declaredTypes }
  | declareClass (decl : ClassDecl) (hcls : (x.store.values.class? decl.cls).isSome) :
    Change x { x with classes := x.classes ++ [decl] }
  | report (diagnostics : Array Diagnostic) : Change x { x with diagnostics }
  | openScope (kind : ScopeKind) (node : NodeRef) (outer : Option ScopeId)
      (houter : ∀ o, outer = some o → (x.scopes.get? o).isSome) :
    Change x { x with scopes := (x.scopes.push { kind, node, outer }).2 }
  | reserve (id : ScopeId) (space : Namespace) (name : Atom) (hid : (x.scopes.get? id).isSome) :
    Change x (x.withScope id (Scope.reserve space name))
  | bindVariable (id : ScopeId) (name : Atom) (binding : Binding ValueId) (hid : x.IsOpen id)
      (htarget : x.store.ValueKnown binding.target) :
    Change x (x.withScope id (Scope.insertVariable name binding))
  | bindType (id : ScopeId) (name : Atom) (binding : Binding TypeId) (hid : x.IsOpen id)
      (htarget : x.store.Known binding.target) :
    Change x (x.withScope id (Scope.insertType name binding))
  | park (id : ScopeId) (p : Parked) (hid : x.IsOpen id) :
    Change x (x.withScope id (Scope.park p))
  | suspend (id : ScopeId) (hid : x.IsOpen id) :
    Change x (x.withScope id fun scope => { scope with state := .resolving, parked := #[] })
  | close (id : ScopeId) (hid : (x.scopes.get? id).isSome) :
    Change x (x.withScope id fun scope => { scope with state := .closed })

/-- Changes that lead to a closed state, in which what was there is still there. -/
structure Leads (x y : Analysis) : Prop where
  closed : y.Closed
  steps : ReflTransGen Change x y
  store : x.store.Retains y.store

/-! ## Changes keep a state closed -/

section Keeping

variable {x : Analysis}

/-- A change of the store. -/
theorem Closed.withStore (h : x.Closed) {store : Store} (hstore : x.store.Retains store) :
    Closed { x with store } where
  store := hstore.closed
  undefinedValue := hstore.keeps.valueKnown _ h.undefinedValue
  scopes id scope hscope := (h.scopes id scope hscope).mono hstore
  missed := h.missed
  values r v hv := hstore.keeps.valueKnown v (h.values r v hv)
  types r t ht := hstore.keeps.known (h.types r t ht)
  named entry hentry :=
    (h.named entry hentry).imp (hstore.keeps.valueKnown _) fun ht => hstore.keeps.known ht
  declared entry hentry :=
    (h.declared entry hentry).imp (hstore.keeps.valueKnown _) fun ht => hstore.keeps.known ht
  classes decl hdecl := hstore.class? _ (h.classes decl hdecl)

theorem IsOpen.isSome {id : ScopeId} (h : x.IsOpen id) : (x.scopes.get? id).isSome := by
  obtain ⟨scope, hscope, -⟩ := h
  exact Option.isSome_iff_exists.2 ⟨scope, hscope⟩

/-- What comes to an open scope comes in time. -/
theorem IsOpen.receive {id : ScopeId} (h : x.IsOpen id) {scope : Scope}
    (hscope : x.scopes.get? id = some scope) (htimely : scope.overdue = false) :
    scope.receive.overdue = false := by
  obtain ⟨found, hfound, hopened⟩ := h
  obtain rfl := Option.some.inj (hfound.symm.trans hscope)
  simp [Scope.receive, hopened, htimely]

/-- A change of one scope. -/
theorem Closed.updateScope (h : x.Closed) {id : ScopeId} (hid : (x.scopes.get? id).isSome)
    {f : Scope → Scope} (hf : ∀ scope, x.scopes.get? id = some scope →
      x.store.ScopeKnown id scope → x.store.ScopeKnown id (f scope)) :
    (x.withScope id f).Closed where
  store := h.store
  undefinedValue := h.undefinedValue
  scopes other scope hscope := by
    have hget : (x.scopes.update id f).get? other = some scope := hscope
    rw [ScopeTree.get?_update] at hget
    split at hget
    · next heq =>
      obtain ⟨old, hold, rfl⟩ := Option.map_eq_some_iff.1 hget
      subst heq
      exact hf old hold (h.scopes _ old hold)
    · exact h.scopes other scope hget
  missed := by
    show (x.scopes.update id f).missed = []
    rw [ScopeTree.update, if_pos hid]
    exact h.missed
  values := h.values
  types := h.types
  named := h.named
  declared := h.declared
  classes := h.classes

theorem mem_bindings_insert {α : Type} {bindings : Bindings α} {name : Atom}
    {binding : Binding α} {entry : Atom × Binding α} (h : entry ∈ bindings.insert name binding) :
    entry ∈ bindings ∨ entry = (name, binding) := by
  unfold Bindings.insert at h
  split at h
  · exact .inl h
  · simpa using h

/-- A change keeps an analysis closed, and what was there stays there. -/
theorem Change.closed {y : Analysis} (hx : x.Closed) (h : Change x y) :
    y.Closed ∧ x.store.Retains y.store := by
  cases h with
  | store s h =>
    have hstore := h.retains hx.store
    exact ⟨hx.withStore hstore, hstore⟩
  | setValue r v hv =>
    refine ⟨{ hx with values := fun q w hw => ?_ }, .refl hx.store⟩
    have hget : (x.valueTable.insert r v).get? q = some w := hw
    rw [NodeTable.get?_insert] at hget
    split at hget
    · exact Option.some.inj hget ▸ hv
    · exact hx.values q w hget
  | setType r t ht =>
    refine ⟨{ hx with types := fun q u hu => ?_ }, .refl hx.store⟩
    have hget : (x.typeTable.insert r t).get? q = some u := hu
    rw [NodeTable.get?_insert] at hget
    split at hget
    · exact Option.some.inj hget ▸ ht
    · exact hx.types q u hget
  | setTypeIfNew r t ht =>
    refine ⟨{ hx with types := fun q u hu => ?_ }, .refl hx.store⟩
    have hget : (x.typeTable.insertIfNew r t).get? q = some u := hu
    rw [NodeTable.get?_insertIfNew] at hget
    split at hget
    · next heq =>
      subst heq
      cases hold : x.typeTable.get? r with
      | none =>
        rw [hold] at hget
        exact Option.some.inj hget ▸ ht
      | some old =>
        rw [hold] at hget
        exact Option.some.inj hget ▸ hx.types r old hold
    · exact hx.types q u hget
  | nameType v t hv ht =>
    refine ⟨{ hx with named := fun entry hentry => ?_ }, .refl hx.store⟩
    rcases List.mem_cons.1 hentry with rfl | hentry
    · exact ⟨hv, ht⟩
    · exact hx.named entry hentry
  | declareType v t hv ht =>
    refine ⟨{ hx with declared := fun entry hentry => ?_ }, .refl hx.store⟩
    rcases List.mem_cons.1 hentry with rfl | hentry
    · exact ⟨hv, ht⟩
    · exact hx.declared entry hentry
  | declareClass decl hcls =>
    refine ⟨{ hx with classes := fun other hother => ?_ }, .refl hx.store⟩
    rcases List.mem_append.1 hother with hother | hother
    · exact hx.classes other hother
    · exact List.mem_singleton.1 hother ▸ hcls
  | report diagnostics => exact ⟨{ hx with }, .refl hx.store⟩
  | openScope kind node outer houter =>
    refine ⟨{ hx with scopes := fun id scope hscope => ?_ }, .refl hx.store⟩
    have hget : (x.scopes.push { kind, node, outer }).2.get? id = some scope := hscope
    rw [ScopeTree.get?_push] at hget
    split at hget
    · next heq =>
      cases hget
      refine ⟨fun o ho => ?_, rfl, fun entry hentry => (List.not_mem_nil hentry).elim,
        fun entry hentry => (List.not_mem_nil hentry).elim⟩
      obtain ⟨other, hother⟩ := Option.isSome_iff_exists.1 (houter o ho)
      exact heq ▸ ScopeTree.lt_size_of_get? hother
    · exact hx.scopes id scope hget
  | reserve id space name hid =>
    refine ⟨hx.updateScope hid fun scope _ hscope => ?_, .refl hx.store⟩
    unfold Scope.reserve
    split
    · exact hscope
    · exact ⟨hscope.outer, hscope.timely, hscope.vars, hscope.types⟩
  | bindVariable id name binding hid htarget =>
    refine ⟨hx.updateScope hid.isSome fun scope hget hscope => ⟨hscope.outer,
      hid.receive hget hscope.timely, fun entry hentry => ?_, hscope.types⟩, .refl hx.store⟩
    rcases mem_bindings_insert hentry with hentry | rfl
    · exact hscope.vars entry hentry
    · exact htarget
  | bindType id name binding hid htarget =>
    refine ⟨hx.updateScope hid.isSome fun scope hget hscope => ⟨hscope.outer,
      hid.receive hget hscope.timely, hscope.vars, fun entry hentry => ?_⟩, .refl hx.store⟩
    rcases mem_bindings_insert hentry with hentry | rfl
    · exact hscope.types entry hentry
    · exact htarget
  | park id p hid =>
    exact ⟨hx.updateScope hid.isSome fun scope hget hscope => ⟨hscope.outer,
      hid.receive hget hscope.timely, hscope.vars, hscope.types⟩, .refl hx.store⟩
  | suspend id hid =>
    exact ⟨hx.updateScope hid.isSome fun scope _ hscope =>
      ⟨hscope.outer, hscope.timely, hscope.vars,
      hscope.types⟩, .refl hx.store⟩
  | close id hid =>
    exact ⟨hx.updateScope hid fun scope _ hscope => ⟨hscope.outer, hscope.timely, hscope.vars,
      hscope.types⟩, .refl hx.store⟩

/-- Changes keep an analysis closed, and what was there stays there. -/
theorem Closed.leads {y : Analysis} (hx : x.Closed) (h : ReflTransGen Change x y) : x.Leads y := by
  induction h with
  | refl => exact ⟨hx, .refl, .refl hx.store⟩
  | tail hxy hyz ih =>
    obtain ⟨hz, hstore⟩ := hyz.closed ih.closed
    exact ⟨hz, hxy.tail hyz, ih.store.trans hstore⟩

end Keeping

namespace Leads

variable {x y z : Analysis}

theorem refl (hx : x.Closed) : x.Leads x := hx.leads .refl

theorem trans (h : x.Leads y) (h' : y.Leads z) : x.Leads z :=
  ⟨h'.closed, h.steps.trans h'.steps, h.store.trans h'.store⟩

instance : IsTrans Analysis Leads := ⟨fun _ _ _ => trans⟩

theorem change (hx : x.Closed) (h : Change x y) : x.Leads y := hx.leads (.single h)

/-- Changes of the store. -/
theorem onStore (hx : x.Closed) {store : Store} (h : x.store.Leads store) :
    x.Leads { x with store } :=
  hx.leads (h.steps.lift (fun s => { x with store := s }) fun _ s hs => .store s hs)

theorem known (h : x.Leads y) {t : TypeId} (ht : x.store.Known t) : y.store.Known t :=
  h.store.keeps.known ht

theorem valueKnown (h : x.Leads y) {v : ValueId} (hv : x.store.ValueKnown v) :
    y.store.ValueKnown v := h.store.keeps.valueKnown v hv

theorem listKnown (h : x.Leads y) {l : ListId} (hl : x.store.ListKnown l) : y.store.ListKnown l :=
  h.store.keeps.listKnown l hl

theorem class? (h : x.Leads y) {v : ValueId} (hv : (x.store.values.class? v).isSome) :
    (y.store.values.class? v).isSome := h.store.class? v hv

theorem constructed? (h : x.Leads y) {v : ValueId} (hv : (x.store.values.constructed? v).isSome) :
    (y.store.values.constructed? v).isSome := h.store.keeps.constructed? hv

end Leads

/-- The state before the first pass is closed. -/
theorem closed_new (a : Arena) : (new a).Closed := by
  let name := (a.atoms.lookup? "prototype").getD .empty
  have hstore : (Store.new name).Retains (new a).store :=
    @Store.Closed.run _ (.new name) .newUndefined trivial trivial
  refine ⟨hstore.closed, ?_, fun id scope hscope => ?_, rfl, fun r v hv => ?_, fun r t ht => ?_,
    fun entry hentry => (List.not_mem_nil hentry).elim,
    fun entry hentry => (List.not_mem_nil hentry).elim,
    fun decl hdecl => (List.not_mem_nil hdecl).elim⟩
  · exact congrArg Option.isSome (ValueStore.get?_alloc_self (Store.new name).values _)
  · simp [new, ScopeTree.get?, ScopeTree.new] at hscope
  · simp [valueOf?, new] at hv
  · simp [typeOf?, new] at ht

end Analysis

end DocTypes
