import DocTypes.Proofs.Binding.Reading
import DocTypes.Proofs.Handles.Names
import DocTypes.Proofs.Hierarchy.Arity
import DocTypes.Proofs.Hierarchy.Readiness
import DocTypes.Proofs.TypeExpr.Names

/-!
# The type parameters of classes

A `@template` tag gives each name in it a type parameter of its own, before a class is made under
the comment. While names are bound, a name in a tag gets no other type: the other nodes that get
types are references. So the type parameters of a class are types of different names, and they are
different types, since a comment has no name among its type parameters twice.

## Main statements

* `Binder.Templates.act`: what each act keeps.
* `Analysis.bindNames_templated`: the type parameters after the first pass.
-/

namespace DocTypes

namespace Analysis

/-- The names of type parameters have their own types, the type names that are parked are
references, no class has a type parameter twice, and no class is applied. -/
structure Templated (a : Arena) (x : Analysis) : Prop where
  typed : ∀ n t, x.typeOf? (some n) = some t → a.kind? (some n) = some .jsDocName →
    x.store.types.key? t = some (.parameter (a.atom (some n)) (some n))
  parked : ∀ id scope, x.scopes.get? id = some scope → ∀ p ∈ scope.parked, p.space = .type →
    a.kind? p.node = some .identifier
  distinct : ∀ v cls, x.store.values.class? v = some cls → cls.typeParameters.Nodup
  plain : ∀ v, x.store.values.constructed? v = none

namespace Templated

variable {a : Arena} {x : Analysis}

theorem wellApplied (h : x.Templated a) : x.store.WellApplied :=
  ⟨h.distinct, fun v data hdata => by rw [h.plain v] at hdata; cases hdata⟩

theorem setType (h : x.Templated a) {r : NodeRef} {t : TypeId}
    (ht : ∀ n, r = some n → a.kind? (some n) = some .jsDocName →
      x.store.types.key? t = some (.parameter (a.atom (some n)) (some n))) :
    (Analysis.setType r t x).2.Templated a := by
  refine ⟨fun n u hu hn => ?_, h.parked, h.distinct, h.plain⟩
  rw [TypeExpr.typeOf?_setType] at hu
  split at hu
  · next heq => exact Option.some.inj hu ▸ ht n heq hn
  · exact h.typed n u hu hn

theorem ofTypes {P : TypeKey → Prop} {types : TypeStore} (h : x.Templated a)
    (htypes : x.store.types.Interns P types) :
    Templated a { x with store := { x.store with types } } :=
  ⟨fun n t ht hn => htypes.key?_of_some (h.typed n t ht hn), h.parked, h.distinct, h.plain⟩

theorem ofValues {values : ValueStore} (h : x.Templated a)
    (hvalues : x.store.values.SameClasses values) :
    Templated a { x with store := { x.store with values } } :=
  ⟨h.typed, h.parked, fun v cls hcls => h.distinct v cls ((hvalues.class? v).symm.trans hcls),
    fun v => (hvalues.constructed? v).trans (h.plain v)⟩

theorem updateScope (h : x.Templated a) (id : ScopeId) {f : Scope → Scope}
    (hf : ∀ scope, ∀ p ∈ (f scope).parked, p ∈ scope.parked ∨
      (p.space = .type → a.kind? p.node = some .identifier)) :
    Templated a { x with scopes := x.scopes.update id f } := by
  refine ⟨h.typed, fun other scope hscope p hp hspace => ?_, h.distinct, h.plain⟩
  have hget : (x.scopes.update id f).get? other = some scope := hscope
  rw [ScopeTree.get?_update] at hget
  split at hget
  · obtain ⟨old, hold, rfl⟩ := Option.map_eq_some_iff.1 hget
    exact (hf old p hp).elim (h.parked other old hold p · hspace) (· hspace)
  · exact h.parked other scope hget p hp hspace

theorem push (h : x.Templated a) {scope : Scope} (hscope : scope.parked = #[]) :
    Templated a { x with scopes := (x.scopes.push scope).2 } := by
  refine ⟨h.typed, fun other old hold p hp => ?_, h.distinct, h.plain⟩
  have hget : (x.scopes.push scope).2.get? other = some old := hold
  rw [ScopeTree.get?_push] at hget
  split at hget
  · obtain rfl := Option.some.inj hget
    rw [hscope] at hp
    exact (Array.not_mem_empty p hp).elim
  · exact h.parked other old hget p hp

/-- The types of different names are different. -/
theorem nodup_types (h : x.Templated a) {names : List Nat} (hnodup : names.Nodup)
    (hkind : ∀ n ∈ names, a.kind? (some n) = some .jsDocName) :
    (names.filterMap fun n => x.typeOf? (some n)).Nodup := by
  induction names with
  | nil => exact List.nodup_nil
  | cons n rest ih =>
    obtain ⟨hfresh, hrest⟩ := List.nodup_cons.1 hnodup
    have hothers := ih hrest fun m hm => hkind m (List.mem_cons_of_mem _ hm)
    cases hn : x.typeOf? (some n) with
    | none => rwa [List.filterMap_cons, hn]
    | some t =>
      rw [List.filterMap_cons, hn]
      refine List.nodup_cons.2 ⟨fun hmem => ?_, hothers⟩
      -- a type that two names have would be the parameter of both
      obtain ⟨m, hm, hsame⟩ := List.mem_filterMap.1 hmem
      have hkey := h.typed n t hn (hkind n List.mem_cons_self)
      rw [h.typed m t hsame (hkind m (List.mem_cons_of_mem _ hm))] at hkey
      injection hkey with hkey
      injection hkey with _ heq
      exact hfresh (Option.some.inj heq ▸ hm)

end Templated

/-- Before the first pass no node has a type. -/
theorem templated_new (a : Arena) : (new a).Templated a := by
  refine ⟨fun n t ht => ?_, fun id scope hscope => ?_, fun v cls hcls => ?_, constructed?_new a⟩
  · simp [typeOf?, new] at ht
  · simp [new, ScopeTree.get?, ScopeTree.new] at hscope
  · rw [class?_new] at hcls
    cases hcls

end Analysis

namespace Binder

open Analysis

/-- What is said of the type parameters goes on to hold. -/
def Templates (a : Arena) (b b' : Binder) : Prop :=
  b.analysis.Templated a → b'.analysis.Templated a

variable {a : Arena}

instance : Std.Refl (Templates a) := ⟨fun _ => id⟩

instance : IsTrans Binder (Templates a) := ⟨fun _ _ _ h h' => h' ∘ h⟩

theorem onAnalysis_templates {α : Type} {step : Analyze α}
    (h : ∀ x, x.Templated a → (step x).2.Templated a) :
    Moves (Templates a) (Bind.onAnalysis step) :=
  fun b hb => h b.analysis hb

theorem setValue_templates (r : NodeRef) (v : ValueId) :
    Moves (Templates a) (Bind.onAnalysis (Analysis.setValue r v)) :=
  onAnalysis_templates fun _ h => ⟨h.typed, h.parked, h.distinct, h.plain⟩

theorem reportAt_templates (problem : Problem) (node : NodeRef) :
    Moves (Templates a) (Bind.onAnalysis (Analysis.reportAt a problem node)) :=
  onAnalysis_templates fun _ h => ⟨h.typed, h.parked, h.distinct, h.plain⟩

theorem reportRelated_templates (problem : Problem) (node related : NodeRef) :
    Moves (Templates a) (Bind.onAnalysis (Analysis.reportRelated a problem node related)) :=
  onAnalysis_templates fun _ h => ⟨h.typed, h.parked, h.distinct, h.plain⟩

theorem onTypes_templates {α : Type} {f : TypeStore → α × TypeStore}
    (h : ∀ types : TypeStore, types.Interns (fun _ => True) (f types).2) :
    Moves (Templates a) (Bind.onAnalysis (Analysis.onTypes f)) :=
  onAnalysis_templates fun x hx => hx.ofTypes (h x.store.types)

theorem onValues_templates {α : Type} {f : ValueStore → α × ValueStore}
    (h : ∀ values : ValueStore, values.SameClasses (f values).2) :
    Moves (Templates a) (Bind.onAnalysis (Analysis.onValues f)) :=
  onAnalysis_templates fun x hx => hx.ofValues (h x.store.values)

theorem modifyValues_templates {f : ValueStore → ValueStore}
    (h : ∀ values : ValueStore, values.SameClasses (f values)) :
    Moves (Templates a) (Bind.onAnalysis (Analysis.modifyValues f)) :=
  onAnalysis_templates fun x hx => hx.ofValues (h x.store.values)

theorem updateScope_templates (id : ScopeId) {f : Scope → Scope}
    (hf : ∀ scope, ∀ p ∈ (f scope).parked, p ∈ scope.parked ∨
      (p.space = .type → a.kind? p.node = some .identifier)) :
    Moves (Templates a) (updateScope id f) :=
  fun _ hb => hb.updateScope id hf

theorem park_templates (id : ScopeId) {p : Parked}
    (hp : p.space = .type → a.kind? p.node = some .identifier) :
    Moves (Templates a) (park id p) := by
  refine updateScope_templates id fun scope q hq => ?_
  rcases Array.mem_push.1 hq with hq | rfl
  · exact .inl hq
  · exact .inr hp

/-- A node that is not a name in a tag gets a type. -/
theorem setType_templates {r : NodeRef} (hr : a.kind? r = some .identifier) (t : TypeId) :
    Moves (Templates a) (Bind.onAnalysis (Analysis.setType r t)) := by
  refine onAnalysis_templates fun x hx => hx.setType fun n heq hn => ?_
  subst heq
  cases hr.symm.trans hn

theorem addRead_templates (v : ValueId) (node : NodeRef) :
    Moves (Templates a) (Bind.onAnalysis (Analysis.modifyValues (·.addRead v node))) :=
  modifyValues_templates fun values => .mapSlot values v _

theorem addWrite_templates (v : ValueId) (node : NodeRef) :
    Moves (Templates a) (Bind.onAnalysis (Analysis.modifyValues (·.addWrite v node))) :=
  modifyValues_templates fun values => .mapSlot values v _

theorem declareVariable_templates (id : ScopeId) (binding : NodeRef) :
    Moves (Templates a) (declareVariable a id binding) := by
  refine .bind .get fun b => ?_
  split
  · refine .bind (reportRelated_templates _ _ _) fun _ => ?_
    exact .bind (setValue_templates _ _) fun _ => .pure _
  · refine .bind (onValues_templates fun values => .alloc values rfl rfl) fun _ => ?_
    refine .bind (updateScope_templates _ fun _ _ => .inl) fun _ => ?_
    exact .bind (setValue_templates _ _) fun _ => .pure _

theorem declareType_templates (id : ScopeId) (name : NodeRef) (t : TypeId) :
    Moves (Templates a) (declareType a id name t) := by
  refine .bind .get fun b => ?_
  split
  · exact reportRelated_templates _ _ _
  · exact updateScope_templates _ fun _ _ => .inl

theorem bindReference_templates (node : NodeRef) (target : ValueId) (assigned : NodeRef) :
    Moves (Templates a) (bindReference node target assigned) := by
  refine .bind (setValue_templates _ _) fun _ => .bind (addRead_templates _ _) fun _ => ?_
  exact .ite (fun _ => addWrite_templates _ _) fun _ => .pure _

theorem visitIdentifier_templates (node assigned : NodeRef) :
    Moves (Templates a) (visitIdentifier a node assigned) := by
  have hpark (id : ScopeId) : Moves (Templates a)
      (park id { name := a.atom node, node, space := .value, assigned }) := park_templates id nofun
  refine .bind .get fun b => ?_
  dsimp only
  split
  · exact .bind (bindReference_templates _ _ _) fun _ => .pure _
  · exact .bind (hpark _) fun _ => .pure _
  · refine .ite (fun _ => .bind (setValue_templates _ _) fun _ => .pure _) fun _ => ?_
    exact .ite (fun _ => .pure _) fun _ => .bind (hpark _) fun _ => .pure _

theorem visitMember_templates (n : Nat) (object : ValueId) (create : Bool) :
    Moves (Templates a) (visitMember a n object create) := by
  refine .bind .get fun b => ?_
  dsimp only
  refine .ite (fun _ => ?_) fun _ => ?_
  · refine .bind (onValues_templates fun values => .newProperty values _ _ _) fun _ => ?_
    refine .bind (setValue_templates _ _) fun _ => ?_
    exact .bind (setValue_templates _ _) fun _ => .pure _
  · split
    · exact .pure _
    · refine .bind (setValue_templates _ _) fun _ => .bind (setValue_templates _ _) fun _ => ?_
      exact .bind (addRead_templates _ _) fun _ => .pure _

/-- A type name that is not dotted is a reference. -/
theorem visitTypeName_templates {n : Nat} (hn : a.kind? (a.child (some n) 0) = some .identifier) :
    Moves (Templates a) (visitTypeName a n) := by
  unfold visitTypeName
  dsimp only
  rw [hn]
  refine .ite (fun _ => .pure _) fun _ => .bind .get fun b => ?_
  split
  · exact setType_templates hn _
  · exact park_templates _ fun _ => hn
  · exact park_templates _ fun _ => hn

theorem retry_templates (reportUndefined : Bool) (scope : Scope) {p : Parked}
    (hp : p.space = .type → a.kind? p.node = some .identifier) :
    Moves (Templates a) (retry a reportUndefined scope p) := by
  unfold retry
  split
  · exact bindReference_templates _ _ _
  · next hspace _ => exact setType_templates (hp hspace) _
  · split
    · exact park_templates _ hp
    · exact .ite (fun _ => reportAt_templates _ _) fun _ => .pure _

theorem exitScope_templates (reportUndefined : Bool) :
    Moves (Templates a) (exitScope a reportUndefined) := by
  intro b hb
  cases hscope : b.analysis.scopes.get? b.current with
  | none =>
    unfold exitScope
    rw [run_bind, run_get, run_bind, run_get, hscope]
    exact hb
  | some scope =>
    have hsuspended : b.suspended.analysis.Templated a :=
      hb.updateScope b.current fun _ p hp => (Array.not_mem_empty p hp).elim
    have htried : Moves (Templates a) (scope.parked.toList.forM (retry a reportUndefined scope)) :=
      .forM fun p hp => retry_templates reportUndefined scope
        (hb.parked b.current scope hscope p (Array.mem_toList_iff.1 hp))
    rw [run_exitScope a reportUndefined hscope]
    exact (htried _ hsuspended).updateScope b.current fun _ _ => .inl

/-- A class gets the types of different names as type parameters. -/
theorem declareClass_templates (site : NodeRef) (name : String) {doc : Option DocComment}
    (hdoc : ∀ x ∈ doc, x.Compiled a) (heritage node : NodeRef) :
    Moves (Templates a) (declareClass a site name doc heritage node) := by
  intro b hb
  let names := (doc.map (·.typeParameters)).getD []
  have hnames : names.Nodup ∧ ∀ n ∈ names, a.kind? (some n) = some .jsDocName := by
    cases doc with
    | none => exact ⟨List.nodup_nil, fun _ hn => (List.not_mem_nil hn).elim⟩
    | some x =>
      obtain ⟨document, target, rfl⟩ := hdoc x rfl
      exact ⟨DocComment.nodup_typeParameters _ _, fun _ => DocComment.kind?_of_mem_typeParameters⟩
  let parameters := names.filterMap fun n => b.analysis.typeOf? (some n)
  let made := b.analysis.store.values.newClass site (classKind doc) name parameters
  obtain ⟨⟨_, hclass⟩, hconstructed, -⟩ :=
    b.analysis.store.values.newClass_spec site (classKind doc) name parameters
  refine ⟨hb.typed, hb.parked, fun v cls hcls => ?_, fun v => (hconstructed v).trans (hb.plain v)⟩
  have hget : made.2.class? v = some cls := hcls
  rw [hclass] at hget
  split at hget
  · obtain rfl := Option.some.inj hget
    exact hb.nodup_types hnames.1 hnames.2
  · exact hb.distinct v cls hget

/-- Every sound act keeps what is said of the type parameters. -/
theorem Templates.act {act : Act} (hact : act.Sound a) (reportUndefined : Bool) :
    Moves (Templates a) (act.run a reportUndefined) := by
  cases act with
  | enter kind node => exact fun b hb => hb.push rfl
  | exit => exact exitScope_templates reportUndefined
  | reserve id space name =>
    refine updateScope_templates id fun scope p hp => .inl ?_
    unfold Scope.reserve at hp
    split at hp <;> exact hp
  | bindName id binding => exact (declareVariable_templates id binding).discard
  | bindType id name t => exact declareType_templates id name t
  | template name =>
    intro b hb
    let key := TypeKey.parameter (a.atom (some name)) (some name)
    have hinterns : b.analysis.store.types.Interns (fun _ => True)
        (b.analysis.store.types.intern key).2 := .intern _ trivial
    have hmade := hb.ofTypes hinterns
    refine hmade.setType (r := some name) (t := (b.analysis.store.types.intern key).1)
      fun n heq _ => ?_
    obtain rfl := Option.some.inj heq
    exact b.analysis.store.types.key?_intern key
  | makeClass site name doc heritage node =>
    exact (declareClass_templates site name hact heritage node).discard
  | compile document target =>
    exact fun b h => ⟨h.typed, h.parked, h.distinct, h.plain⟩
  | keepComment target doc => exact fun b h => ⟨h.typed, h.parked, h.distinct, h.plain⟩
  | identifier node assigned => exact (visitIdentifier_templates node assigned).discard
  | member n owner create => exact (visitMember_templates n owner create).discard
  | typeReference n => exact visitTypeName_templates hact
  | function n => exact (onValues_templates fun values => .alloc values rfl rfl).discard
  | object n => exact (onValues_templates fun values => .newObject values _).discard
  | property owner key node =>
    exact (onValues_templates fun values => .newProperty values _ _ _).discard
  | value r v => exact setValue_templates r v
  | write v node => exact addWrite_templates v node
  | instanceType cls =>
    exact (onTypes_templates (f := (·.instanceOf cls)) fun types => .intern types trivial).discard
  | aliasType doc name =>
    let tag := doc.tag (if doc.kind = .enum then .enumTag else .typedefTag)
    exact (onTypes_templates (f := (·.aliasOf name tag)) fun types => .intern types trivial).discard
  | nameType v t => exact onAnalysis_templates fun x h => ⟨h.typed, h.parked, h.distinct, h.plain⟩
  | report problem node => exact reportAt_templates problem node

end Binder

namespace Analysis

/-- After the first pass no class has a type parameter twice, and no class is applied. -/
theorem bindNames_templated (a : Arena) (reportUndefined : Bool) (root : NodeRef) :
    (bindNames a reportUndefined root (new a)).2.Templated a := by
  obtain ⟨acts, hrun, hsound, -⟩ := bindNames_acts a reportUndefined root 0
  rw [hrun]
  refine Binder.doAll_induction (I := fun b => b.analysis.Templated a) hsound ?_ fun act hact =>
    Binder.Templates.act hact reportUndefined
  exact (templated_new a).push rfl

end Analysis

end DocTypes
