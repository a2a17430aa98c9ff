import DocTypes.Proofs.Handles.Access
import DocTypes.Proofs.Handles.Stages
import DocTypes.Proofs.Hierarchy.Connection
import DocTypes.Proofs.Hierarchy.Counting
import DocTypes.Proofs.Hierarchy.Cycles
import DocTypes.Proofs.Tree.Layout

/-!
# Handles in a run

A run is a chain of changes from the empty state (`Analysis.runPasses_steps`), for every tree, every
root and all options, and the stages that it goes through are states on that chain
(`Stage.Reached.sound`). Each change finds what it names, and every state that changes lead to
is closed, so whatever is looked up while it lasts is there (`Analysis.Grounded`).

## Main statements

* `Analysis.runPasses_steps`: the passes change the state one write at a time.
* `Analysis.Closed.grounded`: in a closed state every number that is looked up is in range.
* `Analysis.run_grounded`: so it is at every step of a run.
-/

namespace DocTypes

open Relation

/-! ## Numbers in range -/

/-- A value that is there has a number in range. -/
theorem Store.ValueKnown.inRange {s : Store} {v : ValueId} (h : s.ValueKnown v) :
    ValueId.first ≤ v.index ∧ v.index - ValueId.first < s.values.size := by
  have hlt := h.lt
  obtain ⟨value, hvalue⟩ := Option.isSome_iff_exists.1 h
  obtain ⟨i, hi, -⟩ := Option.bind_eq_some_iff.1 hvalue
  rw [ValueId.position?_eq_some_iff] at hi
  subst hi
  simp only [ValueId.atPosition] at hlt ⊢
  omega

namespace Arena

/-- The children of a node are nodes. -/
theorem lt_size_of_mem_children {a : Arena} {n c : Nat} (h : some c ∈ a.children (some n)) :
    c < a.size := by
  have hlt := lt_of_mem_children h
  have hn : n < a.size := by
    simp only [children, node?, Option.bind_some] at h
    by_contra hge
    rw [Array.getElem?_eq_none (by simpa [size] using hge)] at h
    simp at h
  omega

end Arena

namespace Hierarchy

/-- Both ends of every edge among the classes that are left over are classes that are left
over. -/
theorem lt_size_of_mem_targets {values : ValueStore} {classes : Registry ValueId} {i j : Nat}
    (h : j ∈ (baseGraph values classes).targets i) :
    i < (baseGraph values classes).size ∧ j < (baseGraph values classes).size ∧
      (classes.get? i).isSome ∧ (classes.get? j).isSome := by
  have hsize : (baseGraph values classes).size = classes.toList.length := by
    simp [baseGraph, Graph.size]
  have hi : i < (baseGraph values classes).size := by
    unfold Graph.targets at h
    by_contra hge
    rw [Array.getElem?_eq_none (by simpa [Graph.size] using hge)] at h
    simp at h
  have hj : j < (baseGraph values classes).size := by
    obtain ⟨c, hc⟩ : ∃ c, classes.toList[i]? = some c := by
      rw [hsize] at hi
      exact ⟨classes.toList[i], List.getElem?_eq_getElem hi⟩
    have htargets : (baseGraph values classes).targets i =
        (baseClasses values c).filterMap classes.find? := by
      simp [baseGraph, Graph.targets, hc]
    rw [htargets, List.mem_filterMap] at h
    obtain ⟨d, -, hfind⟩ := h
    have hget := get?_eq_some_iff_toList.1 (Registry.find?_eq_some_iff.1 hfind)
    exact hsize ▸ (List.getElem?_eq_some_iff.1 hget).1
  obtain ⟨c, d, hc, hd, -⟩ := edge_baseGraph.1 ⟨hi, hj, h⟩
  exact ⟨hi, hj, Option.isSome_iff_exists.2 ⟨c, hc⟩, Option.isSome_iff_exists.2 ⟨d, hd⟩⟩

end Hierarchy

namespace Analysis

/-- What is looked up without a check is there, and so it was so far. -/
structure Grounded (x : Analysis) : Prop where
  /-- The number of a value is a position in the values. -/
  value : ∀ v, x.store.ValueKnown v →
    ValueId.first ≤ v.index ∧ v.index - ValueId.first < x.store.values.size
  /-- The table of a value is there, and the table that a property lies in. -/
  table : ∀ v t, x.store.values.tableOf? v = some t → x.store.TableKnown t
  owner : ∀ v value key t slot, x.store.values.get? v = some value →
    value.data = .propertySlot key t slot → x.store.TableKnown t
  property : ∀ owner key v, x.store.values.property? owner key = some v → x.store.ValueKnown v
  /-- The signature of a function type is there, and so is all that a signature names. -/
  shape : ∀ t id, x.store.types.storedKey? t = some (.function id) →
    (x.store.types.shape? id).isSome
  signature : ∀ id shape, x.store.types.shape? id = some shape →
    x.store.KeyKnown (.function shape)
  /-- A scope around a scope is there. -/
  outer : ∀ s o, x.scopes.outer? s = some o → o.index < s.index ∧ s.index < x.scopes.size
  /-- What a node or a path stands for, and the class behind it, is there. -/
  denote : ∀ r v, x.valueOf? r = some v → x.store.ValueKnown (x.denote v)
  path : ∀ a r v, x.resolvePath a r = some v → x.store.ValueKnown v
  classOf : ∀ v cls, x.classOf? v = some cls → x.store.ValueKnown cls
  /-- No access to a value, a table or a scope fails, so the questions that are made of such
  accesses get the answers that the passes work with. -/
  fetchMember : ∀ v key,
    x.store.values.fetchMember v key = .ok (x.store.values.property? v key)
  fetchDenoted : ∀ v, x.fetchDenoted aliasSteps v = .ok (x.denote v)
  fetchClass : ∀ v, x.store.ValueKnown v → x.fetchClass v = .ok (x.classOf? v)
  fetchPath : ∀ a r, x.fetchPath a r = .ok (x.resolvePath a r)
  fetchSlot : ∀ site, x.fetchSlot site = .ok (Typing.slotAt? x site)
  fetchDeclared : ∀ a target cls, x.declaredClass? a target = some cls →
    ∃ value, x.store.values.fetch cls = .ok value
  fetchNearest : ∀ id accept, (x.scopes.get? id).isSome →
    x.scopes.fetchNearest id accept = .ok (x.scopes.nearest id accept)
  fetchVariable : ∀ id name, (x.scopes.get? id).isSome →
    x.scopes.fetchName .value name (·.vars) id = .ok (x.scopes.lookupVariable id name)
  fetchType : ∀ id name, (x.scopes.get? id).isSome →
    x.scopes.fetchName .type name (·.types) id = .ok (x.scopes.lookupType id name)
  /-- Every value, table and scope that was to be changed was there. -/
  missed : x.store.values.missed = [] ∧ x.scopes.missed = []
  /-- Nothing was put in a scope that was not open. -/
  timely : ∀ id scope, x.scopes.get? id = some scope → scope.overdue = false

theorem Closed.grounded {x : Analysis} (hx : x.Closed) : x.Grounded where
  value _ hv := hv.inRange
  table _ _ := hx.store.tableKnown_of_tableOf?
  owner v value key t slot hget hdata := by
    have hknown := (hx.store.values v value hget).data
    rw [hdata] at hknown
    exact hknown
  property _ _ _ h := hx.store.property? h
  shape t id := x.store.types.shapes_known _ id
  signature id shape hshape := by
    obtain ⟨t, ht⟩ := hx.store.shapes id shape hshape
    exact hx.store.canonical.keyKnown t _ ht
  outer s o ho := ⟨hx.nested s o ho, ScopeTree.lt_size_of_outer? ho⟩
  denote r v hv := hx.valueKnown_denote (hx.values r v hv)
  path a _ _ h := hx.valueKnown_resolvePath a h
  classOf _ _ h := valueKnown_of_classOf? h
  fetchMember := hx.fetchMember
  fetchDenoted := hx.fetchDenoted aliasSteps
  fetchClass _ := hx.fetchClass
  fetchPath := hx.fetchPath
  fetchSlot := hx.fetchSlot
  fetchDeclared a target cls hcls := by
    have hclass := Typing.isSome_class?_of_declaredClass? a hcls
    obtain ⟨value, hvalue⟩ := Option.isSome_iff_exists.1 (Store.valueKnown_of_class? hclass)
    exact ⟨value, ValueStore.fetch_of_some hvalue⟩
  fetchNearest _ accept hid := ScopeTree.fetchNearest_eq hx.nested hid accept
  fetchVariable _ name hid := ScopeTree.fetchName_eq hx.nested hid .value name _
  fetchType _ name hid := ScopeTree.fetchName_eq hx.nested hid .type name _
  missed := ⟨hx.store.missed, hx.missed⟩
  timely id scope hscope := (hx.scopes id scope hscope).timely

/-! ## Scopes that are closing -/

/-- A scope gets bindings and parked names only while it is open. -/
theorem Change.opened {x y : Analysis} (h : Change x y) {id : ScopeId} {scope scope' : Scope}
    (hscope : x.scopes.get? id = some scope) (hscope' : y.scopes.get? id = some scope')
    (hnew : scope'.vars ≠ scope.vars ∨ scope'.types ≠ scope.types ∨
      scope.parked.size < scope'.parked.size) : scope.state = .opened := by
  have hsame (heq : y.scopes.get? id = x.scopes.get? id) : False := by
    rw [heq, hscope] at hscope'
    cases hscope'
    rcases hnew with hnew | hnew | hnew
    · exact hnew rfl
    · exact hnew rfl
    · exact Nat.lt_irrefl _ hnew
  have hupdate (other : ScopeId) (f : Scope → Scope)
      (hget : (x.scopes.update other f).get? id = some scope') : id = other ∧ scope' = f scope := by
    rw [ScopeTree.get?_update] at hget
    by_cases hid : other = id
    · rw [if_pos hid, hscope] at hget
      exact ⟨hid.symm, (Option.some.inj hget).symm⟩
    · rw [if_neg hid] at hget
      exact (hsame (hscope'.trans hget.symm)).elim
  have hopen (other : ScopeId) (hid : id = other) (ho : x.IsOpen other) :
      scope.state = .opened := by
    obtain ⟨old, hold, hstate⟩ := ho
    rw [← hid, hscope] at hold
    exact Option.some.inj hold ▸ hstate
  cases h with
  | openScope kind node outer houter =>
      exact (hsame ((ScopeTree.get?_push_of_some _ hscope).trans hscope.symm)).elim
  | reserve other space name _ =>
    obtain ⟨-, heq⟩ := hupdate other _ hscope'
    have hkept : scope'.vars = scope.vars ∧ scope'.types = scope.types ∧ scope'.parked =
        scope.parked := by
      rw [heq]
      unfold Scope.reserve
      split <;> exact ⟨rfl, rfl, rfl⟩
    rcases hnew with hnew | hnew | hnew
    · exact absurd hkept.1 hnew
    · exact absurd hkept.2.1 hnew
    · rw [hkept.2.2] at hnew
      exact absurd hnew (Nat.lt_irrefl _)
  | bindVariable other name binding ho _ => exact hopen other (hupdate other _ hscope').1 ho
  | bindType other name binding ho _ => exact hopen other (hupdate other _ hscope').1 ho
  | park other p ho => exact hopen other (hupdate other _ hscope').1 ho
  | suspend other ho => exact hopen other (hupdate other _ hscope').1 ho
  | close other _ =>
    obtain ⟨-, rfl⟩ := hupdate other _ hscope'
    rcases hnew with hnew | hnew | hnew
    · exact absurd rfl hnew
    · exact absurd rfl hnew
    · exact absurd hnew (Nat.lt_irrefl _)
  | _ => exact (hsame rfl).elim

/-! ## Runs -/

/-- Every pass leads from a closed state to a closed one. -/
theorem pass_leads {x : Analysis} (hx : x.Closed) {a : Arena} {reportUndefined : Bool}
    {root : NodeRef} {pass : Analyze Unit} (hpass : pass ∈ passes a reportUndefined root) :
    x.Leads (pass x).2 := by
  simp only [passes, List.mem_cons, List.not_mem_nil, or_false] at hpass
  rcases hpass with rfl | rfl | rfl
  · exact bindNames_leads hx a reportUndefined root
  · exact (Hierarchy.build_runs hx a).1
  · exact (Typing.run_runs hx a root).1

/-- The passes change the state one write at a time, and each write finds what it names. -/
theorem runPasses_steps (a : Arena) (reportUndefined : Bool) (root : NodeRef) (count : Nat) :
    (new a).Leads (runPasses a reportUndefined root count) := by
  have hpasses (ps : List (Analyze Unit)) (hps : ∀ p ∈ ps, p ∈ passes a reportUndefined root) :
      ∀ x : Analysis, x.Closed → x.Leads (ps.foldl (fun x pass => (pass x).2) x) := by
    induction ps with
    | nil => exact fun x hx => .refl hx
    | cons p ps ih =>
      intro x hx
      have hfirst := pass_leads hx (hps p List.mem_cons_self)
      have hrest := ih (fun q hq => hps q (List.mem_cons_of_mem _ hq)) _ hfirst.closed
      exact hfirst.trans hrest
  exact hpasses _ (fun p hp => List.mem_of_mem_take hp) _ (closed_new a)

/-- No handle dangles. A run is a chain of changes, each of which names what is there and adds to
open scopes alone, and each piece of work that a run does one after the other is such a chain. In
every state on the way each handle names something, and what is looked up without a check is there:
values, tables of members, signatures, scopes, lists of children, the classes in the search for
cycles and their components. What is kept stays to the end. No counter drops below zero in the order
of finalization. -/
theorem run_grounded (a : Arena) (root : NodeRef) (options : Options) :
    ReflTransGen Change (new a) (run a root options) ∧
      (∀ x y, ReflTransGen Change (new a) x → Change x y →
        x.Closed ∧ x.Grounded ∧ y.Closed ∧ y.Grounded ∧
        ∀ id scope scope', x.scopes.get? id = some scope → y.scopes.get? id = some scope' →
          (scope'.vars ≠ scope.vars ∨ scope'.types ≠ scope.types ∨
            scope.parked.size < scope'.parked.size) → scope.state = .opened) ∧
      Stage.Reached a (options.reports a root) root (.finished (run a root options)) ∧
      (∀ s, Stage.Reached a (options.reports a root) root s →
        ReflTransGen Change (new a) s.state ∧ s.state.Closed ∧ s.state.Grounded ∧
        (∀ s', s.Step a (options.reports a root) root s' →
          ReflTransGen Change s.state s'.state) ∧
        ReflTransGen Change s.state (run a root options) ∧
        s.state.store.Retains (run a root options).store ∧
        ∀ m, s = .names m → m.works ≠ [] → m.state.analysis.IsOpen m.state.current) ∧
      (∀ n c, some c ∈ a.children (some n) → c < a.size) ∧
      (∀ n p, a.parent (some n) = some p → n < p ∧ p < a.size) ∧
      (∀ nodes b, Arena.empty.Adds nodes b → ∀ (n : Nat) header,
        (Packed.ofNodes nodes).headers[n]? = some header →
          header.firstChild + header.childCount ≤ (Packed.ofNodes nodes).buffer.size) ∧
      (∀ values decls blocked,
        Hierarchy.countingOrder (Hierarchy.schedule values decls blocked) =
          some (Hierarchy.finalizationOrder (Hierarchy.schedule values decls blocked))) ∧
      ∀ values classes i j, j ∈ (Hierarchy.baseGraph values classes).targets i →
        i < (Hierarchy.baseGraph values classes).size ∧
        j < (Hierarchy.baseGraph values classes).size ∧
        (classes.get? i).isSome ∧ (classes.get? j).isSome ∧
        ((Hierarchy.baseGraph values classes).components[i]?).isSome ∧
        ((Hierarchy.baseGraph values classes).components[j]?).isSome := by
  refine ⟨(runPasses_steps a _ root 3).steps, ?_, Stage.steps_run a root options, fun s hs => ?_,
    fun _ _ => Arena.lt_size_of_mem_children, fun _ _ => Arena.lt_of_parent_eq_some,
    fun nodes b hb => (Packed.represents_ofNodes hb).inside, fun values decls blocked => ?_,
    fun values classes i j hj => ?_⟩
  · intro x y hx hstep
    have hxc := ((closed_new a).leads hx).closed
    have hyc := (hstep.closed hxc).1
    exact ⟨hxc, hxc.grounded, hyc, hyc.grounded, fun _ _ _ => hstep.opened⟩
  · obtain ⟨hsound, hleads⟩ := hs.sound
    have hrest := hs.leads_run
    refine ⟨hleads.steps, hsound.closed, hsound.closed.grounded,
      fun _ hstep => (hsound.step hstep).2.steps, hrest.steps, hrest.store, ?_⟩
    rintro m rfl hworks
    exact hs.isOpen hworks
  · exact Hierarchy.countingOrder_eq (Hierarchy.schedule_nodup values decls blocked)
  · obtain ⟨hi, hj, hclasses⟩ := Hierarchy.lt_size_of_mem_targets hj
    have hcomponent (v : Nat) (hv : v < (Hierarchy.baseGraph values classes).size) :
        ((Hierarchy.baseGraph values classes).components[v]?).isSome := by
      obtain ⟨i, hclosed⟩ := (Graph.search_spec _).2 v hv
      rw [Graph.components_of_closed hclosed]
      rfl
    exact ⟨hi, hj, hclasses.1, hclasses.2, hcomponent i hi, hcomponent j hj⟩

end Analysis

end DocTypes
