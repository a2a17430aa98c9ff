import DocTypes.Proofs.Binding.Resolving
import DocTypes.Tree.Builder

/-!
# Lexical scoping

While names are bound, a reference is looked up in scopes that are not finished. In the end it
stands for what the finished scopes say: for what the innermost scope around it binds its name to,
no matter where in that scope the name is bound (`ScopeTree.resolve`). This holds of all references
to variables. It holds of a reference to a type as well, unless the name is one that a scope binds
without having reserved it (`Arena.IsLate`).

## Main statements

* `Reference.fate_eq_resolve`: what has become of a reference is what the finished scopes say.
* `Analysis.values_resolve`: references to variables.
* `Analysis.types_resolve`: references to types.
-/

namespace DocTypes

open Binder

/-- What a reference stands for in a scope of a finished tree. -/
def ScopeTree.resolve (a : Arena) (t : ScopeTree) (p : Parked) (c : ScopeId) : Fate :=
  match t.innermost? p.space p.name c, p.space with
  | some x, _ => .bound x
  | none, .type => .missing
  | none, .value =>
    if a.text p.node = "undefined" then .undefinedName
    else if a.text p.node = "arguments" &&
        (t.get? (t.nearestFunction c)).any (·.kind = .function) then .argumentsName
    else .missing

/-! ## Fates in a finished tree -/

section Fate

variable {a : Arena} {late : Atom → Prop} {t : ScopeTree} {r : Reference}

theorem ScopeTree.innermost?_of_target? (ht : t.Nested) {s : ScopeId} {scope : Scope}
    {space : Namespace}
    {name : Atom} {x : Target} (hs : t.get? s = some scope)
    (hx : scope.target? space name = some x) :
    t.innermost? space name s = some x := by
  rw [innermost?, outward_eq ht, hs, Option.bind_some, hx, Option.some_or]

/-- Whether a reference is the name `arguments` inside a function can be seen later on. -/
theorem Reference.Remembered.isArguments (h : r.Remembered late t) (ht : t.Nested) :
    r.isArguments a = (a.text r.parked.node = "arguments" &&
      (t.get? (t.nearestFunction r.scope)).any (·.kind = .function)) := by
  have hnearest : t.nearestFunction r.scope = r.seen.nearestFunction r.scope :=
    h.grows.nearest h.nested ht h.scope _
  have hmem : r.seen.nearestFunction r.scope ∈ r.seen.chain r.scope :=
    ScopeTree.nearest_mem_chain h.nested _ _
  obtain ⟨scope, hscope⟩ := ScopeTree.exists_get?_of_lt
    (Nat.lt_of_le_of_lt (ScopeTree.index_le_of_mem_chain h.nested hmem) h.scope)
  obtain ⟨scope', hscope', hgrows⟩ := h.grows _ scope hscope
  rw [Reference.isArguments, hnearest, hscope, hscope', Option.any_some,
    Option.any_some, hgrows.kind]

/-- **Fates in a finished tree.** A reference that was met in a tree which has only grown since
stands for what the tree says of its name. -/
theorem Reference.fate_eq_resolve (h : r.Remembered late t) (ht : t.Nested)
    (hclosed : ∀ s scope, t.get? s = some scope → scope.state ≠ .opened)
    (hsettled : ∀ s scope, t.get? s = some scope → ∀ name, (.value, name) ∈ scope.reserved →
      (scope.target? .value name).isSome)
    (hname : r.parked.space = .type → ¬late r.parked.name) :
    r.fate a t = t.resolve a r.parked r.scope := by
  cases htaker : r.taker? with
  | none =>
    -- no scope took the name, so none of them binds it
    have hnone := h.grows.innermost?_eq_none h.nested ht h.scope hname htaker
    have hstart : r.start = r.scope := by rw [start, htaker, Option.getD_none]
    rw [fate, hstart, ScopeTree.settle_of_closed hclosed, hnone, ScopeTree.resolve, hnone,
      decided?, htaker]
    dsimp only
    cases r.parked.space with
    | type => rfl
    | value =>
      dsimp only
      rw [h.isArguments ht]
      split
      · rfl
      · split <;> rfl
  | some id =>
    have hsame := h.grows.innermost?_of_taker? h.nested ht h.scope hname htaker
    have hstart : r.start = id := by rw [start, htaker, Option.getD_some]
    obtain ⟨hmem, htakes⟩ := ScopeTree.mem_chain_of_taker? htaker
    obtain ⟨scope, hscope⟩ := ScopeTree.exists_get?_of_lt
      (Nat.lt_of_le_of_lt (ScopeTree.index_le_of_mem_chain h.nested hmem) h.scope)
    obtain ⟨scope', hscope', hgrows⟩ := h.grows id scope hscope
    rw [fate, decided?_of_taker htaker, hscope, Option.bind_some, hstart,
      ScopeTree.settle_of_closed hclosed, ScopeTree.resolve, hsame]
    cases hx : scope.target? r.parked.space r.parked.name with
    | some x =>
      -- the scope binds the name already
      rw [ScopeTree.innermost?_of_target? ht hscope' (hgrows.binds _ _ x hx)]
      rfl
    | none =>
      cases hfound : t.innermost? r.parked.space r.parked.name id with
      | some x => rfl
      | none =>
        cases hspace : r.parked.space with
        | type => rfl
        | value =>
          -- the scope has bound the name since, as it reserved it
          rw [hspace] at hx hfound htakes
          rw [hscope, Option.any_some, Scope.takes, hx, Option.isSome_none, Bool.false_or] at htakes
          have hreserved : (.value, r.parked.name) ∈ scope.reserved :=
            List.contains_iff_mem.1 htakes
          rw [← hgrows.reserved] at hreserved
          obtain ⟨x, hx'⟩ := Option.isSome_iff_exists.1 (hsettled id scope' hscope' _ hreserved)
          rw [ScopeTree.innermost?_of_target? ht hscope' hx'] at hfound
          cases hfound

end Fate

/-! ## What is recorded of one reference -/

/-- At most one member of a list has a property if all that have it agree in what tells
them apart. -/
theorem countP_eq_ite {α β : Type} {f : α → β} {xs : List α} (h : (xs.map f).Nodup)
    {x : α} (hx : x ∈ xs)
    {p : α → Bool} (hp : ∀ y ∈ xs, p y = true → f y = f x) :
    xs.countP p = if p x then 1 else 0 := by
  induction xs with
  | nil => cases hx
  | cons y ys ih =>
    obtain ⟨hy, hys⟩ := List.nodup_cons.1 h
    rw [List.countP_cons]
    rcases List.mem_cons.1 hx with rfl | hmem
    · have hnone : ys.countP p = 0 := by
        refine List.countP_eq_zero.2 fun z hz hpz => hy ?_
        rw [← hp z (List.mem_cons_of_mem _ hz) hpz]
        exact List.mem_map_of_mem hz
      rw [hnone, Nat.zero_add]
    · have hnot : p y = false := by
        refine Bool.eq_false_iff.2 fun hpy => hy ?_
        rw [hp y List.mem_cons_self hpy]
        exact List.mem_map_of_mem hmem
      rw [ih hys hmem fun z hz => hp z (List.mem_cons_of_mem _ hz), hnot]
      rfl

namespace Analysis

/-- What is recorded of a reference to a variable when the names are bound. -/
structure Finds (a : Arena) (x : Analysis) (p : Parked) (c : ScopeId) : Prop where
  /-- It is listed once by the variable that the innermost scope binds its name to, and so is what
  is assigned through it. -/
  bound : ∀ v, x.scopes.innermost? .value p.name c = some (.inl v) →
    x.valueOf? p.node = some v ∧ (x.store.values.readsOf v).count p.node = 1 ∧
      ∀ m, p.assigned = some m → (x.store.values.writesOf v).count (some m) = 1
  /-- No other variable lists it. -/
  unlisted : ∀ v, x.scopes.innermost? .value p.name c ≠ some (.inl v) →
    p.node ∉ x.store.values.readsOf v
  /-- A name that no scope binds has a value if it is `undefined`. -/
  unbound : x.scopes.innermost? .value p.name c = none →
    x.valueOf? p.node = if a.text p.node = "undefined" then some x.undefinedValue else none

namespace Resolved

variable {a : Arena} {root : NodeRef} {reportUndefined : Bool} {refs : List Reference} {b : Binder}
  {r : Reference} {v : ValueId}

theorem fate_eq (h : Resolved a root reportUndefined refs b) (hr : r ∈ refs)
    (hname : r.parked.space = .type → ¬a.IsLate root r.parked.name) :
    r.fate a b.scopes = b.scopes.resolve a r.parked r.scope :=
  Reference.fate_eq_resolve (h.remembered r hr) h.nested h.closed h.settled hname

/-- A variable is bound in no scope that the value opens which is assigned through a
reference to it. -/
theorem not_owns (h : Resolved a root reportUndefined refs b) (hr : r ∈ refs) {m : Nat}
    (hassigned : r.parked.assigned = some m)
    (hbound : b.scopes.innermost? .value r.parked.name r.scope = some (.inl v)) : ¬b.Owns m v := by
  rintro ⟨s, scope, name, hs, hnode, htarget⟩
  have hremembered := h.remembered r hr
  obtain ⟨id, hid, hbinds⟩ := ScopeTree.outward_eq_some hbound
  obtain ⟨other, hother, hv⟩ := Option.bind_eq_some_iff.1 hbinds
  cases h.owner s id scope other name _ v hs hother htarget hv
  cases hs.symm.trans hother
  rw [hremembered.grows.chain hremembered.nested h.nested hremembered.scope] at hid
  obtain ⟨was, hwas⟩ := ScopeTree.exists_get?_of_lt
    (Nat.lt_of_le_of_lt (ScopeTree.index_le_of_mem_chain hremembered.nested hid) hremembered.scope)
  obtain ⟨grown, hgrown, hgrows⟩ := hremembered.grows _ was hwas
  cases hs.symm.trans hgrown
  exact hremembered.foreign m hassigned _ hid was hwas (hgrows.node.symm.trans hnode)

variable (hnodes : (refs.map (·.parked.node)).Nodup)
include hnodes

/-- The entry of a node is that of its reference. -/
theorem noted?_eq (h : Resolved a root reportUndefined refs b) (hr : r ∈ refs) :
    b.analysis.noted? r.parked.space r.parked.node = (r.fate a b.scopes).noted? b.analysis := by
  obtain ⟨n, hnode, hn⟩ := h.accounts.named r hr
  have hentry {x : Target} (hx : b.analysis.noted? r.parked.space r.parked.node = some x) :
      (r.fate a b.scopes).noted? b.analysis = some x := by
    rw [hnode] at hx
    obtain ⟨q, hq, hqnode, -, hfate⟩ := h.accounts.entries _ n x hn hx
    cases List.inj_on_of_nodup_map hnodes hq hr (hqnode.trans hnode.symm)
    exact hfate
  cases hfate : (r.fate a b.scopes).noted? b.analysis with
  | some x =>
    have hentered := h.accounts.entered r hr (Option.isSome_of_eq_some hfate)
    obtain ⟨y, hy⟩ := Option.isSome_iff_exists.1 hentered
    rw [hy, ← hentry hy, hfate]
  | none =>
    refine Option.eq_none_iff_forall_ne_some.2 fun y hy => ?_
    rw [hentry hy] at hfate
    cases hfate

theorem count_readsOf (h : Resolved a root reportUndefined refs b) (hr : r ∈ refs) (v : ValueId) :
    (b.values.readsOf v).count r.parked.node = if r.fate a b.scopes = .bound
    (.inl v) then 1 else 0 := by
  obtain ⟨n, hnode, hn⟩ := h.accounts.named r hr
  rw [hnode, h.accounts.reads v n hn, countP_eq_ite hnodes hr fun q _ hq => ?_]
  · simp [hnode]
  · rw [Bool.and_eq_true, decide_eq_true_iff, decide_eq_true_iff] at hq
    exact hq.2.trans hnode.symm

theorem count_writesOf (h : Resolved a root reportUndefined refs b)
    (hstands : ∀ q ∈ refs, q.parked.Stands a) (hr : r ∈ refs) {m : Nat}
    (hassigned : r.parked.assigned = some m) (hfate : r.fate a b.scopes = .bound (.inl v))
    (hbound : b.scopes.innermost? .value r.parked.name r.scope = some (.inl v)) :
    (b.values.writesOf v).count (some m) = 1 := by
  obtain ⟨hvalue, hnode⟩ := (hstands r hr).assigned m hassigned
  rw [h.accounts.writes v m hvalue (h.not_owns hr hassigned hbound),
    countP_eq_ite hnodes hr fun q hq hsame => ?_]
  · simp [hfate, hassigned]
  · rw [Bool.and_eq_true, decide_eq_true_iff, decide_eq_true_iff] at hsame
    exact ((hstands q hq).assigned m hsame.2).2.trans hnode.symm

/-- A reference to a variable has what the finished scopes say of its name. -/
theorem finds (h : Resolved a root reportUndefined refs b) (hstands : ∀ q ∈ refs, q.parked.Stands a)
    (hr : r ∈ refs) (hspace : r.parked.space = .value) : b.analysis.Finds a r.parked r.scope := by
  have hfate := h.fate_eq hr fun htype => by rw [hspace] at htype; cases htype
  have hentry := h.noted?_eq hnodes hr
  rw [ScopeTree.resolve, hspace] at hfate
  rw [hspace] at hentry
  refine ⟨fun v hv => ?_, fun v hv hmem => ?_, fun hnone => ?_⟩
  · rw [hv] at hfate
    refine ⟨?_, ?_, fun m hm => h.count_writesOf hnodes hstands hr hm hfate hv⟩
    · rw [hfate] at hentry
      obtain ⟨w, hw, hsame⟩ := Option.map_eq_some_iff.1 hentry
      cases hsame
      exact hw
    · rw [h.count_readsOf hnodes hr, if_pos hfate]
  · have hcount := h.count_readsOf hnodes hr v
    rw [if_neg ?_] at hcount
    · exact List.count_eq_zero.1 hcount hmem
    · intro hbound
      rw [hfate] at hbound
      cases hx : b.scopes.innermost? .value r.parked.name r.scope with
      | some x =>
        rw [hx] at hbound
        cases hbound
        exact hv hx
      | none =>
        rw [hx] at hbound
        dsimp only at hbound
        split at hbound
        · cases hbound
        · split at hbound <;> cases hbound
  · rw [hnone] at hfate
    dsimp only at hfate
    by_cases hundefined : a.text r.parked.node = "undefined"
    · rw [if_pos hundefined] at hfate ⊢
      rw [hfate] at hentry
      obtain ⟨w, hw, hsame⟩ := Option.map_eq_some_iff.1 hentry
      cases hsame
      exact hw
    · rw [if_neg hundefined] at hfate ⊢
      have hnothing : (r.fate a b.scopes).noted? b.analysis = none := by
        rw [hfate]
        split <;> rfl
      exact Option.map_eq_none_iff.1 (hentry.trans hnothing)

/-- A reference to a type has what the finished scopes say of its name. -/
theorem noted?_type (h : Resolved a root reportUndefined refs b) (hr : r ∈ refs)
    (hspace : r.parked.space = .type) (hname : ¬a.IsLate root r.parked.name) :
    (b.analysis.typeOf? r.parked.node).map .inr =
      b.scopes.innermost? .type r.parked.name r.scope := by
  have hentry := h.noted?_eq hnodes hr
  rw [h.fate_eq hr fun _ => hname, ScopeTree.resolve, hspace] at hentry
  refine hentry.trans ?_
  cases b.scopes.innermost? .type r.parked.name r.scope <;> rfl

omit hnodes in
/-- The reports of names that no scope binds. -/
theorem reports_of (h : Resolved a root reportUndefined refs b) (space : Namespace) :
    (b.analysis.diagnostics.toList.filter fun d => d.problem = unboundProblem space).Perm
      (if reportUndefined then
        (refs.filter fun r => r.parked.space = space && r.fate a b.scopes =
          .missing).map (·.problem a)
      else []) := by
  have hfilter : (b.analysis.diagnostics.toList.filter fun d => d.problem = unboundProblem space) =
      (b.analysis.diagnostics.toList.filter Diagnostic.isUnbound).filter
        fun d => d.problem = unboundProblem space := by
    rw [List.filter_filter]
    refine List.filter_congr fun d _ => ?_
    cases space <;>
      · rw [unboundProblem, Diagnostic.isUnbound]
        simp +contextual
  have hspaces (r : Reference) :
      (decide ((r.problem a).problem = unboundProblem space)) =
        decide (r.parked.space = space) := by
    rw [Reference.problem]
    cases r.parked.space <;> cases space <;> rfl
  rw [hfilter]
  refine (h.accounts.reports.filter _).trans ?_
  split
  · rw [List.filter_map, List.filter_filter]
    refine .of_eq (congrArg (List.map _) (List.filter_congr fun r _ => ?_))
    rw [← hspaces r]
    rfl
  · exact .nil

end Resolved

/-- References that were met at different nodes. -/
theorem nodup_nodes {refs : List Reference} {visited : List (Parked × ScopeId)}
    (hperm : (refs.map Reference.place).Perm visited) (hnodup : (visited.map (·.1.node)).Nodup) :
    (refs.map (·.parked.node)).Nodup := by
  have hplaces := (hperm.map (·.1.node)).nodup_iff.2 hnodup
  rwa [List.map_map] at hplaces

/-- **Lexical scoping of variables.** When the names of a tree are bound, each reference to a
variable that was visited is bound to what the innermost of the finished scopes around it binds its
name to, and is listed there once. If none does, it has no value, but for the name `undefined`, and
is reported once, but for that name and for `arguments` inside a function. -/
theorem values_resolve {a : Arena} {root : NodeRef} (hshape : a.Shaped root)
    (reportUndefined : Bool) :
    ∃ finish visited, Moment.Refers a reportUndefined (.start a root) visited ⟨[], finish⟩ ∧
      bindNames a reportUndefined root (new a) = ((), finish.analysis) ∧
      (visited.map (·.1.node)).Nodup ∧
      (∀ p c, (p, c) ∈ visited → p.space = .value →
        p.name = a.atom p.node ∧ finish.analysis.Finds a p c) ∧
      (∀ n, a.isKind (some n) .identifier = true →
        (finish.analysis.valueOf? (some n)).isSome ∨ (∃ v, some n ∈ finish.values.readsOf v) →
        ∃ p c, (p, c) ∈ visited ∧ p.space = .value ∧ p.node = some n) ∧
      (finish.analysis.diagnostics.toList.filter fun d => d.problem = .undefinedVariable).Perm
        (if reportUndefined then
          (visited.filter fun (p, c) => p.space = .value &&
            finish.scopes.resolve a p c = .missing).map
            fun (p, _) => { problem := .undefinedVariable, span := a.span p.node }
        else []) := by
  obtain ⟨finish, visited, refs, hrun, hbind, h, hperm, hstands, hnodup⟩ :=
    walk_tracks hshape reportUndefined
  have hnodes := nodup_nodes hperm hnodup
  have hstands' : ∀ r ∈ refs, r.parked.Stands a := fun r hr =>
    hstands r.place (hperm.mem_iff.1 (List.mem_map_of_mem hr))
  refine ⟨finish, visited, hrun, hbind, hnodup, fun p c hp hspace => ?_, fun n hn hnoted => ?_, ?_⟩
  · obtain ⟨r, hr, hplace⟩ := List.mem_map.1 (hperm.mem_iff.2 hp)
    cases hplace
    exact ⟨(hstands' r hr).name, h.finds hnodes hstands' hr hspace⟩
  · suffices hsome : ∃ r ∈ refs, r.parked.space = .value ∧ r.parked.node = some n by
      obtain ⟨r, hr, hspace, hnode⟩ := hsome
      exact ⟨r.parked, r.scope, hperm.mem_iff.1 (List.mem_map_of_mem hr), hspace, hnode⟩
    rcases hnoted with hvalue | ⟨v, hv⟩
    · obtain ⟨v, hv⟩ := Option.isSome_iff_exists.1 hvalue
      obtain ⟨r, hr, hnode, hspace, -⟩ := h.accounts.entries .value n (.inl v) hn
        (by rw [noted?, hv, Option.map_some])
      exact ⟨r, hr, hspace, hnode⟩
    · have hcount := List.count_pos_iff.2 hv
      rw [h.accounts.reads v n hn] at hcount
      obtain ⟨r, hr, hbound⟩ := List.countP_pos_iff.1 hcount
      rw [Bool.and_eq_true, decide_eq_true_iff, decide_eq_true_iff] at hbound
      have hentry := h.noted?_eq hnodes hr
      rw [hbound.1] at hentry
      cases hspace : r.parked.space with
      | value => exact ⟨r, hr, hspace, hbound.2⟩
      | type =>
        rw [hspace] at hentry
        obtain ⟨t, -, hsame⟩ := Option.map_eq_some_iff.1 hentry
        cases hsame
  · refine (h.reports_of .value).trans ?_
    split
    · refine .trans (.of_eq ?_) ((hperm.filter _).map _)
      rw [List.filter_map, List.map_map]
      have hfates : (refs.filter fun r => r.parked.space = .value &&
        r.fate a finish.scopes = .missing) =
          refs.filter fun r => r.parked.space = .value &&
            finish.scopes.resolve a r.parked r.scope = .missing := by
        refine List.filter_congr fun r hr => ?_
        by_cases hspace : r.parked.space = .value
        · rw [h.fate_eq hr fun htype => by rw [hspace] at htype; cases htype]
        · simp [hspace]
      rw [hfates]
      refine List.map_congr_left fun r hr => ?_
      have hspace : r.parked.space = .value := by
        have hkept := (List.mem_filter.1 hr).2
        rw [Bool.and_eq_true, decide_eq_true_iff] at hkept
        exact hkept.1
      show r.problem a = _
      rw [Reference.problem, hspace]
      rfl
    · exact .nil

/-- A function that assigns one variable to another, before both are declared. -/
def earlierUse : Build NodeRef := do
  let assignment ← Builder.assignment (← Builder.identifier "y") (← Builder.identifier "x")
  let function ← Builder.functionDeclaration "f" (← Builder.parameterNames [])
    [← Builder.expressionStatement assignment]
  let x ← Builder.letStatement "x" (← Builder.number "1")
  let y ← Builder.letStatement "y" none
  Builder.script [function, x, y]

/-- In this tree, both names in the function are resolved in the scope of the unit. -/
theorem earlierUse_resolved :
    let tree := earlierUse Builder.new
    let a := tree.2.arena
    a.Shaped tree.1 ∧ ∃ finish visited, Moment.Refers a true (.start a tree.1) visited
      ⟨[], finish⟩ ∧
      bindNames a true tree.1 (new a) = ((), finish.analysis) ∧
      ∀ n ∈ [0, 1], (finish.analysis.valueOf? (some n)).isSome ∧ ∃ p c, (p, c) ∈ visited ∧
        p.space = .value ∧ p.node = some n ∧ finish.analysis.Finds a p c := by
  intro tree a
  have hshaped : a.Shaped tree.1 := by decide +kernel
  obtain ⟨finish, visited, hrun, hbind, -, hfinds, hvisited, -⟩ := values_resolve hshaped true
  have hvalued : ∀ n ∈ [0, 1], a.isKind (some n) .identifier = true ∧
      ((bindNames a true tree.1 (new a)).2.valueOf? (some n)).isSome = true := by
    decide +kernel
  rw [hbind] at hvalued
  refine ⟨hshaped, finish, visited, hrun, hbind, fun n hn => ?_⟩
  obtain ⟨hkind, hvalue⟩ := hvalued n hn
  obtain ⟨p, c, hp, hspace, hnode⟩ := hvisited n hkind (.inl hvalue)
  exact ⟨hvalue, p, c, hp, hspace, hnode, (hfinds p c hp hspace).2⟩

/-- **Lexical scoping of types.** When the names of a tree are bound, each reference to a type that
was visited has the type that the innermost of the finished scopes around it binds its name to,
unless it is one of the names that a scope binds without having reserved it. If none does, it has no
type and is reported once. -/
theorem types_resolve {a : Arena} {root : NodeRef} (hshape : a.Shaped root)
    (reportUndefined : Bool) :
    ∃ finish visited, Moment.Refers a reportUndefined (.start a root) visited ⟨[], finish⟩ ∧
      bindNames a reportUndefined root (new a) = ((), finish.analysis) ∧
      (∀ p c, (p, c) ∈ visited → p.space = .type → p.name = a.atom p.node ∧ (¬a.IsLate root p.name →
        (finish.analysis.typeOf? p.node).map .inr = finish.scopes.innermost? .type p.name c)) ∧
      (∀ n, a.isKind (some n) .identifier = true → (finish.analysis.typeOf? (some n)).isSome →
        ∃ p c, (p, c) ∈ visited ∧ p.space = .type ∧ p.node = some n) ∧
      ∃ missing : List (Parked × ScopeId), missing.Nodup ∧
        (∀ q ∈ missing, q ∈ visited ∧ q.1.space = .type) ∧
        (∀ p c, (p, c) ∈ visited → p.space = .type → ¬a.IsLate root p.name →
          ((p, c) ∈ missing ↔ finish.scopes.innermost? .type p.name c = none)) ∧
        (finish.analysis.diagnostics.toList.filter fun d => d.problem = .undefinedType).Perm
          (if reportUndefined then
            missing.map fun (p, _) => { problem := .undefinedType, span := a.span p.node }
              else []) := by
  obtain ⟨finish, visited, refs, hrun, hbind, h, hperm, hstands, hnodup⟩ :=
    walk_tracks hshape reportUndefined
  have hplaces : (refs.map Reference.place).Nodup := hperm.nodup_iff.2 (.of_map _ hnodup)
  have hnodes := nodup_nodes hperm hnodup
  let missing := refs.filter fun r => r.parked.space = .type && r.fate a finish.scopes = .missing
  have hmissing {r : Reference} : r ∈ missing ↔ r ∈ refs ∧ r.parked.space = .type ∧
      r.fate a finish.scopes = .missing := by
    rw [List.mem_filter, Bool.and_eq_true, decide_eq_true_iff, decide_eq_true_iff]
  refine ⟨finish, visited, hrun, hbind, fun p c hp hspace => ?_, fun n hn htype =>
    ?_, missing.map Reference.place,
    hplaces.sublist (List.filter_sublist.map _), fun q hq => ?_, fun p c hp hspace hname => ?_, ?_⟩
  · obtain ⟨r, hr, hplace⟩ := List.mem_map.1 (hperm.mem_iff.2 hp)
    cases hplace
    exact ⟨(hstands _ hp).name, h.noted?_type hnodes hr hspace⟩
  · obtain ⟨t, ht⟩ := Option.isSome_iff_exists.1 htype
    obtain ⟨r, hr, hnode, hspace, -⟩ := h.accounts.entries .type n (.inr t) hn
      (by rw [noted?, ht, Option.map_some])
    exact ⟨r.parked, r.scope, hperm.mem_iff.1 (List.mem_map_of_mem hr), hspace, hnode⟩
  · obtain ⟨r, hr, rfl⟩ := List.mem_map.1 hq
    obtain ⟨hr, hspace, -⟩ := hmissing.1 hr
    exact ⟨hperm.mem_iff.1 (List.mem_map_of_mem hr), hspace⟩
  · obtain ⟨r, hr, hplace⟩ := List.mem_map.1 (hperm.mem_iff.2 hp)
    cases hplace
    have hfate := h.fate_eq hr fun _ => hname
    rw [ScopeTree.resolve, hspace] at hfate
    constructor
    · intro hq
      obtain ⟨q, hq, hplace⟩ := List.mem_map.1 hq
      cases List.inj_on_of_nodup_map hplaces (hmissing.1 hq).1 hr hplace
      rw [(hmissing.1 hq).2.2] at hfate
      cases hx : finish.scopes.innermost? .type r.parked.name r.scope with
      | none => rfl
      | some x =>
        rw [hx] at hfate
        cases hfate
    · intro hnone
      rw [hnone] at hfate
      exact List.mem_map_of_mem (hmissing.2 ⟨hr, hspace, hfate⟩)
  · refine (h.reports_of .type).trans ?_
    split
    · rw [List.map_map]
      refine .of_eq (List.map_congr_left fun r hr => ?_)
      show r.problem a = _
      rw [Reference.problem, (hmissing.1 hr).2.1]
      rfl
    · exact .nil

/-- A comment that names a class of the unit before it is declared. -/
def earlierType : Build NodeRef := do
  let type ← Builder.simple .typeName [← Builder.identifier "A"]
  let tag ← Builder.tag "type" [type]
  let x ← Builder.annotated (← Builder.document [tag]) (← Builder.varStatement "x" none)
  let cls ← Builder.classDeclaration "A" none []
  Builder.script [x, cls]

/-- In this tree, the name in the comment is resolved in the scope of the unit. -/
theorem earlierType_resolved :
    let tree := earlierType Builder.new
    let a := tree.2.arena
    a.Shaped tree.1 ∧ ¬a.IsLate tree.1 (a.atom (some 0)) ∧ ∃ finish visited,
      Moment.Refers a true (.start a tree.1) visited ⟨[], finish⟩ ∧
      bindNames a true tree.1 (new a) = ((), finish.analysis) ∧
      (finish.analysis.typeOf? (some 0)).isSome ∧ ∃ p c, (p, c) ∈ visited ∧ p.space = .type ∧
        p.node = some 0 ∧
        (finish.analysis.typeOf? p.node).map .inr = finish.scopes.innermost? .type p.name c := by
  intro tree a
  have hshaped : a.Shaped tree.1 := by decide +kernel
  have hlate : ¬a.IsLate tree.1 (a.atom (some 0)) := by
    unfold Arena.IsLate
    decide +kernel
  obtain ⟨finish, visited, hrun, hbind, hfinds, hvisited, -⟩ := types_resolve hshaped true
  have htyped : a.isKind (some 0) .identifier = true ∧
      ((bindNames a true tree.1 (new a)).2.typeOf? (some 0)).isSome = true := by
    decide +kernel
  rw [hbind] at htyped
  obtain ⟨p, c, hp, hspace, hnode⟩ := hvisited 0 htyped.1 htyped.2
  obtain ⟨hname, hfound⟩ := hfinds p c hp hspace
  rw [hname, hnode] at hfound
  refine ⟨hshaped, hlate, finish, visited, hrun, hbind, htyped.2, p, c, hp, hspace, hnode, ?_⟩
  rw [hname, hnode]
  exact hfound hlate

end Analysis

end DocTypes
