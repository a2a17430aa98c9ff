import DocTypes.Proofs.Lifecycle.Works

/-!
# What the walk writes to scopes

A `Binder.Trail` is a chain of writes to the scopes of a walk. Names are bound, reserved and
parked in scopes that are open and lie on the chain of the current scope, and nowhere else; a
scope opens as the new current one, and only the current one closes.

Between two pieces of work the open scopes are those on the chain, and all others are closed and
hold no parked names (`Binder.On`). A step that stays in the current scope keeps it so
(`Binder.Stays`).

## Main statements

* `Binder.addEntry_stays`: an entry in a scope on the chain.
* `Binder.functionScope_bind`, `Binder.lexicalScope_bind`: the scopes that declarations go to lie
  on the chain.
-/

namespace DocTypes

/-- What is put into a scope. -/
inductive Entry where
  | variable (name : Atom) (binding : Binding ValueId)
  | type (name : Atom) (binding : Binding TypeId)
  | reserved (space : Namespace) (name : Atom)
  | parked (p : Parked)

namespace Entry

/-- Put an entry into a scope. -/
def add : Entry → Scope → Scope
  | .variable name binding => Scope.insertVariable name binding
  | .type name binding => Scope.insertType name binding
  | .reserved space name => Scope.reserve space name
  | .parked p => Scope.park p

/-- The name that an entry parks. -/
def parked? : Entry → Option Parked
  | .parked p => some p
  | _ => none

variable (e : Entry) (s : Scope)

@[simp] theorem add_outer : (e.add s).outer = s.outer := by
  cases e with
  | reserved space name => simp only [add, Scope.reserve]; split <;> rfl
  | _ => rfl

theorem add_site : (e.add s).site = s.site := by
  cases e with
  | reserved space name => simp only [add, Scope.reserve]; split <;> rfl
  | _ => rfl

@[simp] theorem add_state : (e.add s).state = s.state := by
  cases e with
  | reserved space name => simp only [add, Scope.reserve]; split <;> rfl
  | _ => rfl

theorem add_parked : (e.add s).parked.toList = s.parked.toList ++ e.parked?.toList := by
  cases e with
  | reserved space name => simp only [add, Scope.reserve]; split <;> simp [parked?]
  | parked p => simp [add, Scope.park, Scope.receive, parked?]
  | _ => simp [add, Scope.insertVariable, Scope.insertType, Scope.receive, parked?]

end Entry

namespace ScopeTree

variable {t : ScopeTree}

/-- The names that are parked in the scopes of a tree. -/
def parkedNames (t : ScopeTree) : List Parked := t.scopes.toList.flatMap (·.parked.toList)

theorem parkedNames_push (scope : Scope) :
    (t.push scope).2.parkedNames = t.parkedNames ++ scope.parked.toList := by
  simp [parkedNames, push]

/-- A change of one scope changes what is parked there. -/
theorem parkedNames_update {id : ScopeId} {scope : Scope} (h : t.get? id = some scope)
    (f : Scope → Scope) : ∃ before after,
      t.parkedNames = before ++ (scope.parked.toList ++ after) ∧
      (t.update id f).parkedNames = before ++ ((f scope).parked.toList ++ after) := by
  have hget : t.scopes.toList[id.index]? = some scope := by simpa [get?] using h
  obtain ⟨hlt, -⟩ := List.getElem?_eq_some_iff.1 hget
  obtain ⟨before, old, after, hsplit, hlength, hmodify⟩ := List.exists_of_modify f hlt
  have hold : old = scope := by simpa [hsplit, ← hlength] using hget
  subst hold
  refine ⟨before.flatMap (·.parked.toList), after.flatMap (·.parked.toList), ?_, ?_⟩
  · rw [parkedNames, hsplit, List.flatMap_append, List.flatMap_cons]
  · rw [parkedNames, update, if_pos (Option.isSome_of_eq_some h), Array.toList_modify, hmodify,
      List.flatMap_append, List.flatMap_cons]

end ScopeTree

namespace Binder

/-- A scope that takes entries: it is open, and it is the current scope or one around it. -/
structure Takes (b : Binder) (id : ScopeId) : Prop where
  mem : id ∈ b.analysis.scopes.chain b.current
  opened : b.analysis.IsOpen id

/-- The walk after an entry is put into a scope. -/
def withEntry (b : Binder) (id : ScopeId) (e : Entry) : Binder := (updateScope id e.add b).2

/-- The walk after the current scope is closed. -/
def shut (b : Binder) : Binder :=
  (updateScope b.current (fun s => { s with state := .closed }) b).2

/-- Writes to the scopes of a walk, and the entries that they make. -/
inductive Trail (b : Binder) : List Entry → Binder → Prop
  | refl : Trail b [] b
  /-- What leaves the scopes alone. -/
  | apart {es : List Entry} {b' b'' : Binder} (h : Trail b es b')
      (hscopes : b''.analysis.scopes = b'.analysis.scopes) (hcurrent : b''.current = b'.current) :
    Trail b es b''
  | add {es : List Entry} {b' : Binder} (h : Trail b es b') (id : ScopeId) (e : Entry)
      (hid : b'.Takes id) : Trail b (es ++ [e]) (b'.withEntry id e)
  | enter {es : List Entry} {b' : Binder} (h : Trail b es b') (kind : ScopeKind) (node : NodeRef) :
    Trail b es (enterScope kind node b').2
  | suspend {es : List Entry} {b' : Binder} (h : Trail b es b') (hcurrent : b'.Takes b'.current) :
    Trail b es b'.suspended
  | shut {es : List Entry} {b' : Binder} (h : Trail b es b') : Trail b es b'.shut
  | leave {es : List Entry} {b' : Binder} (h : Trail b es b') {o : ScopeId}
      (ho : b'.analysis.scopes.outer? b'.current = some o) : Trail b es { b' with current := o }

theorem Trail.trans {b b' b'' : Binder} {es es' : List Entry} (h : Trail b es b')
    (h' : Trail b' es' b'') : Trail b (es ++ es') b'' := by
  induction h' with
  | refl => rwa [List.append_nil]
  | apart _ hscopes hcurrent ih => exact ih.apart hscopes hcurrent
  | add _ id e hid ih =>
    rw [← List.append_assoc]
    exact ih.add id e hid
  | enter _ kind node ih => exact ih.enter kind node
  | suspend _ hcurrent ih => exact ih.suspend hcurrent
  | shut _ ih => exact ih.shut
  | leave _ ho ih => exact ih.leave ho

/-- The names that are parked in some scope. -/
def waiting (b : Binder) : List Parked := b.analysis.scopes.parkedNames

/-- A chain of writes that parks names and takes none out. -/
def Writes (b b' : Binder) : Prop :=
  ∃ es, b.Trail es b' ∧ b'.waiting.Perm (b.waiting ++ es.filterMap Entry.parked?)

/-- The walk between two pieces of work: the scopes on the chain of the current scope are open,
and all others are closed and hold no parked names. -/
structure On (c : ScopeId) (cs : List ScopeId) (b : Binder) : Prop where
  current : b.current = c
  chain : b.analysis.scopes.chain c = cs
  nested : b.analysis.scopes.Nested
  known : ∀ s ∈ cs, (b.analysis.scopes.get? s).isSome
  opened : ∀ s scope, b.analysis.scopes.get? s = some scope → s ∈ cs → scope.state = .opened
  closed : ∀ s scope, b.analysis.scopes.get? s = some scope → s ∉ cs →
    scope.state = .closed ∧ scope.parked = #[]

/-- Changes that stay in the current scope and open none. -/
def Stays (c : ScopeId) (cs : List ScopeId) (b b' : Binder) : Prop :=
  b.On c cs → b'.On c cs ∧ b.Writes b' ∧ b.analysis.scopes.SameSites b'.analysis.scopes

variable {a : Arena} {c : ScopeId} {cs : List ScopeId} {b b' b'' : Binder}

namespace Writes

theorem refl (b : Binder) : b.Writes b := ⟨[], .refl, by simp⟩

theorem trans (h : b.Writes b') (h' : b'.Writes b'') : b.Writes b'' := by
  obtain ⟨es, htrail, hwaiting⟩ := h
  obtain ⟨es', htrail', hwaiting'⟩ := h'
  refine ⟨es ++ es', htrail.trans htrail', ?_⟩
  rw [List.filterMap_append, ← List.append_assoc]
  exact hwaiting'.trans (hwaiting.append_right _)

theorem apart (hscopes : b'.analysis.scopes = b.analysis.scopes)
    (hcurrent : b'.current = b.current) :
    b.Writes b' := ⟨[], .apart .refl hscopes hcurrent, by simp [waiting, hscopes]⟩

end Writes

instance : Std.Refl (Stays c cs) := ⟨fun b hb => ⟨hb, .refl b, .refl _⟩⟩

instance : IsTrans Binder (Stays c cs) := ⟨fun _ _ _ h h' hb =>
  have ⟨hb', hwrites, hsites⟩ := h hb
  have ⟨hb'', hwrites', hsites'⟩ := h' hb'
  ⟨hb'', hwrites.trans hwrites', hsites.trans hsites'⟩⟩

/-! ## Scopes on the chain -/

namespace On

theorem mem_current (hb : b.On c cs) : c ∈ cs :=
  hb.chain ▸ ScopeTree.mem_chain_self hb.nested c

theorem takes (hb : b.On c cs) {id : ScopeId} (hid : id ∈ cs) : b.Takes id := by
  obtain ⟨scope, hscope⟩ := Option.isSome_iff_exists.1 (hb.known id hid)
  exact ⟨hb.current ▸ hb.chain ▸ hid, scope, hscope, hb.opened id scope hscope hid⟩

theorem nearest_mem (hb : b.On c cs) (accept : ScopeKind → Bool) :
    b.analysis.scopes.nearest b.current accept ∈ cs := by
  rw [hb.current, ← hb.chain]
  exact ScopeTree.nearest_mem_chain hb.nested c accept

theorem declaredVariable_mem (hb : b.On c cs) {name : Atom} {id : ScopeId}
    (h : b.analysis.scopes.lookupVariable b.current name = .declared id) : id ∈ cs := by
  rw [ScopeTree.lookupVariable_eq, hb.current] at h
  exact hb.chain ▸ ScopeTree.mem_chain_of_answer_declared h

theorem declaredType_mem (hb : b.On c cs) {name : Atom} {id : ScopeId}
    (h : b.analysis.scopes.lookupType b.current name = .declared id) : id ∈ cs := by
  rw [ScopeTree.lookupType_eq, hb.current] at h
  exact hb.chain ▸ ScopeTree.mem_chain_of_answer_declared h

/-- What leaves the scopes alone. -/
theorem apart (hb : b.On c cs) (hscopes : b'.analysis.scopes = b.analysis.scopes)
    (hcurrent : b'.current = b.current) : b'.On c cs := by
  obtain ⟨hc, hchain, hnested, hknown, hopened, hclosed⟩ := hb
  rw [← hscopes] at hchain hnested hknown hopened hclosed
  exact ⟨hcurrent.trans hc, hchain, hnested, hknown, hopened, hclosed⟩

end On

theorem outer?_update {t : ScopeTree} {f : Scope → Scope}
    (hf : ∀ scope, (f scope).outer = scope.outer)
    (id s : ScopeId) : (t.update id f).outer? s = t.outer? s := by
  rw [ScopeTree.outer?, ScopeTree.outer?, ScopeTree.get?_update]
  split
  · cases t.get? s with
    | none => rfl
    | some scope => exact hf scope
  · rfl

theorem nested_update {t : ScopeTree} (ht : t.Nested) {f : Scope → Scope}
    (hf : ∀ scope, (f scope).outer = scope.outer) (id : ScopeId) : (t.update id f).Nested := by
  intro s o ho
  rw [outer?_update hf] at ho
  exact ht s o ho

theorem chain_update {t : ScopeTree} (ht : t.Nested) {f : Scope → Scope}
    (hf : ∀ scope, (f scope).outer = scope.outer) (id s : ScopeId) :
    (t.update id f).chain s = t.chain s :=
  ScopeTree.chain_congr ht (nested_update ht hf id) fun _ _ => outer?_update hf id _

/-- An entry in a scope on the chain. -/
theorem On.withEntry (hb : b.On c cs) {id : ScopeId} (hid : id ∈ cs) (e : Entry) :
    (b.withEntry id e).On c cs := by
  have hget (s : ScopeId) : (b.withEntry id e).analysis.scopes.get? s =
      if id = s then (b.analysis.scopes.get? s).map e.add else b.analysis.scopes.get? s :=
    ScopeTree.get?_update _ _ _ _
  refine ⟨hb.current, (chain_update hb.nested e.add_outer id c).trans hb.chain,
    nested_update hb.nested e.add_outer id, fun s hs => ?_, fun s scope hscope hs => ?_,
    fun s scope hscope hs => ?_⟩
  · rw [hget]
    split
    · exact (Option.isSome_map ..).trans (hb.known s hs)
    · exact hb.known s hs
  · rw [hget] at hscope
    split at hscope
    · obtain ⟨old, hold, rfl⟩ := Option.map_eq_some_iff.1 hscope
      rw [Entry.add_state]
      exact hb.opened s old hold hs
    · exact hb.opened s scope hscope hs
  · have hne : id ≠ s := fun heq => hs (heq ▸ hid)
    rw [hget, if_neg hne] at hscope
    exact hb.closed s scope hscope hs

/-! ## Steps that stay in the current scope -/

theorem stays_apart {α : Type} {m : Bind α}
    (hscopes : ∀ b, (m b).2.analysis.scopes = b.analysis.scopes)
    (hcurrent : ∀ b, (m b).2.current = b.current) : Moves (Stays c cs) m :=
  fun b hb => ⟨hb.apart (hscopes b) (hcurrent b), .apart (hscopes b) (hcurrent b),
    hscopes b ▸ .refl _⟩

/-- A step of the analysis that leaves the scopes alone. -/
theorem onAnalysis_stays {α : Type} {step : Analyze α} (h : ∀ x, (step x).2.scopes = x.scopes) :
    Moves (Stays c cs) (Bind.onAnalysis step) :=
  stays_apart (fun b => h b.analysis) fun _ => rfl

theorem onTypes_stays {α : Type} (f : TypeStore → α × TypeStore) :
    Moves (Stays c cs) (Bind.onAnalysis (Analysis.onTypes f)) := onAnalysis_stays fun _ => rfl

theorem onValues_stays {α : Type} (f : ValueStore → α × ValueStore) :
    Moves (Stays c cs) (Bind.onAnalysis (Analysis.onValues f)) := onAnalysis_stays fun _ => rfl

theorem modifyValues_stays (f : ValueStore → ValueStore) :
    Moves (Stays c cs) (Bind.onAnalysis (Analysis.modifyValues f)) := onAnalysis_stays fun _ => rfl

theorem setValue_stays (r : NodeRef) (v : ValueId) :
    Moves (Stays c cs) (Bind.onAnalysis (Analysis.setValue r v)) := onAnalysis_stays fun _ => rfl

theorem setType_stays (r : NodeRef) (t : TypeId) :
    Moves (Stays c cs) (Bind.onAnalysis (Analysis.setType r t)) := onAnalysis_stays fun _ => rfl

theorem nameType_stays (v : ValueId) (t : TypeId) :
    Moves (Stays c cs) (Bind.onAnalysis (Analysis.nameType v t)) := onAnalysis_stays fun _ => rfl

theorem reportAt_stays (problem : Problem) (node : NodeRef) :
    Moves (Stays c cs) (Bind.onAnalysis (Analysis.reportAt a problem node)) :=
  onAnalysis_stays fun _ => rfl

theorem reportRelated_stays (problem : Problem) (node related : NodeRef) :
    Moves (Stays c cs) (Bind.onAnalysis (Analysis.reportRelated a problem node related)) :=
  onAnalysis_stays fun _ => rfl

/-- An entry in a scope on the chain. -/
theorem addEntry_stays {id : ScopeId} (hid : id ∈ cs) (e : Entry) :
    Moves (Stays c cs) (updateScope id e.add) := by
  intro b hb
  obtain ⟨scope, hscope⟩ := Option.isSome_iff_exists.1 (hb.known id hid)
  obtain ⟨before, after, hold, hnew⟩ := ScopeTree.parkedNames_update hscope e.add
  refine ⟨hb.withEntry hid e, ⟨[e], .add .refl id e (hb.takes hid), ?_⟩,
    ScopeTree.sameSites_update _ id e.add_site⟩
  show ((b.analysis.scopes.update id e.add).parkedNames).Perm (b.analysis.scopes.parkedNames ++ _)
  rw [hold, hnew, e.add_parked]
  simp only [List.append_assoc, List.filterMap_cons, List.filterMap_nil]
  refine .append_left _ (.append_left _ ?_)
  cases e.parked? with
  | none => simp
  | some p => exact List.perm_append_comm

/-- A step that looks at the state. -/
theorem get_bind_stays {α : Type} {f : Binder → Bind α}
    (h : ∀ b, b.On c cs → Moves (Stays c cs) (f b)) : Moves (Stays c cs) (get >>= f) :=
  .get_bind fun b hb => h b hb b hb

/-- The scope for `var` and function declarations lies on the chain. -/
theorem functionScope_bind {α : Type} {f : ScopeId → Bind α}
    (h : ∀ id ∈ cs, Moves (Stays c cs) (f id)) : Moves (Stays c cs) (functionScope >>= f) :=
  fun b hb => h _ (hb.nearest_mem _) b hb

/-- The scope for `let`, `const` and class declarations lies on the chain. -/
theorem lexicalScope_bind {α : Type} {f : ScopeId → Bind α}
    (h : ∀ id ∈ cs, Moves (Stays c cs) (f id)) : Moves (Stays c cs) (lexicalScope >>= f) :=
  fun b hb => h _ (hb.nearest_mem _) b hb

theorem declarationScope_bind {α : Type} (statement : NodeRef) {f : ScopeId → Bind α}
    (h : ∀ id ∈ cs, Moves (Stays c cs) (f id)) :
    Moves (Stays c cs) (declarationScope a statement >>= f) := by
  unfold declarationScope
  split
  · exact lexicalScope_bind h
  · exact functionScope_bind h

/-! ## Opening a scope -/

theorem enterScope_writes (kind : ScopeKind) (node : NodeRef) (b : Binder) :
    b.Writes (enterScope kind node b).2 := by
  refine ⟨[], .enter .refl kind node, ?_⟩
  show ((b.analysis.scopes.push _).2.parkedNames).Perm _
  rw [ScopeTree.parkedNames_push]
  exact .refl _

/-- A scope opens as the current one. -/
theorem On.enterScope (hb : b.On c cs) (kind : ScopeKind) (node : NodeRef) :
    ∃ s, (enterScope kind node b).1 = s ∧ (Binder.enterScope kind node b).2.On s (s :: cs) := by
  let scope : Scope := { kind, node, outer := some b.current }
  let t := b.analysis.scopes
  let s := (t.push scope).1
  have hget (r : ScopeId) : (t.push scope).2.get? r = if r = s then some scope else t.get? r :=
    ScopeTree.get?_push t scope r
  have hfresh : t.get? s = none := by simp [s, ScopeTree.push, ScopeTree.get?]
  have houter (r : ScopeId) (hr : r ≠ s) : (t.push scope).2.outer? r = t.outer? r := by
    rw [ScopeTree.outer?, ScopeTree.outer?, hget, if_neg hr]
  have houters : (t.push scope).2.outer? s = some c := by
    rw [ScopeTree.outer?, hget, if_pos rfl, ← hb.current]
    rfl
  have hne (r : ScopeId) (hr : r ∈ cs) : r ≠ s := by
    intro heq
    have hknown := hb.known r hr
    rw [heq] at hknown
    have hknown' : (t.get? s).isSome = true := hknown
    rw [hfresh] at hknown'
    cases hknown'
  have hnested : (t.push scope).2.Nested := by
    intro r o ho
    by_cases hr : r = s
    · rw [hr, houters] at ho
      obtain ⟨old, hold⟩ := Option.isSome_iff_exists.1 (hb.known c hb.mem_current)
      rw [hr, ← Option.some.inj ho]
      exact ScopeTree.lt_size_of_get? hold
    · rw [houter r hr] at ho
      exact hb.nested r o ho
  have hchain : (t.push scope).2.chain c = cs := by
    rw [← hb.chain]
    exact ScopeTree.chain_congr hb.nested hnested fun r hr => houter r (hne r (hb.chain ▸ hr))
  refine ⟨s, rfl, rfl, ?_, hnested, fun r hr => ?_, fun r old hold hr =>
    ?_, fun r old hold hr => ?_⟩
  · show (t.push scope).2.chain s = s :: cs
    rw [ScopeTree.chain_eq hnested, houters, Option.map_some, Option.getD_some, hchain]
  · show ((t.push scope).2.get? r).isSome = true
    rw [hget]
    rcases List.mem_cons.1 hr with rfl | hr
    · rw [if_pos rfl]
      rfl
    · rw [if_neg (hne r hr)]
      exact hb.known r hr
  · have hold' : (t.push scope).2.get? r = some old := hold
    rw [hget] at hold'
    split at hold'
    · cases hold'
      rfl
    · next hrs => exact hb.opened r old hold' ((List.mem_cons.1 hr).resolve_left hrs)
  · have hold' : (t.push scope).2.get? r = some old := hold
    obtain ⟨hrs, hr⟩ := not_or.1 (fun h => hr (List.mem_cons.2 h))
    rw [hget, if_neg hrs] at hold'
    exact hb.closed r old hold' hr

end Binder

end DocTypes
