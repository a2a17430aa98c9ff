import DocTypes.Proofs.Binding.Ledger
import DocTypes.Proofs.Run
import Mathlib.Tactic.Tauto

/-!
# Meeting references and closing scopes

`Binder.Sound` says how the scopes hang together while the walk goes on: the open ones are
those around the current one, and each variable is bound in one scope. From a sound state,
meeting a reference notes it, and closing the current scope notes again every reference that
waits in it.

## Main statements

* `Binder.visitIdentifier_notes`, `Binder.referType_notes`: meeting a reference notes it.
* `Binder.exitScope_accounts`: closing a scope keeps the accounts.
-/

namespace DocTypes

namespace Binder

variable {a : Arena} {reportUndefined : Bool} {b b' : Binder} {r : Reference}

/-- The open scopes are the ones around the current one, and each variable is a slot that is
bound in one scope. -/
structure Sound (b : Binder) : Prop where
  nested : b.scopes.Nested
  current : b.current.index < b.scopes.size
  opened : ∀ s scope, b.scopes.get? s = some scope →
    (scope.state = .opened ↔ s ∈ b.scopes.chain b.current)
  slots : ∀ s scope name v, b.scopes.get? s = some scope →
    scope.target? .value name = some (.inl v) → (b.values.slot? v).isSome
  owner : ∀ s s' scope scope' name name' v, b.scopes.get? s = some scope →
    b.scopes.get? s' = some scope' → scope.target? .value name = some (.inl v) →
    scope'.target? .value name' = some (.inl v) → s = s'

theorem Sound.lt_size (h : b.Sound) {s : ScopeId} (hs : s ∈ b.scopes.chain b.current) :
    s.index < b.scopes.size :=
  Nat.lt_of_le_of_lt (ScopeTree.index_le_of_mem_chain h.nested hs) h.current

/-- A name that comes to a scope around the current one waits there. -/
theorem Sound.settle (h : b.Sound) {s : ScopeId} (hs : s ∈ b.scopes.chain b.current)
    (space : Namespace) (name : Atom) : b.scopes.settle space name s = .waiting s := by
  obtain ⟨scope, hscope⟩ := ScopeTree.exists_get?_of_lt (h.lt_size hs)
  exact ScopeTree.settle_of_opened h.nested hscope ((h.opened s scope hscope).2 hs)

/-! ## What is done for each fate -/

/-- The values after a variable is read, and perhaps written. -/
def useVariable (values : ValueStore) (v : ValueId) (node assigned : NodeRef) : ValueStore :=
  if assigned.isSome then (values.addRead v node).addWrite v assigned else values.addRead v node

theorem bindReference_eq (node : NodeRef) (v : ValueId) (assigned : NodeRef) (b : Binder) :
    (bindReference node v assigned b).2 =
      { b with analysis :=
        { b.analysis with
          valueTable := b.analysis.valueTable.insert node v
          store :=
            { b.analysis.store with values := useVariable b.values v node assigned } } } := by
  unfold bindReference
  cases assigned <;> rfl

section UseVariable

variable (values : ValueStore) (v w : ValueId) (node assigned : NodeRef)

theorem isSome_slot?_useVariable :
    ((useVariable values v node assigned).slot? w).isSome = (values.slot? w).isSome := by
  unfold useVariable ValueStore.addWrite ValueStore.addRead
  split
  · rw [ValueStore.isSome_slot?_mapSlot, ValueStore.isSome_slot?_mapSlot]
  · rw [ValueStore.isSome_slot?_mapSlot]

theorem readsOf_useVariable (h : (values.slot? v).isSome) :
    (useVariable values v node assigned).readsOf w =
      values.readsOf w ++ if v = w then [node] else [] := by
  have hread : (values.addRead v node).readsOf w
      = values.readsOf w ++ if v = w then [node] else [] := by
    rw [ValueStore.readsOf_addRead h]
    split <;> simp
  unfold useVariable
  split
  · rw [ValueStore.readsOf_addWrite, hread]
  · exact hread

theorem writesOf_useVariable (h : (values.slot? v).isSome) :
    (useVariable values v node assigned).writesOf w =
      values.writesOf w ++ if v = w ∧ assigned.isSome then [assigned] else [] := by
  have hslot : ((values.addRead v node).slot? v).isSome := by
    unfold ValueStore.addRead
    rwa [ValueStore.isSome_slot?_mapSlot]
  unfold useVariable
  by_cases hassigned : assigned.isSome = true
  · rw [if_pos hassigned, ValueStore.writesOf_addWrite hslot, ValueStore.writesOf_addRead]
    by_cases hv : v = w <;> simp [hv, hassigned]
  · rw [if_neg hassigned, ValueStore.writesOf_addRead]
    simp [hassigned]

end UseVariable

/-- Binding a reference to its variable notes it. -/
theorem bindReference_notes {v : ValueId} (hspace : r.parked.space = .value)
    (hfate : r.fate a b.scopes = .bound (.inl v)) (hslot : (b.values.slot? v).isSome) :
    Notes a reportUndefined r b (bindReference r.parked.node v r.parked.assigned b).2 := by
  have hbound : ∀ w, r.fate a b.scopes = .bound (.inl w) ↔ v = w := by simp [hfate]
  rw [bindReference_eq]
  refine ⟨rfl, rfl, rfl, fun s => ?_, fun w hw => ?_, fun space node => ?_, fun w => ?_,
    fun w => ?_, ?_⟩
  · simp only [hfate, reduceCtorEq, if_false]
    exact Option.map_id'.symm
  · exact (isSome_slot?_useVariable _ _ _ _ _).trans hw
  · rw [hspace, hfate]
    cases space with
    | type => rfl
    | value =>
      simp only [Analysis.noted?, Analysis.valueOf?, NodeTable.get?_insert, Fate.noted?, true_and,
        Option.some_or]
      by_cases hnode : node = r.parked.node
      · rw [if_pos hnode.symm, if_pos hnode]
        rfl
      · rw [if_neg (Ne.symm hnode), if_neg hnode]
  · simp only [hbound]
    exact readsOf_useVariable _ _ _ _ _ hslot
  · simp only [hbound]
    exact writesOf_useVariable _ _ _ _ _ hslot
  · simp [hfate]

/-- A step that at most enters a reference notes it, if its fate asks for no more. -/
theorem notes_of_entry (hcurrent : b'.current = b.current) (hcomments : b'.comments = b.comments)
    (hscopes : b'.scopes = b.scopes) (hstore : b'.analysis.store = b.analysis.store)
    (hdiagnostics : b'.analysis.diagnostics = b.analysis.diagnostics)
    (hundefined : b'.analysis.undefinedValue = b.analysis.undefinedValue)
    (hwaits : ∀ s, r.fate a b.scopes ≠ .waiting s)
    (hvalue : ∀ v, r.fate a b.scopes ≠ .bound (.inl v))
    (hmissing : reportUndefined = true → r.fate a b.scopes ≠ .missing)
    (hentries : ∀ space node, b'.analysis.noted? space node =
      if space = r.parked.space ∧ node = r.parked.node then
        ((r.fate a b.scopes).noted? b.analysis).or (b.analysis.noted? space node)
      else b.analysis.noted? space node) : Notes a reportUndefined r b b' := by
  have hvalues : b'.values = b.values := congrArg Store.values hstore
  refine ⟨hcurrent, hcomments, hundefined, fun s => ?_, fun v hv => hvalues ▸ hv, hentries,
    fun v => ?_, fun v => ?_, ?_⟩
  · rw [hscopes]
    simp only [hwaits s, if_false]
    exact Option.map_id'.symm
  · rw [hvalues, if_neg (hvalue v), List.append_nil]
  · rw [hvalues, if_neg fun h => hvalue v h.1, List.append_nil]
  · rw [hdiagnostics, if_neg fun h => hmissing h.1 h.2, List.append_nil]

/-- Giving a type name its type notes it. -/
theorem setType_notes {t : TypeId} (hspace : r.parked.space = .type)
    (hfate : r.fate a b.scopes = .bound (.inr t)) :
    Notes a reportUndefined r b (Bind.onAnalysis (Analysis.setType r.parked.node t) b).2 := by
  refine notes_of_entry rfl rfl rfl rfl rfl rfl (by simp [hfate]) (by simp [hfate])
    (by simp [hfate]) ?_
  intro space node
  rw [hspace, hfate]
  cases space with
  | value => rfl
  | type =>
    show ((b.analysis.typeTable.insert r.parked.node t).get? node).map Sum.inr = _
    simp only [Analysis.noted?, Analysis.typeOf?, NodeTable.get?_insert, Fate.noted?, true_and,
      Option.some_or]
    by_cases hnode : node = r.parked.node
    · rw [if_pos hnode.symm, if_pos hnode]
      rfl
    · rw [if_neg (Ne.symm hnode), if_neg hnode]

/-- Giving the name `undefined` its value notes it. -/
theorem setValue_notes (hspace : r.parked.space = .value)
    (hfate : r.fate a b.scopes = .undefinedName) :
    Notes a reportUndefined r b
      (Bind.onAnalysis (Analysis.setValue r.parked.node b.analysis.undefinedValue) b).2 := by
  refine notes_of_entry rfl rfl rfl rfl rfl rfl (by simp [hfate]) (by simp [hfate])
    (by simp [hfate]) ?_
  intro space node
  rw [hspace, hfate]
  cases space with
  | type => rfl
  | value =>
    show ((b.analysis.valueTable.insert r.parked.node _).get? node).map Sum.inl = _
    simp only [Analysis.noted?, Analysis.valueOf?, NodeTable.get?_insert, Fate.noted?, true_and,
      Option.some_or]
    by_cases hnode : node = r.parked.node
    · rw [if_pos hnode.symm, if_pos hnode]
      rfl
    · rw [if_neg (Ne.symm hnode), if_neg hnode]

/-- Nothing is to be done for a reference that has no entry and is not reported. -/
theorem skip_notes (hentry : (r.fate a b.scopes).noted? b.analysis = none)
    (hwaits : ∀ s, r.fate a b.scopes ≠ .waiting s)
    (hmissing : reportUndefined = true → r.fate a b.scopes ≠ .missing) :
    Notes a reportUndefined r b b := by
  refine notes_of_entry rfl rfl rfl rfl rfl rfl hwaits ?_ hmissing ?_
  · intro v hv
    rw [hv] at hentry
    cases hentry
  · intro space node
    rw [hentry, Option.none_or, ite_self]

/-- Parking a reference where it waits notes it. -/
theorem park_notes {s : ScopeId} (hfate : r.fate a b.scopes = .waiting s) :
    Notes a reportUndefined r b (park s r.parked b).2 := by
  refine ⟨rfl, rfl, rfl, fun id => ?_, fun v hv => hv, fun space node => ?_, fun v => ?_,
    fun v => ?_, ?_⟩
  · show (b.scopes.update s (Scope.park r.parked)).get? id = _
    rw [ScopeTree.get?_update, hfate]
    by_cases hid : s = id <;> simp [hid]
  · rw [hfate, Fate.noted?, Option.none_or, ite_self]
    rfl
  · rw [if_neg (by simp [hfate]), List.append_nil]
    rfl
  · rw [if_neg (by simp [hfate]), List.append_nil]
    rfl
  · rw [if_neg (by simp [hfate]), List.append_nil]
    rfl

/-- Reporting a reference that is missing notes it. -/
theorem report_notes (hfate : r.fate a b.scopes = .missing) :
    Notes a true r b (Bind.onAnalysis
      (Analysis.reportAt a (unboundProblem r.parked.space) r.parked.node) b).2 := by
  refine ⟨rfl, rfl, rfl, fun s => ?_, fun v hv => hv,
    fun space node => ?_, fun v => ?_, fun v => ?_, ?_⟩
  · simp only [hfate, reduceCtorEq, if_false]
    exact Option.map_id'.symm
  · rw [hfate, Fate.noted?, Option.none_or, ite_self]
    rfl
  · rw [if_neg (by simp [hfate]), List.append_nil]
    rfl
  · rw [if_neg (by simp [hfate]), List.append_nil]
    rfl
  · have hunbound : (r.problem a).isUnbound = true := by
      unfold Diagnostic.isUnbound Reference.problem
      cases r.parked.space <;> rfl
    show (b.analysis.diagnostics.push (r.problem a)).toList.filter Diagnostic.isUnbound = _
    rw [if_pos ⟨rfl, hfate⟩, Array.toList_push, List.filter_append, List.filter_singleton,
      hunbound]
    rfl

/-! ## Meeting a reference -/

/-- What is parked for an identifier. -/
def valueMention (a : Arena) (node assigned : NodeRef) : Parked :=
  { name := a.atom node, node, space := .value, assigned }

/-- What is parked for a type name. -/
def typeMention (a : Arena) (node : NodeRef) : Parked :=
  { name := a.atom node, node, space := .type }

/-- The step for a type name that is one identifier. -/
def referType (a : Arena) (node : NodeRef) : Bind Unit := do
  let b ← get
  match b.analysis.scopes.lookupType b.current (a.atom node) with
  | .bound binding => Analysis.setType node binding.target
  | .declared id => park id (typeMention a node)
  | .unbound => park b.current (typeMention a node)

/-- Where a reference waits that was just met. -/
theorem Sound.fate_meet (hb : b.Sound) (p : Parked) (h : (b.meet p).decided? a = none) :
    (b.meet p).fate a b.scopes = .waiting (b.meet p).start := by
  rw [Reference.fate_of_undecided h]
  refine hb.settle ?_ _ _
  unfold Reference.start
  cases htaker : (b.meet p).taker? with
  | none => exact ScopeTree.mem_chain_self hb.nested _
  | some id => exact (ScopeTree.mem_chain_of_taker? htaker).1

theorem bind_target?_value (t : ScopeTree) (id : ScopeId) (name : Atom) :
    (t.get? id).bind (·.target? .value name)
      = ((t.get? id).bind (·.boundVariable? name)).map fun binding => .inl binding.target := by
  cases t.get? id <;> rfl

theorem bind_target?_type (t : ScopeTree) (id : ScopeId) (name : Atom) :
    (t.get? id).bind (·.target? .type name)
      = ((t.get? id).bind (·.boundType? name)).map fun binding => .inr binding.target := by
  cases t.get? id <;> rfl

theorem decided?_of_taker {id : ScopeId} (h : r.taker? = some id) :
    r.decided? a = ((r.seen.get? id).bind (·.target? r.parked.space r.parked.name)).map .bound := by
  rw [Reference.decided?, h]

theorem decided?_of_no_taker (h : r.taker? = none) (hspace : r.parked.space = .value) :
    r.decided? a = if a.text r.parked.node = "undefined" then some .undefinedName
      else if r.isArguments a then some .argumentsName else none := by
  rw [Reference.decided?, h, hspace]

/-- Meeting an identifier notes it. -/
theorem visitIdentifier_notes (hb : b.Sound) (node assigned : NodeRef) :
    Notes a reportUndefined (b.meet (valueMention a node assigned)) b
      (visitIdentifier a node assigned b).2 := by
  let r := b.meet (valueMention a node assigned)
  unfold visitIdentifier
  rw [run_bind, run_get]
  simp only [ScopeTree.lookupVariable_eq]
  cases htaker : b.scopes.taker? .value (a.atom node) b.current with
  | some id =>
    have htaker' : r.taker? = some id := htaker
    have hdecided : r.decided? a = (((b.scopes.get? id).bind (·.boundVariable? (a.atom node))).map
        fun binding => .inl binding.target).map .bound :=
      (decided?_of_taker htaker').trans (congrArg _ (bind_target?_value _ _ _))
    cases hbound : (b.scopes.get? id).bind (·.boundVariable? (a.atom node)) with
    | some binding =>
      simp only [ScopeTree.answer, hbound]
      obtain ⟨scope, hscope, hvar⟩ := Option.bind_eq_some_iff.1 hbound
      have hslot := hb.slots id scope (a.atom node) binding.target hscope
        (by rw [Scope.target?, hvar, Option.map_some])
      rw [hbound] at hdecided
      exact bindReference_notes (r := r) rfl (Reference.fate_of_decided hdecided _) hslot
    | none =>
      simp only [ScopeTree.answer, hbound]
      rw [hbound] at hdecided
      have hstart : r.start = id := by rw [Reference.start, htaker', Option.getD_some]
      exact park_notes (r := r) (hstart ▸ hb.fate_meet _ hdecided)
  | none =>
    have htaker' : r.taker? = none := htaker
    have hdecided : r.decided? a = if a.text node = "undefined" then some .undefinedName
        else if r.isArguments a then some .argumentsName else none :=
      decided?_of_no_taker htaker' rfl
    simp only [ScopeTree.answer]
    by_cases hundefined : a.text node = "undefined"
    · rw [if_pos hundefined] at hdecided ⊢
      exact setValue_notes (r := r) rfl (Reference.fate_of_decided hdecided _)
    · rw [if_neg hundefined] at hdecided ⊢
      show Notes a reportUndefined r b ((if r.isArguments a = true then pure none else do
        park b.current r.parked
        pure none : Bind (Option ValueId)) b).2
      by_cases harguments : r.isArguments a = true
      · rw [if_pos harguments] at hdecided ⊢
        have hfate := Reference.fate_of_decided hdecided b.scopes
        exact skip_notes (by rw [hfate]; rfl) (by simp [hfate]) (by simp [hfate])
      · rw [if_neg harguments] at hdecided ⊢
        have hstart : r.start = b.current := by
          rw [Reference.start, htaker', Option.getD_none]
          rfl
        exact park_notes (r := r) (hstart ▸ hb.fate_meet _ hdecided)

/-- Meeting a type name notes it. -/
theorem referType_notes (hb : b.Sound) (node : NodeRef) :
    Notes a reportUndefined (b.meet (typeMention a node)) b (referType a node b).2 := by
  let r := b.meet (typeMention a node)
  unfold referType
  rw [run_bind, run_get]
  simp only [ScopeTree.lookupType_eq]
  cases htaker : b.scopes.taker? .type (a.atom node) b.current with
  | some id =>
    have htaker' : r.taker? = some id := htaker
    have hdecided : r.decided? a = (((b.scopes.get? id).bind (·.boundType? (a.atom node))).map
        fun binding => .inr binding.target).map .bound :=
      (decided?_of_taker htaker').trans (congrArg _ (bind_target?_type _ _ _))
    cases hbound : (b.scopes.get? id).bind (·.boundType? (a.atom node)) with
    | some binding =>
      simp only [ScopeTree.answer, hbound]
      rw [hbound] at hdecided
      exact setType_notes (r := r) rfl (Reference.fate_of_decided hdecided _)
    | none =>
      simp only [ScopeTree.answer, hbound]
      rw [hbound] at hdecided
      have hstart : r.start = id := by rw [Reference.start, htaker', Option.getD_some]
      exact park_notes (r := r) (hstart ▸ hb.fate_meet _ hdecided)
  | none =>
    have htaker' : r.taker? = none := htaker
    have hundecided : r.decided? a = none := by rw [Reference.decided?, htaker']; rfl
    have hstart : r.start = b.current := by
      rw [Reference.start, htaker', Option.getD_none]
      rfl
    simp only [ScopeTree.answer]
    exact park_notes (r := r) (hstart ▸ hb.fate_meet _ hundecided)

end Binder

/-! ## Steps that note references -/

/-- A scope without the references that are parked in it. -/
def Scope.unparked (s : Scope) : Scope := { s with parked := #[], overdue := false }

namespace Binder

/-- Scopes change in their parked references at most, and nothing that was noted is lost. -/
structure Quiet (a : Arena) (b b' : Binder) : Prop where
  current : b'.current = b.current
  comments : b'.comments = b.comments
  scopes : ∀ s, (b'.scopes.get? s).map Scope.unparked = (b.scopes.get? s).map Scope.unparked
  slots : ∀ v, (b.values.slot? v).isSome → (b'.values.slot? v).isSome
  valued : ∀ r, (b.analysis.valueOf? r).isSome → (b'.analysis.valueOf? r).isSome
  others : ∀ r, a.isKind r .identifier = false → b'.analysis.valueOf? r = b.analysis.valueOf? r

namespace Quiet

variable {a : Arena} {b b' b'' : Binder}

theorem refl (b : Binder) : Quiet a b b :=
  ⟨rfl, rfl, fun _ => rfl, fun _ h => h, fun _ h => h, fun _ _ => rfl⟩

theorem trans (h : Quiet a b b') (h' : Quiet a b' b'') : Quiet a b b'' :=
  ⟨h'.current.trans h.current, h'.comments.trans h.comments,
    fun s => (h'.scopes s).trans (h.scopes s), fun v hv => h'.slots v (h.slots v hv),
    fun r hr => h'.valued r (h.valued r hr), fun r hr => (h'.others r hr).trans (h.others r hr)⟩

end Quiet

end Binder

namespace Notes

open Binder

variable {a : Arena} {reportUndefined : Bool} {b b' : Binder} {r : Reference}

theorem valued (h : Notes a reportUndefined r b b') {node : NodeRef}
    (hnode : (b.analysis.valueOf? node).isSome) : (b'.analysis.valueOf? node).isSome := by
  have hentry := h.entries .value node
  have hsome : (b.analysis.noted? .value node).isSome := by
    rw [Analysis.noted?, Option.isSome_map]
    exact hnode
  have hsome' : (b'.analysis.noted? .value node).isSome := by
    rw [hentry]
    split
    · rw [Option.isSome_or, hsome, Bool.or_true]
    · exact hsome
  rwa [Analysis.noted?, Option.isSome_map] at hsome'

/-- Nothing but the identifier gets a value. -/
theorem others (h : Notes a reportUndefined r b b')
    (hnamed : ∃ n, r.parked.node = some n ∧ a.isKind (some n) .identifier = true) {node : NodeRef}
    (hnode : a.isKind node .identifier = false) :
    b'.analysis.valueOf? node = b.analysis.valueOf? node := by
  obtain ⟨m, hm, hkind⟩ := hnamed
  have hentry := h.entries .value node
  rw [if_neg] at hentry
  · exact Option.map_injective (fun _ _ => Sum.inl.inj) hentry
  · rintro ⟨-, rfl⟩
    rw [hm, hkind] at hnode
    cases hnode

theorem quiet (h : Notes a reportUndefined r b b')
    (hnamed : ∃ n, r.parked.node = some n ∧ a.isKind (some n) .identifier = true) :
    Quiet a b b' where
  current := h.current
  comments := h.comments
  scopes s := by
    rw [h.scopes s, Option.map_map]
    congr 1
    funext scope
    simp only [Function.comp_apply]
    split <;> rfl
  slots := h.slots
  valued _ := h.valued
  others _ := h.others hnamed

end Notes

/-! ## Closing a scope -/

/-- Where a scope that closes sends a reference. -/
def Scope.send (scope : Scope) (space : Namespace) (name : Atom) : Fate :=
  match scope.target? space name, scope.outer with
  | some x, _ => .bound x
  | none, some outer => .waiting outer
  | none, none => .missing

/-- What is parked for some references is parked for them in some order. -/
theorem exists_perm_map_eq {α β : Type} {f : α → β} {ys : List β} {xs : List α}
    (h : ys.Perm (xs.map f)) : ∃ zs : List α, zs.Perm xs ∧ zs.map f = ys := by
  induction ys generalizing xs with
  | nil =>
    have hnil : xs = [] := List.map_eq_nil_iff.1 (List.nil_perm.1 h)
    exact ⟨[], by rw [hnil], rfl⟩
  | cons y ys ih =>
    obtain ⟨x, hx, rfl⟩ := List.mem_map.1 (h.mem_iff.1 List.mem_cons_self)
    obtain ⟨before, after, rfl⟩ := List.mem_iff_append.1 hx
    have hmove : (before ++ x :: after).Perm (x :: (before ++ after)) := List.perm_middle
    have hrest : ys.Perm ((before ++ after).map f) :=
      (h.trans (hmove.map f)).cons_inv
    obtain ⟨zs, hzs, hmap⟩ := ih hrest
    exact ⟨x :: zs, (hzs.cons x).trans hmove.symm, by rw [List.map_cons, hmap]⟩

namespace Binder

variable {a : Arena} {reportUndefined : Bool} {b b' : Binder} {r : Reference}

/-- A reference that a scope does not bind is parked further out or reported. -/
theorem pass_notes (reportUndefined : Bool) {scope : Scope}
    (hfate : r.fate a b.scopes = scope.send r.parked.space r.parked.name)
    (hnone : scope.target? r.parked.space r.parked.name = none) :
    Notes a reportUndefined r b ((match scope.outer with
      | some outer => park outer r.parked
      | none => if reportUndefined then
          Analysis.reportAt a (unboundProblem r.parked.space) r.parked.node
        else pure () : Bind Unit) b).2 := by
  unfold Scope.send at hfate
  rw [hnone] at hfate
  cases houter : scope.outer with
  | some outer =>
    rw [houter] at hfate
    exact park_notes hfate
  | none =>
    rw [houter] at hfate
    cases reportUndefined with
    | true => exact report_notes hfate
    | false => exact skip_notes (by rw [hfate]; rfl) (by simp [hfate]) (by simp)

/-- Trying a reference again notes where the scope sends it. -/
theorem retry_notes {scope : Scope}
    (hfate : r.fate a b.scopes = scope.send r.parked.space r.parked.name)
    (hslots : ∀ name v, scope.target? .value name = some (.inl v) → (b.values.slot? v).isSome) :
    Notes a reportUndefined r b (retry a reportUndefined scope r.parked b).2 := by
  have hpass := pass_notes reportUndefined hfate
  unfold retry
  cases hspace : r.parked.space with
  | value =>
    rw [hspace] at hfate hpass
    cases hbound : scope.boundVariable? r.parked.name with
    | some binding =>
      have htarget : scope.target? .value r.parked.name = some (.inl binding.target) := by
        rw [Scope.target?, hbound, Option.map_some]
      rw [Scope.send, htarget] at hfate
      exact bindReference_notes hspace hfate (hslots _ _ htarget)
    | none => exact hpass (by rw [Scope.target?, hbound, Option.map_none])
  | type =>
    rw [hspace] at hfate hpass
    cases hbound : scope.boundType? r.parked.name with
    | some binding =>
      have htarget : scope.target? .type r.parked.name = some (.inr binding.target) := by
        rw [Scope.target?, hbound, Option.map_some]
      rw [Scope.send, htarget] at hfate
      exact setType_notes hspace hfate
    | none => exact hpass (by rw [Scope.target?, hbound, Option.map_none])

/-- Trying the references of a scope again adds them to the accounts. -/
theorem forM_retry_accounts {scope : Scope} {refs : List Reference} (waiting : List Reference)
    (h : Accounts a reportUndefined b refs) (hnested : b.scopes.Nested)
    (hwaiting : ∀ r ∈ waiting, r.start.index < b.scopes.size ∧
      (∃ n, r.parked.node = some n ∧ a.isKind (some n) .identifier = true) ∧
      r.fate a b.scopes = scope.send r.parked.space r.parked.name)
    (hslots : ∀ name v, scope.target? .value name = some (.inl v) → (b.values.slot? v).isSome) :
    let b' := ((waiting.map (·.parked)).forM (retry a reportUndefined scope) b).2
    Accounts a reportUndefined b' (waiting ++ refs) ∧ Quiet a b b' ∧ b'.scopes.Nested := by
  induction waiting generalizing b refs with
  | nil => exact ⟨h, .refl b, hnested⟩
  | cons r rest ih =>
    obtain ⟨hstart, hnamed, hfate⟩ := hwaiting r List.mem_cons_self
    have hnotes : Notes a reportUndefined r b _ := retry_notes hfate hslots
    have haccounts := hnotes.accounts h hnested hstart hnamed
    obtain ⟨hall, hquiet, hnested'⟩ := ih haccounts (hnotes.nested hnested) (fun q hq => by
      obtain ⟨hstart', hnamed', hfate'⟩ := hwaiting q (List.mem_cons_of_mem _ hq)
      exact ⟨hnotes.lt_size hstart', hnamed', by rw [hnotes.fate hnested, hfate']⟩)
      fun name v hv => hnotes.slots v (hslots name v hv)
    exact ⟨hall.perm List.perm_middle, (hnotes.quiet hnamed).trans hquiet, hnested'⟩

/-- The state in which the references of the current scope are tried again. -/
def suspend (b : Binder) : Binder :=
  (updateScope b.current (fun s => { s with state := .resolving, parked := #[] }) b).2

theorem exitScope_eq {scope : Scope} (h : b.scopes.get? b.current = some scope) :
    (exitScope a reportUndefined b).2 =
      let tried := (scope.parked.toList.forM (retry a reportUndefined scope) b.suspend).2
      let closed := (updateScope b.current (fun s => { s with state := .closed }) tried).2
      { closed with current := scope.outer.getD closed.current } := by
  unfold exitScope
  rw [run_bind, run_get, run_bind, run_get]
  simp only [h]
  cases scope.outer <;> rfl

theorem get?_suspend (s : ScopeId) : b.suspend.scopes.get? s = (b.scopes.get? s).map fun scope =>
    if s = b.current then { scope with state := .resolving, parked := #[] } else scope := by
  show (b.scopes.update _ _).get? s = _
  rw [ScopeTree.get?_update]
  by_cases hs : s = b.current
  · simp [hs]
  · simp [hs, Ne.symm hs]

theorem outer?_suspend (s : ScopeId) : b.suspend.scopes.outer? s = b.scopes.outer? s := by
  unfold ScopeTree.outer?
  rw [get?_suspend]
  cases b.scopes.get? s with
  | none => rfl
  | some scope =>
    simp only [Option.map_some, Option.bind_some]
    split <;> rfl

theorem Sound.nested_suspend (hb : b.Sound) : b.suspend.scopes.Nested :=
  fun s o ho => hb.nested s o (by rwa [← outer?_suspend])

theorem holds?_suspend {s : ScopeId} (hs : s ≠ b.current) (space : Namespace) (name : Atom) :
    b.suspend.scopes.holds? space name s = b.scopes.holds? space name s := by
  unfold ScopeTree.holds?
  rw [get?_suspend]
  simp only [hs, if_false]
  rw [Option.map_id']

/-- The scope that closes sends on what waits in it. -/
theorem Sound.settle_suspend (hb : b.Sound) {scope : Scope}
    (h : b.scopes.get? b.current = some scope) (space : Namespace) (name : Atom) :
    b.suspend.scopes.settle space name b.current = scope.send space name := by
  have hholds : b.suspend.scopes.holds? space name b.current
      = (scope.target? space name).map Fate.bound := by
    unfold ScopeTree.holds?
    rw [get?_suspend, h]
    simp only [Option.map_some, Option.bind_some, if_true, reduceCtorEq, if_false]
    rfl
  have houter : b.suspend.scopes.outer? b.current = scope.outer := by
    rw [outer?_suspend, ScopeTree.outer?, h, Option.bind_some]
  rw [ScopeTree.settle_eq hb.nested_suspend, hholds, houter]
  unfold Scope.send
  cases scope.target? space name with
  | some x => rfl
  | none =>
    cases ho : scope.outer with
    | none => rfl
    | some o =>
      -- The scope around the current one is open, so the reference waits there.
      have ho' : b.scopes.outer? b.current = some o := by
        rw [ScopeTree.outer?, h, Option.bind_some, ho]
      have hne : o ≠ b.current := by
        rintro rfl
        exact Nat.lt_irrefl _ (hb.nested _ _ ho')
      have hchain : o ∈ b.scopes.chain b.current :=
        ScopeTree.mem_chain_outer hb.nested ho' (ScopeTree.mem_chain_self hb.nested o)
      obtain ⟨outer, hget⟩ := ScopeTree.exists_get?_of_lt (hb.lt_size hchain)
      have hget' : b.suspend.scopes.get? o = some outer := by
        rw [get?_suspend, hget]
        simp [hne]
      exact ScopeTree.settle_of_opened hb.nested_suspend hget' ((hb.opened o outer hget).2 hchain)

/-- What becomes of a reference when the current scope closes. -/
theorem Sound.fate_suspend (hb : b.Sound) {scope : Scope}
    (h : b.scopes.get? b.current = some scope) (r : Reference) :
    r.fate a b.suspend.scopes = if r.fate a b.scopes = .waiting b.current then
      scope.send r.parked.space r.parked.name else r.fate a b.scopes := by
  cases hd : r.decided? a with
  | some fate =>
    rw [Reference.fate_of_decided hd, Reference.fate_of_decided hd, if_neg]
    rintro rfl
    exact Reference.decided?_ne_waiting a r _ hd
  | none =>
    rw [Reference.fate_of_undecided hd, Reference.fate_of_undecided hd]
    have hopen := (hb.opened _ scope h).2 (ScopeTree.mem_chain_self hb.nested _)
    rw [← hb.settle_suspend h]
    exact ScopeTree.settle_close hb.nested hb.nested_suspend outer?_suspend
      (fun id hid => holds?_suspend hid _ _) (ScopeTree.holds?_of_opened h hopen) r.start

/-- The references that do not wait in the current scope stay accounted for when it is about
to close. -/
theorem suspend_accounts (hb : b.Sound) {scope : Scope} (h : b.scopes.get? b.current = some scope)
    {refs : List Reference} (haccounts : Accounts a reportUndefined b refs) :
    Accounts a reportUndefined b.suspend
      (refs.filter fun r => !decide (r.fate a b.scopes = .waiting b.current)) := by
  have hfate : ∀ r : Reference, r.fate a b.scopes ≠ .waiting b.current →
      r.fate a b.suspend.scopes = r.fate a b.scopes := fun r hr => by
    rw [hb.fate_suspend h, if_neg hr]
  -- A fate that is none of the waiting ones is as frequent among all references as before.
  have hkeep : ∀ (fate : Fate), fate ≠ .waiting b.current → ∀ r : Reference,
      (decide (r.fate a b.suspend.scopes = fate) &&
        !decide (r.fate a b.scopes = .waiting b.current))
        = decide (r.fate a b.scopes = fate) := by
    intro fate hne r
    by_cases hr : r.fate a b.scopes = .waiting b.current
    · simp [hr, Ne.symm hne]
    · simp [hr, hfate r hr]
  have hfilter : ∀ fate : Fate, fate ≠ .waiting b.current →
      ((refs.filter fun r => !decide (r.fate a b.scopes = .waiting b.current)).filter
        fun r => r.fate a b.suspend.scopes =
          fate) = refs.filter fun r => r.fate a b.scopes = fate := by
    intro fate hne
    rw [List.filter_filter]
    exact List.filter_congr fun r _ => hkeep fate hne r
  have hlt : ∀ s : ScopeId, s.index < b.scopes.size → s.index < b.suspend.scopes.size := by
    intro s hs
    obtain ⟨other, hother⟩ := ScopeTree.exists_get?_of_lt hs
    have hget := get?_suspend (b := b) s
    rw [hother, Option.map_some] at hget
    exact ScopeTree.lt_size_of_get? hget
  have howns : ∀ n v, b.Owns n v → b.suspend.Owns n v := by
    rintro n v ⟨s, other, name, hother, hnode, hbound⟩
    refine ⟨s, _, name, by rw [get?_suspend, hother]; rfl, ?_, ?_⟩
    · split <;> exact hnode
    · split <;> exact hbound
  refine ⟨fun r hr => hlt _ (haccounts.placed r (List.mem_of_mem_filter hr)),
    fun r hr => haccounts.named r (List.mem_of_mem_filter hr), fun s other hother => ?_,
    fun r hr hsome => ?_, fun space n x hn hx => ?_, fun v n hn => ?_, fun v n hn hown => ?_, ?_⟩
  · by_cases hs : s = b.current
    · subst hs
      -- Nothing waits in the scope any more.
      have hnone : ((refs.filter fun r => !decide (r.fate a b.scopes = .waiting b.current)).filter
          fun r => r.fate a b.suspend.scopes = .waiting b.current) = [] := by
        refine List.filter_eq_nil_iff.2 fun r hr hwaits => ?_
        rw [hfate r (by simpa using (List.mem_filter.1 hr).2)] at hwaits
        simpa [of_decide_eq_true hwaits] using (List.mem_filter.1 hr).2
      rw [hnone]
      rw [get?_suspend, h] at hother
      simp only [Option.map_some, if_true, Option.some.injEq] at hother
      subst hother
      exact .refl []
    · rw [hfilter _ (by simpa using hs)]
      rw [get?_suspend] at hother
      simp only [hs, if_false, Option.map_id'] at hother
      exact haccounts.parked s other hother
  · have hne : r.fate a b.scopes ≠ .waiting b.current := by simpa using (List.mem_filter.1 hr).2
    rw [hfate r hne] at hsome
    exact haccounts.entered r (List.mem_of_mem_filter hr) hsome
  · obtain ⟨r, hr, hnode, hspace, hentry⟩ := haccounts.entries space n x hn hx
    have hne : r.fate a b.scopes ≠ .waiting b.current := by
      intro hwaits
      rw [hwaits] at hentry
      cases hentry
    exact ⟨r, List.mem_filter.2 ⟨hr, by simpa using hne⟩, hnode,
      hspace, by rw [hfate r hne]; exact hentry⟩
  · rw [List.countP_filter]
    refine (haccounts.reads v n hn).trans (List.countP_congr fun r _ => ?_)
    rw [← hkeep (.bound (.inl v)) (by simp) r]
    simp only [Bool.and_eq_true]
    tauto
  · rw [List.countP_filter]
    refine (haccounts.writes v n hn fun hown' => hown (howns n v hown')).trans
      (List.countP_congr fun r _ => ?_)
    rw [← hkeep (.bound (.inl v)) (by simp) r]
    simp only [Bool.and_eq_true]
    tauto
  · rw [hfilter _ (by simp)]
    exact haccounts.reports

/-- The current scope is closed and left. -/
structure Closes (a : Arena) (b b' : Binder) : Prop where
  current : b'.current = (b.scopes.outer? b.current).getD b.current
  comments : b'.comments = b.comments
  scopes : ∀ s, (b'.scopes.get? s).map Scope.unparked = (b.scopes.get? s).map fun scope =>
    if s = b.current then { scope.unparked with state := .closed } else scope.unparked
  slots : ∀ v, (b.values.slot? v).isSome → (b'.values.slot? v).isSome
  valued : ∀ r, (b.analysis.valueOf? r).isSome → (b'.analysis.valueOf? r).isSome
  others : ∀ r, a.isKind r .identifier = false → b'.analysis.valueOf? r = b.analysis.valueOf? r

/-- Closing a scope keeps the accounts. -/
theorem exitScope_accounts (hb : b.Sound) {refs : List Reference}
    (haccounts : Accounts a reportUndefined b refs) :
    Accounts a reportUndefined (exitScope a reportUndefined b).2 refs ∧
      Closes a b (exitScope a reportUndefined b).2 := by
  obtain ⟨scope, hscope⟩ := ScopeTree.exists_get?_of_lt hb.current
  obtain ⟨waiting, hwaiting, hparked⟩ := exists_perm_map_eq (haccounts.parked _ scope hscope)
  have hlt : ∀ s : ScopeId, s.index < b.scopes.size → s.index < b.suspend.scopes.size := by
    intro s hs
    obtain ⟨other, hother⟩ := ScopeTree.exists_get?_of_lt hs
    have hget := get?_suspend (b := b) s
    rw [hother, Option.map_some] at hget
    exact ScopeTree.lt_size_of_get? hget
  have hretry := forM_retry_accounts waiting (suspend_accounts hb hscope haccounts)
    hb.nested_suspend (fun r hr => by
      obtain ⟨hmem, hwaits⟩ := List.mem_filter.1 (hwaiting.mem_iff.1 hr)
      exact ⟨hlt _ (haccounts.placed r hmem), haccounts.named r hmem, by
        rw [hb.fate_suspend hscope, if_pos (of_decide_eq_true hwaits)]⟩)
    fun name v hv => hb.slots _ scope name v hscope hv
  rw [hparked] at hretry
  rw [exitScope_eq hscope]
  generalize (scope.parked.toList.forM (retry a reportUndefined scope) b.suspend).2 =
    tried at hretry
  obtain ⟨hall, hquiet, hnested⟩ := hretry
  have hrefs : Accounts a reportUndefined tried refs :=
    hall.perm ((hwaiting.append_right _).trans (List.filter_append_perm _ refs))
  let closed := (updateScope b.current (fun s => { s with state := .closed }) tried).2
  have hget : ∀ s, closed.scopes.get? s = (tried.scopes.get? s).map fun other =>
      if s = b.current then { other with state := .closed } else other := by
    intro s
    show (tried.scopes.update _ _).get? s = _
    rw [ScopeTree.get?_update]
    by_cases hs : s = b.current
    · simp [hs]
    · simp [hs, Ne.symm hs]
  have hresolving : ∀ other, tried.scopes.get? b.current = some other → other.state ≠ .opened := by
    intro other hother
    have hsame := hquiet.scopes b.current
    rw [hother, get?_suspend, hscope] at hsame
    simp only [Option.map_some, if_true, Option.some.injEq] at hsame
    have hstate : other.unparked.state = .resolving := by rw [hsame]; rfl
    intro hopen
    exact absurd (hopen.symm.trans hstate) (by simp)
  have hspares : Spares a tried { closed with current := scope.outer.getD closed.current } := by
    refine ⟨fun s other hother => ?_, fun s other hnone hsome => ?_, fun _ _ _ => rfl,
      fun _ _ _ => rfl, fun _ _ _ _ => rfl, rfl, rfl⟩
    · refine ⟨_, (hget s).trans (by rw [hother]; rfl), ?_⟩
      split
      · next hs =>
        subst hs
        have hopen := hresolving other hother
        exact ⟨rfl, rfl, by simp [hopen], rfl, fun _ _ _ hx => hx, fun _ _ _ => rfl⟩
      · exact .refl other
    · have hsome' := (hget s).symm.trans hsome
      rw [hnone] at hsome'
      cases hsome'
  have hnested' : closed.scopes.Nested := by
    intro s o ho
    refine hnested s o ?_
    obtain ⟨other, hother, houter⟩ := Option.bind_eq_some_iff.1 ho
    rw [hget s] at hother
    obtain ⟨old, hold, rfl⟩ := Option.map_eq_some_iff.1 hother
    rw [ScopeTree.outer?, hold, Option.bind_some, ← houter]
    split <;> rfl
  refine ⟨hrefs.spared hspares hnested hnested', ⟨?_, hquiet.comments, fun s => ?_, hquiet.slots,
    hquiet.valued, hquiet.others⟩⟩
  · show scope.outer.getD tried.current = _
    rw [hquiet.current, ScopeTree.outer?, hscope, Option.bind_some]
    rfl
  · show (closed.scopes.get? s).map Scope.unparked = _
    have hsame := hquiet.scopes s
    rw [get?_suspend] at hsame
    rw [hget s]
    cases hold : b.scopes.get? s with
    | none =>
      rw [hold] at hsame
      have hnone : tried.scopes.get? s = none := by simpa using hsame
      rw [hnone]
      rfl
    | some old =>
      rw [hold] at hsame
      obtain ⟨other, hother, hunparked⟩ := Option.map_eq_some_iff.1 hsame
      rw [hother]
      simp only [Option.map_some, Option.some.injEq]
      by_cases hs : s = b.current
      · simp only [hs, if_true] at hunparked ⊢
        exact congrArg (fun x : Scope => { x with state := .closed }) hunparked
      · simp only [hs, if_false] at hunparked ⊢
        exact hunparked

end Binder

end DocTypes
