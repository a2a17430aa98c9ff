import DocTypes.Proofs.Binding.Fate
import DocTypes.Proofs.Tree.Shape
import DocTypes.Proofs.Values.Changes
import Mathlib.Data.List.Count
import Mathlib.Data.List.Perm.Basic

/-!
# The ledger of references

At every moment of the walk the state accounts for the references that were met so far
(`Accounts`): a reference that waits is parked once in its scope, a bound one is entered at its
node and counted once among the readers of its variable, what it assigns is counted once among
the writes, and a missing one is reported once.

A step that leaves scopes, entries, counts and reports of references alone keeps the accounts
(`Spares`). Binding, parking and reporting add one reference to them (`Notes`).

## Main statements

* `Accounts.spared`: a step that touches no reference keeps the accounts.
* `Notes.accounts`: a step that does what the fate of one reference asks for adds it to them.
-/

namespace DocTypes

/-- The entry of a node among the values or the types. -/
def Analysis.noted? (x : Analysis) (space : Namespace) (r : NodeRef) : Option Target :=
  match space with
  | .value => (x.valueOf? r).map .inl
  | .type => (x.typeOf? r).map .inr

/-- What a reference of this fate is entered with at its node. -/
def Fate.noted? (x : Analysis) : Fate → Option Target
  | .bound target => some target
  | .undefinedName => some (.inl x.undefinedValue)
  | .waiting _ | .argumentsName | .missing => none

/-- Whether a problem is that of a reference that no scope binds. -/
def Diagnostic.isUnbound (d : Diagnostic) : Bool :=
  d.problem = .undefinedVariable || d.problem = .undefinedType

namespace Binder

/-- The scopes of the walk. -/
abbrev scopes (b : Binder) : ScopeTree := b.analysis.scopes

/-- The values of the walk. -/
abbrev values (b : Binder) : ValueStore := b.analysis.store.values

/-- The reference that is met now. -/
def meet (b : Binder) (p : Parked) : Reference := ⟨p, b.current, b.scopes⟩

/-- Whether a variable is bound in a scope that a node opens. -/
def Owns (b : Binder) (n : Nat) (v : ValueId) : Prop :=
  ∃ s scope name, b.scopes.get? s = some scope ∧ scope.node = some n ∧
    scope.target? .value name = some (.inl v)

end Binder

/-- The state accounts for the references. -/
structure Accounts (a : Arena) (reportUndefined : Bool) (b : Binder) (refs : List Reference) :
    Prop where
  placed : ∀ r ∈ refs, r.start.index < b.scopes.size
  named : ∀ r ∈ refs, ∃ n, r.parked.node = some n ∧ a.isKind (some n) .identifier = true
  parked : ∀ s scope, b.scopes.get? s = some scope →
    scope.parked.toList.Perm ((refs.filter fun r => r.fate a b.scopes = .waiting s).map (·.parked))
  entered : ∀ r ∈ refs, ((r.fate a b.scopes).noted? b.analysis).isSome →
    (b.analysis.noted? r.parked.space r.parked.node).isSome
  entries : ∀ space n x, a.isKind (some n) .identifier = true →
    b.analysis.noted? space (some n) = some x →
    ∃ r ∈ refs, r.parked.node = some n ∧ r.parked.space = space ∧
      (r.fate a b.scopes).noted? b.analysis = some x
  reads : ∀ v n, a.isKind (some n) .identifier = true →
    (b.values.readsOf v).count (some n) = refs.countP fun r =>
      r.fate a b.scopes = .bound (.inl v) && r.parked.node = some n
  writes : ∀ v n, a.isAssigned n = true → ¬b.Owns n v →
    (b.values.writesOf v).count (some n) = refs.countP fun r =>
      r.fate a b.scopes = .bound (.inl v) && r.parked.assigned = some n
  reports : (b.analysis.diagnostics.toList.filter Diagnostic.isUnbound).Perm
    (if reportUndefined then
      (refs.filter fun r => r.fate a b.scopes = .missing).map (·.problem a) else [])

/-! ## Steps that touch no reference -/

/-- A scope seen later that treats waiting references as before. -/
structure Scope.Still (s s' : Scope) : Prop where
  node : s'.node = s.node
  outer : s'.outer = s.outer
  state : s'.state = .opened ↔ s.state = .opened
  parked : s'.parked = s.parked
  binds : ∀ space name x, s.target? space name = some x → s'.target? space name = some x
  closed : s.state ≠ .opened → ∀ space name, s'.target? space name = s.target? space name

theorem Scope.Still.refl (s : Scope) : s.Still s :=
  ⟨rfl, rfl, .rfl, rfl, fun _ _ _ h => h, fun _ _ _ => rfl⟩

theorem Scope.Still.trans {s s' s'' : Scope} (h : s.Still s') (h' : s'.Still s'') :
    s.Still s'' where
  node := h'.node.trans h.node
  outer := h'.outer.trans h.outer
  state := h'.state.trans h.state
  parked := h'.parked.trans h.parked
  binds space name x hx := h'.binds space name x (h.binds space name x hx)
  closed hopen space name :=
    (h'.closed (fun h'' => hopen (h.state.1 h'')) space name).trans (h.closed hopen space name)

/-- A step that leaves references alone: scopes only open and bind, and nothing that is noted
for an identifier changes. -/
structure Spares (a : Arena) (b b' : Binder) : Prop where
  scopes : ∀ s scope, b.scopes.get? s = some scope →
    ∃ scope', b'.scopes.get? s = some scope' ∧ scope.Still scope'
  opens : ∀ s scope', b.scopes.get? s = none → b'.scopes.get? s = some scope' →
    scope'.parked = #[]
  entries : ∀ space n, a.isKind (some n) .identifier = true →
    b'.analysis.noted? space (some n) = b.analysis.noted? space (some n)
  reads : ∀ v n, a.isKind (some n) .identifier = true →
    (b'.values.readsOf v).count (some n) = (b.values.readsOf v).count (some n)
  writes : ∀ v n, a.isAssigned n = true → ¬b'.Owns n v →
    (b'.values.writesOf v).count (some n) = (b.values.writesOf v).count (some n)
  reports : b'.analysis.diagnostics.toList.filter Diagnostic.isUnbound
    = b.analysis.diagnostics.toList.filter Diagnostic.isUnbound
  undefinedValue : b'.analysis.undefinedValue = b.analysis.undefinedValue

namespace Spares

variable {a : Arena} {b b' b'' : Binder}

theorem owns (h : Spares a b b') {n : Nat} {v : ValueId} (hown : b.Owns n v) : b'.Owns n v := by
  obtain ⟨s, scope, name, hs, hnode, hbound⟩ := hown
  obtain ⟨scope', hs', hstill⟩ := h.scopes s scope hs
  exact ⟨s, scope', name, hs', hstill.node.trans hnode, hstill.binds _ _ _ hbound⟩

theorem refl (b : Binder) : Spares a b b where
  scopes _ scope h := ⟨scope, h, .refl scope⟩
  opens s scope' hnone hsome := by
    rw [hnone] at hsome
    cases hsome
  entries _ _ _ := rfl
  reads _ _ _ := rfl
  writes _ _ _ _ := rfl
  reports := rfl
  undefinedValue := rfl

theorem trans (h : Spares a b b') (h' : Spares a b' b'') : Spares a b b'' where
  scopes s scope hs := by
    obtain ⟨scope', hs', hstill⟩ := h.scopes s scope hs
    obtain ⟨scope'', hs'', hstill'⟩ := h'.scopes s scope' hs'
    exact ⟨scope'', hs'', hstill.trans hstill'⟩
  opens s scope'' hnone hs'' := by
    cases hs' : b'.scopes.get? s with
    | none => exact h'.opens s scope'' hs' hs''
    | some scope' =>
      obtain ⟨other, hother, hstill⟩ := h'.scopes s scope' hs'
      rw [hs''] at hother
      cases hother
      exact hstill.parked.trans (h.opens s scope' hnone hs')
  entries space n hn := (h'.entries space n hn).trans (h.entries space n hn)
  reads v n hn := (h'.reads v n hn).trans (h.reads v n hn)
  writes v n hn hown :=
    (h'.writes v n hn hown).trans (h.writes v n hn fun hown' => hown (h'.owns hown'))
  reports := h'.reports.trans h.reports
  undefinedValue := h'.undefinedValue.trans h.undefinedValue

theorem outer? (h : Spares a b b') {s : ScopeId} (hs : s.index < b.scopes.size) :
    b'.scopes.outer? s = b.scopes.outer? s := by
  obtain ⟨scope, hscope⟩ := ScopeTree.exists_get?_of_lt hs
  obtain ⟨scope', hscope', hstill⟩ := h.scopes s scope hscope
  simp only [ScopeTree.outer?, hscope, hscope', Option.bind_some, hstill.outer]

theorem lt_size (h : Spares a b b') {s : ScopeId} (hs : s.index < b.scopes.size) :
    s.index < b'.scopes.size := by
  obtain ⟨scope, hscope⟩ := ScopeTree.exists_get?_of_lt hs
  obtain ⟨scope', hscope', -⟩ := h.scopes s scope hscope
  exact ScopeTree.lt_size_of_get? hscope'

theorem holds? (h : Spares a b b') {s : ScopeId} (hs : s.index < b.scopes.size)
    (space : Namespace) (name : Atom) :
    b'.scopes.holds? space name s = b.scopes.holds? space name s := by
  obtain ⟨scope, hscope⟩ := ScopeTree.exists_get?_of_lt hs
  obtain ⟨scope', hscope', hstill⟩ := h.scopes s scope hscope
  simp only [ScopeTree.holds?, hscope, hscope', Option.bind_some]
  by_cases hopen : scope.state = .opened
  · rw [if_pos hopen, if_pos (hstill.state.2 hopen)]
  · rw [if_neg hopen, if_neg fun hopen' => hopen (hstill.state.1 hopen'), hstill.closed hopen]

/-- No fate changes. -/
theorem fate (h : Spares a b b') (ht : b.scopes.Nested) (ht' : b'.scopes.Nested) {r : Reference}
    (hr : r.start.index < b.scopes.size) : r.fate a b'.scopes = r.fate a b.scopes := by
  have hlt : ∀ id ∈ b.scopes.chain r.start, id.index < b.scopes.size := fun id hid =>
    Nat.lt_of_le_of_lt (ScopeTree.index_le_of_mem_chain ht hid) hr
  unfold Reference.fate
  rw [ScopeTree.settle_congr ht ht' (fun id hid => h.outer? (hlt id hid))
    fun id hid => h.holds? (hlt id hid) _ _]

end Spares

namespace Accounts

variable {a : Arena} {reportUndefined : Bool} {b b' : Binder} {refs refs' : List Reference}
  {r : Reference}

theorem perm (h : Accounts a reportUndefined b refs) (hperm : refs.Perm refs') :
    Accounts a reportUndefined b refs' where
  placed r hr := h.placed r (hperm.mem_iff.2 hr)
  named r hr := h.named r (hperm.mem_iff.2 hr)
  parked s scope hs := (h.parked s scope hs).trans ((hperm.filter _).map _)
  entered r hr := h.entered r (hperm.mem_iff.2 hr)
  entries space n x hn hx := by
    obtain ⟨r, hr, hrest⟩ := h.entries space n x hn hx
    exact ⟨r, hperm.mem_iff.1 hr, hrest⟩
  reads v n hn := (h.reads v n hn).trans (hperm.countP_eq _)
  writes v n hn hown := (h.writes v n hn hown).trans (hperm.countP_eq _)
  reports := by
    refine h.reports.trans ?_
    split
    · exact (hperm.filter _).map _
    · exact .refl []

/-- A step that touches no reference keeps the accounts. -/
theorem spared (h : Accounts a reportUndefined b refs) (hspares : Spares a b b')
    (ht : b.scopes.Nested) (ht' : b'.scopes.Nested) : Accounts a reportUndefined b' refs := by
  have hfate : ∀ r ∈ refs, r.fate a b'.scopes = r.fate a b.scopes := fun r hr =>
    hspares.fate ht ht' (h.placed r hr)
  have hentry : ∀ fate : Fate, fate.noted? b'.analysis = fate.noted? b.analysis := by
    intro fate
    cases fate <;> simp [Fate.noted?, hspares.undefinedValue]
  have hfilter : ∀ fate : Fate, (refs.filter fun r => r.fate a b'.scopes = fate)
      = refs.filter fun r => r.fate a b.scopes = fate := fun fate =>
    List.filter_congr fun r hr => by rw [hfate r hr]
  refine ⟨fun r hr => hspares.lt_size (h.placed r hr), h.named, fun s scope' hs' => ?_,
    fun r hr hsome => ?_, fun space n x hn hx => ?_, fun v n hn => ?_, fun v n hn hown => ?_, ?_⟩
  · rw [hfilter]
    cases hs : b.scopes.get? s with
    | some scope =>
      obtain ⟨other, hother, hstill⟩ := hspares.scopes s scope hs
      rw [hs'] at hother
      cases hother
      rw [hstill.parked]
      exact h.parked s scope hs
    | none =>
      -- Nothing waits in a scope that has just opened.
      have hnone : (refs.filter fun r => r.fate a b.scopes = .waiting s) = [] := by
        refine List.filter_eq_nil_iff.2 fun r _ hr => ?_
        obtain ⟨scope, hscope, -⟩ := Reference.opened_of_fate_eq_waiting (of_decide_eq_true hr)
        rw [hs] at hscope
        cases hscope
      rw [hspares.opens s scope' hs hs', hnone]
      exact .refl []
  · obtain ⟨n, hnode, hn⟩ := h.named r hr
    rw [hfate r hr, hentry] at hsome
    have hentered := h.entered r hr hsome
    rw [hnode] at hentered ⊢
    rwa [hspares.entries _ n hn]
  · rw [hspares.entries space n hn] at hx
    obtain ⟨r, hr, hnode, hspace, hx⟩ := h.entries space n x hn hx
    exact ⟨r, hr, hnode, hspace, by rw [hfate r hr, hentry, hx]⟩
  · rw [hspares.reads v n hn, h.reads v n hn]
    exact List.countP_congr fun r hr => by rw [hfate r hr]
  · rw [hspares.writes v n hn hown, h.writes v n hn fun hown' => hown (hspares.owns hown')]
    exact List.countP_congr fun r hr => by rw [hfate r hr]
  · rw [hspares.reports, hfilter]
    exact h.reports

end Accounts

/-! ## Steps that note one reference -/

/-- A step that does for a reference what its fate asks for, and nothing else. -/
structure Notes (a : Arena) (reportUndefined : Bool) (r : Reference) (b b' : Binder) : Prop where
  current : b'.current = b.current
  comments : b'.comments = b.comments
  undefinedValue : b'.analysis.undefinedValue = b.analysis.undefinedValue
  scopes : ∀ s, b'.scopes.get? s = (b.scopes.get? s).map fun scope =>
    if r.fate a b.scopes = .waiting s then scope.park r.parked else scope
  slots : ∀ v, (b.values.slot? v).isSome → (b'.values.slot? v).isSome
  entries : ∀ space node, b'.analysis.noted? space node =
    if space = r.parked.space ∧ node = r.parked.node then
      ((r.fate a b.scopes).noted? b.analysis).or (b.analysis.noted? space node)
    else b.analysis.noted? space node
  reads : ∀ v, b'.values.readsOf v = b.values.readsOf v ++
    if r.fate a b.scopes = .bound (.inl v) then [r.parked.node] else []
  writes : ∀ v, b'.values.writesOf v = b.values.writesOf v ++
    if r.fate a b.scopes = .bound (.inl v) ∧ r.parked.assigned.isSome then [r.parked.assigned]
    else []
  reports : b'.analysis.diagnostics.toList.filter Diagnostic.isUnbound
    = b.analysis.diagnostics.toList.filter Diagnostic.isUnbound ++
      if reportUndefined = true ∧ r.fate a b.scopes = .missing then [r.problem a] else []

namespace Notes

variable {a : Arena} {reportUndefined : Bool} {b b' : Binder} {refs : List Reference}
  {r : Reference}

theorem outer? (h : Notes a reportUndefined r b b') (s : ScopeId) :
    b'.scopes.outer? s = b.scopes.outer? s := by
  unfold ScopeTree.outer?
  rw [h.scopes s]
  cases b.scopes.get? s with
  | none => rfl
  | some scope =>
    simp only [Option.map_some, Option.bind_some]
    split <;> rfl

theorem holds? (h : Notes a reportUndefined r b b') (space : Namespace) (name : Atom)
    (s : ScopeId) : b'.scopes.holds? space name s = b.scopes.holds? space name s := by
  unfold ScopeTree.holds?
  rw [h.scopes s]
  cases b.scopes.get? s with
  | none => rfl
  | some scope =>
    simp only [Option.map_some, Option.bind_some]
    split <;> rfl

theorem nested (h : Notes a reportUndefined r b b') (ht : b.scopes.Nested) : b'.scopes.Nested :=
  fun s o ho => ht s o (by rwa [← h.outer? s])

theorem lt_size (h : Notes a reportUndefined r b b') {s : ScopeId}
    (hs : s.index < b.scopes.size) : s.index < b'.scopes.size := by
  obtain ⟨scope, hscope⟩ := ScopeTree.exists_get?_of_lt hs
  have hscope' := h.scopes s
  rw [hscope, Option.map_some] at hscope'
  exact ScopeTree.lt_size_of_get? hscope'

theorem fate (h : Notes a reportUndefined r b b') (ht : b.scopes.Nested) (q : Reference) :
    q.fate a b'.scopes = q.fate a b.scopes := by
  unfold Reference.fate
  rw [ScopeTree.settle_congr ht (h.nested ht) (fun id _ => h.outer? id)
    fun id _ => h.holds? _ _ id]

theorem owns_iff (h : Notes a reportUndefined r b b') (n : Nat) (v : ValueId) :
    b'.Owns n v ↔ b.Owns n v := by
  constructor
  · rintro ⟨s, scope', name, hs', hnode, hbound⟩
    rw [h.scopes s] at hs'
    obtain ⟨scope, hs, rfl⟩ := Option.map_eq_some_iff.1 hs'
    refine ⟨s, scope, name, hs, ?_, ?_⟩
    · split at hnode <;> exact hnode
    · split at hbound <;> exact hbound
  · rintro ⟨s, scope, name, hs, hnode, hbound⟩
    refine ⟨s, _, name, by rw [h.scopes s, hs]; rfl, ?_, ?_⟩
    · split <;> exact hnode
    · split <;> exact hbound

/-- The reference that is noted joins the accounts. -/
theorem accounts (h : Notes a reportUndefined r b b')
    (haccounts : Accounts a reportUndefined b refs)
    (ht : b.scopes.Nested) (hstart : r.start.index < b.scopes.size)
    (hnamed : ∃ n, r.parked.node = some n ∧ a.isKind (some n) .identifier = true) :
    Accounts a reportUndefined b' (r :: refs) := by
  have hfate := h.fate ht
  have hentry : ∀ fate : Fate, fate.noted? b'.analysis = fate.noted? b.analysis := by
    intro fate
    cases fate <;> simp [Fate.noted?, h.undefinedValue]
  refine ⟨?_, ?_, fun s scope' hs' => ?_, fun q hq hsome => ?_, fun space n x hn hx => ?_,
    fun v n hn => ?_, fun v n hn hown => ?_, ?_⟩
  · rintro q (_ | ⟨_, hq⟩)
    · exact h.lt_size hstart
    · exact h.lt_size (haccounts.placed q hq)
  · rintro q (_ | ⟨_, hq⟩)
    · exact hnamed
    · exact haccounts.named q hq
  · rw [h.scopes s] at hs'
    obtain ⟨scope, hs, rfl⟩ := Option.map_eq_some_iff.1 hs'
    have hparked := haccounts.parked s scope hs
    simp only [hfate, List.filter_cons, decide_eq_true_eq]
    split
    · next hwaits =>
      simp only [Scope.park, Array.toList_push, List.map_cons]
      exact (List.perm_append_singleton _ _).trans (hparked.cons _)
    · exact hparked
  · rw [hfate, hentry] at hsome
    rw [h.entries]
    rcases List.mem_cons.1 hq with rfl | hq
    · rw [if_pos ⟨rfl, rfl⟩, Option.isSome_or, hsome, Bool.true_or]
    · have hentered := haccounts.entered q hq hsome
      split
      · rw [Option.isSome_or, hentered, Bool.or_true]
      · exact hentered
  · rw [h.entries] at hx
    split at hx
    · next hhere =>
      cases hnew : (r.fate a b.scopes).noted? b.analysis with
      | some y =>
        rw [hnew, Option.some_or] at hx
        exact ⟨r, List.mem_cons_self, hhere.2.symm, hhere.1.symm, by rw [hfate, hentry, hnew, hx]⟩
      | none =>
        rw [hnew, Option.none_or] at hx
        obtain ⟨q, hq, hnode, hspace, hqx⟩ := haccounts.entries space n x hn hx
        exact ⟨q, List.mem_cons_of_mem _ hq, hnode, hspace, by rw [hfate, hentry, hqx]⟩
    · obtain ⟨q, hq, hnode, hspace, hqx⟩ := haccounts.entries space n x hn hx
      exact ⟨q, List.mem_cons_of_mem _ hq, hnode, hspace, by rw [hfate, hentry, hqx]⟩
  · simp only [hfate]
    rw [h.reads, List.count_append, haccounts.reads v n hn, List.countP_cons]
    by_cases hbound : r.fate a b.scopes = .bound (.inl v)
    · by_cases hnode : r.parked.node = some n <;> simp [hbound, hnode]
    · simp [hbound]
  · simp only [hfate]
    rw [h.writes, List.count_append, haccounts.writes v n hn fun hown' =>
      hown ((h.owns_iff n v).2 hown'),
      List.countP_cons]
    by_cases hbound : r.fate a b.scopes = .bound (.inl v)
    · cases hassigned : r.parked.assigned with
      | none => simp [hbound]
      | some m => by_cases hm : m = n <;> simp [hbound, hm]
    · simp [hbound]
  · simp only [hfate]
    rw [h.reports]
    have hreports := haccounts.reports
    cases reportUndefined with
    | false => simpa using hreports
    | true =>
      simp only [if_true, true_and, List.filter_cons, decide_eq_true_eq] at hreports ⊢
      split
      · exact (List.perm_append_singleton _ _).trans (hreports.cons _)
      · simpa using hreports

end Notes

end DocTypes
