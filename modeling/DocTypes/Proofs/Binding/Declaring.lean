import DocTypes.Proofs.Binding.Closing

/-!
# Declaring

Between two references the walk declares: it makes values, enters them at the nodes that
declare them, and binds and reserves names in scopes around the current one. `Declares` says
what such steps leave alone. It speaks of the scopes below a number `k`, which were opened
before: these bind no name that they did not bind or reserve.

Each lemma here is about one kind of step; what a node declares is put together from them.
-/

namespace DocTypes

namespace Binder

/-- Every compiled comment is that of the annotated node above its target. -/
def Annotated (a : Arena) (b : Binder) : Prop :=
  ∀ n doc, b.comments.get? (some n) = some doc → ∃ p, a.parent (some n) = some p ∧
    a.isKind (some p) .annotated = true ∧ a.child (some p) 1 = some n ∧
    doc = DocComment.silent a (a.child (some p) 0) (some n)

end Binder

/-- What a step may do that other steps may not. -/
structure Plan where
  /-- The type names that are bound although they were not reserved. -/
  late : Atom → Prop
  /-- The value names that are reserved. -/
  owed : Atom → Prop := fun _ => False
  /-- The names of `let` and `const` lists that get a variable. -/
  mine : Nat → Prop := fun _ => False

/-- A scope seen later, in which names may have been reserved and bound. -/
structure Scope.Declares (plan : Plan) (fixed : Prop) (s s' : Scope) : Prop where
  kind : s'.kind = s.kind
  node : s'.node = s.node
  outer : s'.outer = s.outer
  reserved : ∀ p ∈ s.reserved, p ∈ s'.reserved
  owed : ∀ name, (.value, name) ∈ s'.reserved → (.value, name) ∈ s.reserved ∨ plan.owed name
  grows : fixed → s.Grows plan.late s'

theorem Scope.Declares.refl {plan : Plan} {fixed : Prop} (s : Scope) :
    s.Declares plan fixed s := ⟨rfl, rfl, rfl, fun _ h => h, fun _ => .inl, fun _ => .refl s⟩

theorem Scope.Declares.trans {plan : Plan} {fixed : Prop} {s s' s'' : Scope}
    (h : s.Declares plan fixed s') (h' : s'.Declares plan fixed s'') : s.Declares plan fixed s'' :=
  ⟨h'.kind.trans h.kind, h'.node.trans h.node, h'.outer.trans h.outer,
    fun p hp => h'.reserved p (h.reserved p hp),
    fun name hname => (h'.owed name hname).elim (h.owed name) .inr,
    fun hfixed => (h.grows hfixed).trans (h'.grows hfixed)⟩

/-- A step that opens and closes no scope. The scopes below `k` are bound by what they
reserve. -/
structure Extends (a : Arena) (plan : Plan) (k : Nat) (b b' : Binder) : Prop where
  current : b'.current = b.current
  size : b'.scopes.size = b.scopes.size
  scopes : ∀ s scope, b.scopes.get? s = some scope →
    ∃ scope', b'.scopes.get? s = some scope' ∧ scope.Declares plan (s.index < k) scope'
  slots : ∀ v, (b.values.slot? v).isSome → (b'.values.slot? v).isSome
  valued : ∀ r, (b.analysis.valueOf? r).isSome → (b'.analysis.valueOf? r).isSome
  entered : ∀ n, a.isLexicalName n = true → (b'.analysis.valueOf? (some n)).isSome →
    (b.analysis.valueOf? (some n)).isSome ∨ plan.mine n
  annotated : b.Annotated a → b'.Annotated a
  sound : b.Sound → b'.Sound

namespace Extends

variable {a : Arena} {plan : Plan} {k : Nat} {b b' b'' : Binder}

theorem refl (b : Binder) : Extends a plan k b b where
  current := rfl
  size := rfl
  scopes _ scope h := ⟨scope, h, .refl scope⟩
  slots _ h := h
  valued _ h := h
  entered _ _ := .inl
  annotated := id
  sound := id

theorem trans (h : Extends a plan k b b') (h' : Extends a plan k b' b'') :
    Extends a plan k b b'' where
  current := h'.current.trans h.current
  size := h'.size.trans h.size
  scopes s scope hs := by
    obtain ⟨scope', hs', hdeclares⟩ := h.scopes s scope hs
    obtain ⟨scope'', hs'', hdeclares'⟩ := h'.scopes s scope' hs'
    exact ⟨scope'', hs'', hdeclares.trans hdeclares'⟩
  slots v hv := h'.slots v (h.slots v hv)
  valued r hr := h'.valued r (h.valued r hr)
  entered n hn hsome := (h'.entered n hn hsome).elim (h.entered n hn) .inr
  annotated hb := h'.annotated (h.annotated hb)
  sound hb := h'.sound (h.sound hb)

/-- A tree whose scopes are bound by what they reserve goes on growing. -/
theorem grows_of_le (h : Extends a plan k b b') {t : ScopeTree} (ht : t.size ≤ k)
    (hgrows : t.Grows plan.late b.scopes) : t.Grows plan.late b'.scopes := by
  intro s scope hs
  obtain ⟨scope', hs', hscope⟩ := hgrows s scope hs
  obtain ⟨scope'', hs'', hdeclares⟩ := h.scopes s scope' hs'
  exact ⟨scope'', hs'',
    hscope.trans (hdeclares.grows (Nat.lt_of_lt_of_le (ScopeTree.lt_size_of_get? hs) ht))⟩

/-- If every scope is bound by what it reserves, the scopes have only grown. -/
theorem grows (h : Extends a plan k b b') (hk : b.scopes.size ≤ k) :
    b.scopes.Grows plan.late b'.scopes := h.grows_of_le hk (.refl _)

theorem outer? (h : Extends a plan k b b') {s : ScopeId} (hs : s.index < b.scopes.size) :
    b'.scopes.outer? s = b.scopes.outer? s := by
  obtain ⟨scope, hscope⟩ := ScopeTree.exists_get?_of_lt hs
  obtain ⟨scope', hscope', hdeclares⟩ := h.scopes s scope hscope
  simp only [ScopeTree.outer?, hscope, hscope', Option.bind_some, hdeclares.outer]

end Extends

/-- A step that declares, and touches no reference. -/
structure Declares (a : Arena) (plan : Plan) (k : Nat) (b b' : Binder) : Prop
    extends Extends a plan k b b' where
  spares : Spares a b b'

namespace Declares

variable {a : Arena} {plan : Plan} {k : Nat} {b b' b'' : Binder}

theorem refl (b : Binder) : Declares a plan k b b := ⟨.refl b, .refl b⟩

theorem trans (h : Declares a plan k b b') (h' : Declares a plan k b' b'') :
    Declares a plan k b b'' :=
  ⟨h.toExtends.trans h'.toExtends, h.spares.trans h'.spares⟩

instance : Std.Refl (Declares a plan k) := ⟨refl⟩

instance : IsTrans Binder (Declares a plan k) := ⟨fun _ _ _ => trans⟩

instance : Anchored (Declares a plan k) := ⟨fun _ => refl _⟩

/-! ## Steps that leave scopes alone -/

/-- A step that leaves scopes alone declares, if it spares what is noted for identifiers. -/
theorem ofScopes (hcurrent : b'.current = b.current) (hcomments : b'.comments = b.comments)
    (hscopes : b'.scopes = b.scopes)
    (hentries : ∀ space n, a.isKind (some n) .identifier = true →
      b'.analysis.noted? space (some n) = b.analysis.noted? space (some n))
    (hreads : ∀ v n, a.isKind (some n) .identifier = true →
      (b'.values.readsOf v).count (some n) = (b.values.readsOf v).count (some n))
    (hwrites : ∀ v n, a.isAssigned n = true → ¬b'.Owns n v →
      (b'.values.writesOf v).count (some n) = (b.values.writesOf v).count (some n))
    (hreports : b'.analysis.diagnostics.toList.filter Diagnostic.isUnbound
      = b.analysis.diagnostics.toList.filter Diagnostic.isUnbound)
    (hundefined : b'.analysis.undefinedValue = b.analysis.undefinedValue)
    (hslots : ∀ v, (b.values.slot? v).isSome → (b'.values.slot? v).isSome)
    (hvalued : ∀ r, (b.analysis.valueOf? r).isSome → (b'.analysis.valueOf? r).isSome)
    (hentered : ∀ n, a.isLexicalName n = true → (b'.analysis.valueOf? (some n)).isSome →
      (b.analysis.valueOf? (some n)).isSome ∨ plan.mine n) : Declares a plan k b b' where
  spares :=
    { scopes := fun s scope hs => ⟨scope, by rw [hscopes]; exact hs, .refl scope⟩
      opens := fun s scope hnone hsome => by
        rw [hscopes, hnone] at hsome
        cases hsome
      entries := hentries
      reads := hreads
      writes := hwrites
      reports := hreports
      undefinedValue := hundefined }
  current := hcurrent
  size := by rw [hscopes]
  scopes s scope hs := ⟨scope, by rw [hscopes]; exact hs, .refl scope⟩
  slots := hslots
  valued := hvalued
  entered := hentered
  annotated hb := by
    unfold Binder.Annotated
    rw [hcomments]
    exact hb
  sound hb :=
    { nested := by rw [hscopes]; exact hb.nested
      current := by rw [hcurrent, hscopes]; exact hb.current
      opened := by rw [hcurrent, hscopes]; exact hb.opened
      slots := fun s scope name v hs hv => hslots v (hb.slots s scope name v (hscopes ▸ hs) hv)
      owner := by rw [hscopes]; exact hb.owner }

/-- A node that is not an identifier gets a value. A name of a `let` or `const` list gets it if
the plan says so. -/
theorem setValue {node : NodeRef} (hnode : a.isKind node .identifier = false)
    (hmine : ∀ n, node = some n → a.isLexicalName n = true → plan.mine n) (v : ValueId) :
    Declares a plan k b (Bind.onAnalysis (Analysis.setValue node v) b).2 := by
  have hget : ∀ r, (b.analysis.valueTable.insert node v).get? r =
      if node = r then some v else b.analysis.valueOf? r := fun r => NodeTable.get?_insert _ _ _ _
  refine ofScopes rfl rfl rfl ?_ (fun _ _ _ => rfl) (fun _ _ _ _ => rfl) rfl rfl
    (fun _ h => h) ?_ ?_
  · intro space n hn
    have hne : node ≠ some n := by
      rintro rfl
      rw [hn] at hnode
      cases hnode
    cases space with
    | type => rfl
    | value =>
      show ((b.analysis.valueTable.insert node v).get? (some n)).map Sum.inl = _
      rw [hget, if_neg hne]
      rfl
  · intro r hr
    show ((b.analysis.valueTable.insert node v).get? r).isSome
    rw [hget]
    split
    · rfl
    · exact hr
  · intro n hn hsome
    by_cases heq : node = some n
    · exact .inr (hmine n heq hn)
    · have hsame := hget (some n)
      rw [if_neg heq] at hsame
      exact .inl ((congrArg Option.isSome hsame).symm.trans hsome)

/-- The name of a type parameter gets a type. -/
theorem setType {m : Nat} (hm : a.isKind (some m) .jsDocName = true) (t : TypeId) :
    Declares a plan k b (Bind.onAnalysis (Analysis.setType (some m) t) b).2 := by
  refine ofScopes rfl rfl rfl ?_ (fun _ _ _ => rfl) (fun _ _ _ _ => rfl) rfl rfl (fun _ h => h)
    (fun _ h => h) fun _ _ => .inl
  intro space n hn
  have hne : some m ≠ some n := by
    rintro ⟨⟩
    rw [Arena.isKind, Arena.isKind_iff.1 hm] at hn
    cases hn
  cases space with
  | value => rfl
  | type =>
    show ((b.analysis.typeTable.insert (some m) t).get? (some n)).map Sum.inr = _
    rw [NodeTable.get?_insert, if_neg hne]
    rfl

/-- Types are made. -/
theorem onTypes {α : Type} (f : TypeStore → α × TypeStore) :
    Declares a plan k b (Bind.onAnalysis (Analysis.onTypes f) b).2 :=
  ofScopes rfl rfl rfl (fun _ _ _ => rfl) (fun _ _ _ => rfl) (fun _ _ _ _ => rfl) rfl rfl
    (fun _ h => h) (fun _ h => h) fun _ _ => .inl

/-- Values are made. -/
theorem onValues {α : Type} {f : ValueStore → α × ValueStore}
    (hslots : b.values.SameSlots (f b.values).2) :
    Declares a plan k b (Bind.onAnalysis (Analysis.onValues f) b).2 := by
  refine ofScopes rfl rfl rfl (fun _ _ _ => rfl) (fun v n _ => ?_) (fun v n _ _ => ?_) rfl rfl
    (fun v hv => ?_) (fun _ h => h) fun _ _ => .inl
  · exact congrArg (List.count (some n)) (hslots.readsOf v)
  · exact congrArg (List.count (some n)) (hslots.writesOf v)
  · exact (congrArg Option.isSome (hslots.kept v hv)).trans hv

/-- A node that is no identifier reads a slot. -/
theorem addRead {node : NodeRef} (hnode : a.isKind node .identifier = false) (v : ValueId) :
    Declares a plan k b (Bind.onAnalysis (Analysis.modifyValues (·.addRead v node)) b).2 := by
  refine ofScopes rfl rfl rfl (fun _ _ _ => rfl) (fun w n hn => ?_) (fun w n _ _ => ?_) rfl rfl
    (fun w hw => ?_) (fun _ h => h) fun _ _ => .inl
  · show ((b.values.addRead v node).readsOf w).count (some n) = _
    have hne : node ≠ some n := by
      rintro rfl
      rw [hn] at hnode
      cases hnode
    by_cases hslot : (b.values.slot? v).isSome
    · rw [ValueStore.readsOf_addRead hslot]
      split
      · rw [List.count_append, List.count_singleton]
        simp [hne]
      · rfl
    · rw [ValueStore.readsOf_addRead_of_none (by simpa using hslot)]
  · exact congrArg (List.count (some n)) (ValueStore.writesOf_addRead _ _ _ _)
  · exact (ValueStore.isSome_slot?_mapSlot _ _ _ _).trans hw

/-- A node is written to a slot. If it is assigned to a plain name, the slot is its own. -/
theorem addWrite {node : NodeRef} {v : ValueId}
    (h : ∀ n, node = some n → a.isAssigned n = true → b.Owns n v) :
    Declares a plan k b (Bind.onAnalysis (Analysis.modifyValues (·.addWrite v node)) b).2 := by
  refine ofScopes rfl rfl rfl (fun _ _ _ => rfl) (fun w n _ => ?_) (fun w n hn hown => ?_) rfl rfl
    (fun w hw => ?_) (fun _ h => h) fun _ _ => .inl
  · exact congrArg (List.count (some n)) (ValueStore.readsOf_addWrite _ _ _ _)
  · show ((b.values.addWrite v node).writesOf w).count (some n) = _
    by_cases hslot : (b.values.slot? v).isSome
    · rw [ValueStore.writesOf_addWrite hslot]
      split
      · next hv =>
        have hne : node ≠ some n := by
          rintro rfl
          exact hown (hv ▸ h n rfl hn)
        rw [List.count_append, List.count_singleton]
        simp [hne]
      · rfl
    · rw [ValueStore.writesOf_addWrite_of_none (by simpa using hslot)]
  · exact (ValueStore.isSome_slot?_mapSlot _ _ _ _).trans hw

/-- A problem is reported that is not that of a reference. -/
theorem report {d : Diagnostic} (h : d.isUnbound = false) :
    Declares a plan k b (Bind.onAnalysis (Analysis.report d) b).2 := by
  refine ofScopes rfl rfl rfl (fun _ _ _ => rfl) (fun _ _ _ => rfl) (fun _ _ _ _ => rfl) ?_ rfl
    (fun _ h => h) (fun _ h => h) fun _ _ => .inl
  show (b.analysis.diagnostics.push d).toList.filter Diagnostic.isUnbound = _
  rw [Array.toList_push, List.filter_append, List.filter_singleton, h]
  simp

/-! ## Steps on scopes -/

/-- A change of one scope around the current one declares, if what it binds anew is a slot that
is bound nowhere else. -/
theorem updateScope (hb : b.Sound) {id : ScopeId} (hid : id ∈ b.scopes.chain b.current)
    {f : Scope → Scope}
    (hstill : ∀ scope, (f scope).node = scope.node ∧ (f scope).outer = scope.outer ∧
      (f scope).state = scope.state ∧ (f scope).parked = scope.parked)
    (hbinds : ∀ scope space name x, scope.target? space name = some x →
      (f scope).target? space name = some x)
    (hdeclares : ∀ scope, b.scopes.get? id = some scope →
      scope.Declares plan (id.index < k) (f scope))
    (hfresh : ∀ scope name v, (f scope).target? .value name = some (.inl v) →
      scope.target? .value name = some (.inl v) ∨ ((b.values.slot? v).isSome ∧
        ∀ s other otherName, b.scopes.get? s = some other →
          other.target? .value otherName ≠ some (.inl v))) :
    Declares a plan k b (Binder.updateScope id f b).2 := by
  let t := b.scopes.update id f
  have hget : ∀ s, t.get? s = (b.scopes.get? s).map fun scope => if id = s then f scope
      else scope := by
    intro s
    show (b.scopes.update id f).get? s = _
    rw [ScopeTree.get?_update]
    by_cases hs : id = s
    · simp [hs]
    · simp [hs]
  have houter : ∀ s, t.outer? s = b.scopes.outer? s := by
    intro s
    unfold ScopeTree.outer?
    rw [hget s]
    cases b.scopes.get? s with
    | none => rfl
    | some scope =>
      simp only [Option.map_some, Option.bind_some]
      split
      · exact (hstill scope).2.1
      · rfl
  have hnested : t.Nested := fun s o ho => hb.nested s o (houter s ▸ ho)
  have hchain : t.chain b.current = b.scopes.chain b.current :=
    ScopeTree.chain_congr hb.nested hnested fun s _ => houter s
  have hspares : Spares a b (Binder.updateScope id f b).2 := by
    refine
      { scopes := fun s scope hs => ?_
        opens := fun s scope hnone hsome => ?_
        entries := fun _ _ _ => rfl
        reads := fun _ _ _ => rfl
        writes := fun _ _ _ _ => rfl
        reports := rfl
        undefinedValue := rfl }
    · refine ⟨_, (hget s).trans (by rw [hs]; rfl), ?_⟩
      split
      · next heq =>
        subst heq
        have hopen := (hb.opened id scope hs).2 hid
        obtain ⟨hnode, hout, hstate, hparked⟩ := hstill scope
        exact ⟨hnode, hout, by rw [hstate], hparked, hbinds scope,
          fun hclosed => absurd hopen hclosed⟩
      · exact .refl scope
    · have hsome' := (hget s).symm.trans hsome
      rw [hnone] at hsome'
      cases hsome'
  refine
    { spares := hspares
      current := rfl
      size := ?_
      scopes := fun s scope hs => ?_
      slots := fun _ h => h
      valued := fun _ h => h
      entered := fun _ _ => .inl
      annotated := fun h => h
      sound := fun _ => ⟨hnested, ?_, fun s scope hs => ?_, fun s scope name v hs hv => ?_,
        fun s s' scope scope' name name' v hs hs' hv hv' => ?_⟩ }
  · exact b.scopes.size_update id f
  · refine ⟨_, (hget s).trans (by rw [hs]; rfl), ?_⟩
    split
    · next heq =>
      subst heq
      exact hdeclares scope hs
    · exact .refl scope
  · show b.current.index < (b.scopes.update id f).size
    rw [b.scopes.size_update]
    exact hb.current
  · have hs' := (hget s).symm.trans hs
    obtain ⟨old, hold, rfl⟩ := Option.map_eq_some_iff.1 hs'
    show _ ↔ s ∈ t.chain b.current
    rw [hchain, ← hb.opened s old hold]
    split
    · rw [(hstill old).2.2.1]
    · rfl
  · have hs' := (hget s).symm.trans hs
    obtain ⟨old, hold, rfl⟩ := Option.map_eq_some_iff.1 hs'
    split at hv
    · rcases hfresh old name v hv with hv | ⟨hslot, -⟩
      · exact hb.slots s old name v hold hv
      · exact hslot
    · exact hb.slots s old name v hold hv
  · have hs₁ := (hget s).symm.trans hs
    obtain ⟨old, hold, rfl⟩ := Option.map_eq_some_iff.1 hs₁
    have hs₂ := (hget s').symm.trans hs'
    obtain ⟨old', hold', rfl⟩ := Option.map_eq_some_iff.1 hs₂
    -- A variable that is bound anew is bound in this scope alone.
    have hcases : ∀ (r : ScopeId) (was : Scope) (n : Atom), b.scopes.get? r = some was →
        (if id = r then f was else was).target? .value n = some (.inl v) →
        was.target? .value n = some (.inl v) ∨ (r = id ∧ ∀ s other otherName,
          b.scopes.get? s = some other → other.target? .value otherName ≠ some (.inl v)) := by
      intro r was n _ hn
      split at hn
      · next hr => exact (hfresh was n v hn).imp_right fun h => ⟨hr.symm, h.2⟩
      · exact .inl hn
    rcases hcases s old name hold hv with hv | ⟨hs, hnew⟩
    · rcases hcases s' old' name' hold' hv' with hv' | ⟨-, hnew⟩
      · exact hb.owner s s' old old' name name' v hold hold' hv hv'
      · exact absurd hv (hnew s old name hold)
    · rcases hcases s' old' name' hold' hv' with hv' | ⟨hs', -⟩
      · exact absurd hv' (hnew s' old' name' hold')
      · exact hs.trans hs'.symm

/-- A name is reserved in a scope that has just opened. -/
theorem reserve (hb : b.Sound) {id : ScopeId} (hid : id ∈ b.scopes.chain b.current)
    (hk : k ≤ id.index) (space : Namespace) (name : Atom)
    (howed : space = .value → plan.owed name) :
    Declares a plan k b (Binder.updateScope id (Scope.reserve space name) b).2 := by
  refine updateScope hb hid (fun scope => ?_) (fun scope other otherName x hx => ?_)
    (fun scope hs => ⟨?_, ?_, ?_, fun p hp => Scope.mem_reserved_reserve.2 (.inl hp),
      fun other hother => ?_, fun h => ?_⟩)
    fun scope otherName v hv => ?_
  · unfold Scope.reserve
    split <;> exact ⟨rfl, rfl, rfl, rfl⟩
  · rwa [Scope.target?_reserve]
  iterate 3
    · unfold Scope.reserve
      split <;> rfl
  · rcases Scope.mem_reserved_reserve.1 hother with hother | hother
    · exact .inl hother
    · cases hother
      exact .inr (howed rfl)
  · omega
  · rw [Scope.target?_reserve] at hv
    exact .inl hv

/-- A name that the scope takes is bound to a variable that is bound nowhere yet. -/
theorem insertVariable (hb : b.Sound) {id : ScopeId} (hid : id ∈ b.scopes.chain b.current)
    {name : Atom} {binding : Binding ValueId} (hslot : (b.values.slot? binding.target).isSome)
    (hnew : ∀ s other otherName, b.scopes.get? s = some other →
      other.target? .value otherName ≠ some (.inl binding.target))
    (htakes : id.index < k → ∀ scope, b.scopes.get? id = some scope →
      scope.takes .value name = true) :
    Declares a plan k b (Binder.updateScope id (Scope.insertVariable name binding) b).2 := by
  have hbinds : ∀ (scope : Scope) (space : Namespace) (other : Atom) (x : Target),
      scope.target? space other = some x →
      (scope.insertVariable name binding).target? space other = some x := by
    intro scope space other x hx
    rw [Scope.target?_insertVariable]
    split
    · next heq =>
      rw [heq.1, heq.2] at hx
      rw [hx, Option.some_or]
    · exact hx
  refine updateScope hb hid (fun _ => ⟨rfl, rfl, rfl, rfl⟩) hbinds
    (fun scope hscope => ⟨rfl, rfl, rfl, fun _ hp => hp, fun _ => .inl, fun hk => ?_⟩)
    fun scope other w hw => ?_
  · refine ⟨rfl, rfl, rfl, rfl, hbinds scope, fun space other hsome => .inl ?_⟩
    rw [Scope.target?_insertVariable] at hsome
    split at hsome
    · next heq =>
      rw [heq.1, heq.2]
      exact htakes hk scope hscope
    · rw [Scope.takes, hsome, Bool.true_or]
  · rw [Scope.target?_insertVariable] at hw
    split at hw
    · next heq =>
      cases hwas : scope.target? .value name with
      | some x =>
        rw [hwas, Option.some_or] at hw
        exact .inl (by rw [heq.2, hwas, hw])
      | none =>
        rw [hwas, Option.none_or] at hw
        cases hw
        exact .inr ⟨hslot, hnew⟩
    · exact .inl hw

/-- A type name that the scope takes, or that is late, is bound. -/
theorem insertType (hb : b.Sound) {id : ScopeId} (hid : id ∈ b.scopes.chain b.current)
    {name : Atom} {binding : Binding TypeId}
    (htakes : id.index < k → ∀ scope, b.scopes.get? id = some scope →
      scope.takes .type name = true ∨ plan.late name) :
    Declares a plan k b (Binder.updateScope id (Scope.insertType name binding) b).2 := by
  have hbinds : ∀ (scope : Scope) (space : Namespace) (other : Atom) (x : Target),
      scope.target? space other = some x →
      (scope.insertType name binding).target? space other = some x := by
    intro scope space other x hx
    rw [Scope.target?_insertType]
    split
    · next heq =>
      rw [heq.1, heq.2] at hx
      rw [hx, Option.some_or]
    · exact hx
  refine updateScope hb hid (fun _ => ⟨rfl, rfl, rfl, rfl⟩) hbinds
    (fun scope hscope => ⟨rfl, rfl, rfl, fun _ hp => hp, fun _ => .inl, fun hk => ?_⟩)
    fun scope other w hw => ?_
  · refine ⟨rfl, rfl, rfl, rfl, hbinds scope, fun space other hsome => ?_⟩
    rw [Scope.target?_insertType] at hsome
    split at hsome
    · next heq =>
      rw [heq.1, heq.2]
      exact (htakes hk scope hscope).imp_right fun hlate => ⟨rfl, hlate⟩
    · exact .inl (by rw [Scope.takes, hsome, Bool.true_or])
  · rw [Scope.target?_insertType, if_neg (by simp)] at hw
    exact .inl hw

/-! ## Names -/

/-- A variable is bound to a name: it is entered at the node, and the scope binds the name to
it. -/
theorem declareVariable (hb : b.Sound) {id : ScopeId} (hid : id ∈ b.scopes.chain b.current)
    {binding : NodeRef} (hkind : ∀ n, binding = some n → a.kind? (some n) = some .bindingName)
    (hmine : ∀ n, binding = some n → a.isLexicalName n = true → plan.mine n)
    (htakes : id.index < k → ∀ scope, b.scopes.get? id = some scope →
      scope.takes .value (a.atom binding) = true) :
    let run := Binder.declareVariable a id binding b
    Declares a plan k b run.2 ∧ run.2.analysis.valueOf? binding = some run.1 ∧
      ∃ scope, run.2.scopes.get? id = some scope ∧
        scope.target? .value (a.atom binding) = some (.inl run.1) := by
  obtain ⟨scope, hscope⟩ := ScopeTree.exists_get?_of_lt (hb.lt_size hid)
  have hentered : ∀ (table : NodeTable ValueId) (v : ValueId),
      (table.insert binding v).get? binding = some v := fun table v => by
    rw [NodeTable.get?_insert, if_pos rfl]
  have hset : ∀ (b₁ : Binder) (v : ValueId),
      Declares a plan k b₁ (Bind.onAnalysis (Analysis.setValue binding v) b₁).2 := by
    refine fun b₁ v => setValue ?_ hmine v
    cases binding with
    | none => rfl
    | some n =>
      rw [Arena.isKind, hkind n rfl]
      rfl
  unfold Binder.declareVariable
  rw [run_bind, run_get]
  cases hbound : (b.scopes.get? id).bind (·.boundVariable? (a.atom binding)) with
  | some existing =>
    have htarget : scope.target? .value (a.atom binding) = some (.inl existing.target) := by
      rw [hscope, Option.bind_some] at hbound
      rw [Scope.target?, hbound, Option.map_some]
    exact ⟨(report (b := b) rfl).trans (hset _ existing.target), hentered _ _, scope,
      hscope, htarget⟩
  | none =>
    have hunbound : scope.target? .value (a.atom binding) = none := by
      rw [hscope, Option.bind_some] at hbound
      rw [Scope.target?, hbound, Option.map_none]
    let v := (b.values.newVariable binding (a.atom binding)).1
    let made := (Bind.onAnalysis (Analysis.onValues (·.newVariable binding (a.atom binding))) b).2
    have hmade : Declares a plan k b made :=
      onValues (.alloc _ fun slot hslot => by cases hslot; rfl)
    have hslot : (made.values.slot? v).isSome :=
      congrArg Option.isSome (b.values.slot?_newVariable binding (a.atom binding))
    have hnew : ∀ s other name, made.scopes.get? s = some other →
        other.target? .value name ≠ some (.inl v) := by
      intro s other name hs hv
      have hold := hb.slots s other name v hs hv
      have hfree : b.values.slot? v = none := ValueStore.slot?_fst_alloc _ _
      rw [hfree] at hold
      cases hold
    have hbinds : Declares a plan k made
        (Binder.updateScope id (Scope.insertVariable (a.atom binding) ⟨v, binding⟩) made).2 :=
      insertVariable (hmade.sound hb) hid hslot hnew htakes
    refine ⟨hmade.trans (hbinds.trans (hset _ v)), hentered _ _,
      scope.insertVariable (a.atom binding) ⟨v, binding⟩, ?_, ?_⟩
    · show (b.scopes.update id _).get? id = _
      rw [ScopeTree.get?_update, if_pos rfl, hscope]
      rfl
    · rw [Scope.target?_insertVariable, if_pos ⟨rfl, rfl⟩, hunbound, Option.none_or]
      rfl

/-- A type name is bound. -/
theorem declareType (hb : b.Sound) {id : ScopeId} (hid : id ∈ b.scopes.chain b.current)
    {nameNode : NodeRef} (t : TypeId)
    (htakes : id.index < k → ∀ scope, b.scopes.get? id = some scope →
      scope.takes .type (a.atom nameNode) = true ∨ plan.late (a.atom nameNode)) :
    Declares a plan k b (Binder.declareType a id nameNode t b).2 := by
  unfold Binder.declareType
  rw [run_bind, run_get]
  cases (b.scopes.get? id).bind (·.boundType? (a.atom nameNode)) with
  | some existing => exact report (b := b) rfl
  | none => exact insertType hb hid htakes

/-! ## Classes -/

/-- A class is made at a node that is no name. -/
theorem declareClass (site : NodeRef) (hsite : a.isKind site .identifier = false)
    (hname : a.isKind site .bindingName = false) (name : String) (doc : Option DocComment)
    (heritage reportNode : NodeRef) :
    Declares a plan k b (Binder.declareClass a site name doc heritage reportNode b).2 := by
  have hlexical : ∀ n, site = some n → a.isLexicalName n = true → plan.mine n := by
    rintro n rfl hn
    rw [Arena.isLexicalName, hname] at hn
    cases hn
  have hclasses : ∀ (b₁ : Binder) (classes : List ClassDecl),
      Declares a plan k b₁ { b₁ with analysis := { b₁.analysis with classes } } := fun _ _ =>
    ofScopes rfl rfl rfl (fun _ _ _ => rfl) (fun _ _ _ => rfl) (fun _ _ _ _ => rfl) rfl rfl
      (fun _ h => h) (fun _ h => h) fun _ _ => .inl
  let made := (Bind.onAnalysis (Analysis.onValues (·.newClass site (Binder.classKind doc) name
    (((doc.map (·.typeParameters)).getD []).filterMap fun n => b.analysis.typeOf? (some n)))) b)
  let entered := (Bind.onAnalysis (Analysis.setValue site made.1) made.2).2
  have hmade : Declares a plan k b made.2 := onValues (.newClass _ _ _ _ _)
  have hentered : Declares a plan k made.2 entered := setValue hsite hlexical made.1
  exact (hmade.trans hentered).trans (hclasses entered _)

/-- The type of the instances of a class. -/
theorem instanceOf (cls : ValueId) : Declares a plan k b (Binder.instanceOf cls b).2 := onTypes _

/-- The type of a `@typedef` or `@enum` name. -/
theorem aliasFor (doc : DocComment) (name : Atom) :
    Declares a plan k b (Binder.aliasFor doc name b).2 := onTypes _

/-- A name is given to a type. -/
theorem nameType (v : ValueId) (t : TypeId) :
    Declares a plan k b (Bind.onAnalysis (Analysis.nameType v t) b).2 :=
  ofScopes rfl rfl rfl (fun _ _ _ => rfl) (fun _ _ _ => rfl) (fun _ _ _ _ => rfl) rfl rfl
    (fun _ h => h) (fun _ h => h) fun _ _ => .inl

end Declares

end DocTypes
