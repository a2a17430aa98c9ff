import DocTypes.Proofs.Binding.Covering

/-!
# Keeping track of references

`Tracked` is what the walk keeps: the state accounts for the references that were met, the scopes
hang together, each reference remembers a tree of which every scope has only grown since, and a
scope that is closed has bound every value name that it reserved.

A step inside a scope meets references and declares (`Meets`). Besides that, scopes are opened
and closed.

## Main statements

* `Meets.trans`, `Meets.ofDeclares`, `Meets.ofNotes`: steps inside a scope.
* `Tracked.enterScope`, `Tracked.exitScope`: scopes that open and close.
-/

namespace DocTypes

open Binder

/-- A tree that has grown has lost no scope. -/
theorem ScopeTree.Grows.size_le {late : Atom → Prop} {t t' : ScopeTree} (h : t.Grows late t') :
    t.size ≤ t'.size := by
  apply Nat.le_of_not_lt
  intro hlt
  exact Nat.lt_irrefl _ (h.lt_size (s := ⟨t'.size⟩) hlt)

/-- A reference that was met in a tree of which every scope has only grown since, in no scope
that the value assigned through it has opened. -/
structure Reference.Remembered (late : Atom → Prop) (t : ScopeTree) (r : Reference) : Prop where
  nested : r.seen.Nested
  scope : r.scope.index < r.seen.size
  grows : r.seen.Grows late t
  foreign : ∀ m, r.parked.assigned = some m → ∀ s ∈ r.seen.chain r.scope, ∀ scope,
    r.seen.get? s = some scope → scope.node ≠ some m

/-- What the walk keeps. -/
structure Tracked (a : Arena) (reportUndefined : Bool) (late : Atom → Prop) (b : Binder)
    (refs : List Reference) : Prop where
  accounts : Accounts a reportUndefined b refs
  sound : b.Sound
  annotated : b.Annotated a
  remembered : ∀ r ∈ refs, r.Remembered late b.scopes
  settled : ∀ s scope, b.scopes.get? s = some scope → scope.state ≠ .opened →
    ∀ name, (.value, name) ∈ scope.reserved → (scope.target? .value name).isSome

variable {a : Arena} {reportUndefined : Bool} {plan : Plan} {k : Nat} {b b' b'' : Binder}
  {r : Reference} {refs : List Reference}

/-! ## Steps inside a scope -/

/-- A step that declares keeps what is tracked, if no reference was met in the scopes that it
may reserve names in, and these are open. -/
theorem Tracked.declared (plan : Plan) (h : Tracked a reportUndefined plan.late b refs)
    (hstep : Declares a plan k b b') (hseen : ∀ r ∈ refs, r.seen.size ≤ k)
    (hopen : ∀ s scope, b.scopes.get? s = some scope → k ≤ s.index → scope.state = .opened) :
    Tracked a reportUndefined plan.late b' refs := by
  have hsound := hstep.sound h.sound
  refine ⟨h.accounts.spared hstep.spares h.sound.nested hsound.nested, hsound,
    hstep.annotated h.annotated, fun r hr => ?_, fun s scope' hs' hclosed name hname => ?_⟩
  · have hr' := h.remembered r hr
    exact ⟨hr'.nested, hr'.scope, hstep.grows_of_le (hseen r hr) hr'.grows, hr'.foreign⟩
  · have hlt : s.index < b.scopes.size := hstep.size ▸ ScopeTree.lt_size_of_get? hs'
    obtain ⟨scope, hs⟩ := ScopeTree.exists_get?_of_lt hlt
    obtain ⟨still, hstill, hsame⟩ := hstep.spares.scopes s scope hs
    obtain ⟨grown, hgrown, hdeclares⟩ := hstep.scopes s scope hs
    cases hs'.symm.trans hstill
    cases hs'.symm.trans hgrown
    have hwas : scope.state ≠ .opened := fun hstate => hclosed (hsame.state.2 hstate)
    have hk : s.index < k := by
      apply Nat.lt_of_not_le
      intro hle
      exact hwas (hopen s scope hs hle)
    have hgrows := hdeclares.grows hk
    rw [hgrows.reserved] at hname
    obtain ⟨x, hx⟩ := Option.isSome_iff_exists.1 (h.settled s scope hs hwas name hname)
    rw [hgrows.binds _ _ x hx]
    rfl

namespace Notes

theorem get?_eq (h : Notes a reportUndefined r b b') {s : ScopeId} {scope : Scope}
    (hs : b.scopes.get? s = some scope) : ∃ scope', b'.scopes.get? s = some scope' ∧
      scope'.unparked = scope.unparked := by
  refine ⟨_, (h.scopes s).trans (by rw [hs, Option.map_some]), ?_⟩
  split <;> rfl

theorem size (h : Notes a reportUndefined r b b') : b'.scopes.size = b.scopes.size := by
  have hle {i : Nat} : i < b'.scopes.size ↔ i < b.scopes.size := by
    constructor
    · intro hi
      obtain ⟨scope', hs'⟩ := ScopeTree.exists_get?_of_lt (s := ⟨i⟩) hi
      rw [h.scopes] at hs'
      obtain ⟨scope, hs, -⟩ := Option.map_eq_some_iff.1 hs'
      exact ScopeTree.lt_size_of_get? hs
    · exact fun hi => h.lt_size (s := ⟨i⟩) hi
  apply Nat.le_antisymm
  · apply Nat.le_of_not_lt
    exact fun hlt => Nat.lt_irrefl _ (hle.1 hlt)
  · apply Nat.le_of_not_lt
    exact fun hlt => Nat.lt_irrefl _ (hle.2 hlt)

end Notes

/-- Nothing but the parked references tells two scopes apart. -/
theorem Scope.grows_of_unparked {late : Atom → Prop} {s s' : Scope} (h : s'.unparked = s.unparked) :
    s.Grows late s' ∧ s'.state = s.state := by
  obtain ⟨kind, node, outer, state, vars, types, reserved, parked⟩ := s
  obtain ⟨kind', node', outer', state', vars', types', reserved', parked'⟩ := s'
  cases h
  have hrefl : Scope.Grows late { kind, node, outer, state, vars, types, reserved, parked }
      { kind, node, outer, state, vars, types, reserved, parked } := .refl _
  exact ⟨⟨rfl, rfl, rfl, rfl, hrefl.binds, hrefl.fresh⟩, rfl⟩

namespace Notes

theorem grows (h : Notes a reportUndefined r b b') (late : Atom → Prop) :
    b.scopes.Grows late b'.scopes := by
  intro s scope hs
  obtain ⟨scope', hs', hsame⟩ := h.get?_eq hs
  exact ⟨scope', hs', (Scope.grows_of_unparked hsame).1⟩

theorem sound (h : Notes a reportUndefined r b b') (hb : b.Sound) : b'.Sound := by
  have hnested := h.nested hb.nested
  have hchain : b'.scopes.chain b'.current = b.scopes.chain b.current := by
    rw [h.current]
    exact ScopeTree.chain_congr hb.nested hnested fun id _ => h.outer? id
  have hget {s : ScopeId} {scope' : Scope} (hs' : b'.scopes.get? s = some scope') :
      ∃ scope, b.scopes.get? s = some scope ∧ scope'.state = scope.state ∧
        scope'.target? = scope.target? := by
    rw [h.scopes] at hs'
    obtain ⟨scope, hs, rfl⟩ := Option.map_eq_some_iff.1 hs'
    refine ⟨scope, hs, ?_, ?_⟩ <;> split <;> rfl
  refine ⟨hnested, ?_, fun s scope' hs' => ?_, fun s scope' name v hs' hv => ?_,
    fun s₁ s₂ scope₁ scope₂ name₁ name₂ v hs₁ hs₂ hv₁ hv₂ => ?_⟩
  · rw [h.current, h.size]
    exact hb.current
  · obtain ⟨scope, hs, hstate, -⟩ := hget hs'
    rw [hstate, hchain]
    exact hb.opened s scope hs
  · obtain ⟨scope, hs, -, htarget⟩ := hget hs'
    exact h.slots v (hb.slots s scope name v hs (htarget ▸ hv))
  · obtain ⟨was₁, hwas₁, -, htarget₁⟩ := hget hs₁
    obtain ⟨was₂, hwas₂, -, htarget₂⟩ := hget hs₂
    exact hb.owner s₁ s₂ was₁ was₂ name₁ name₂ v hwas₁ hwas₂ (htarget₁ ▸ hv₁) (htarget₂ ▸ hv₂)

/-- Noting a reference opens and closes no scope. -/
theorem extending (h : Notes a reportUndefined r b b')
    (hnamed : ∃ n, r.parked.node = some n ∧ a.isKind (some n) .identifier = true) :
    Extends a plan k b b' where
  current := h.current
  size := h.size
  scopes s scope hs := by
    obtain ⟨scope', hs', hsame⟩ := h.get?_eq hs
    have hgrows : scope.Grows plan.late scope' := (Scope.grows_of_unparked hsame).1
    refine ⟨scope', hs', hgrows.kind, hgrows.node, hgrows.outer, fun p hp =>
      ?_, fun name hname => ?_,
      fun _ => hgrows⟩
    · rw [hgrows.reserved]
      exact hp
    · rw [hgrows.reserved] at hname
      exact .inl hname
  slots := h.slots
  valued _ := h.valued
  entered n hn hsome := by
    have hother : a.isKind (some n) .identifier = false := by
      rw [Arena.isLexicalName, Bool.and_eq_true, Bool.and_eq_true] at hn
      rw [Arena.isKind, Arena.isKind_iff.1 hn.1.1]
      rfl
    exact .inl (h.others hnamed hother ▸ hsome)
  annotated hb := by
    unfold Annotated
    rw [h.comments]
    exact hb
  sound := h.sound

end Notes

/-- The first scope that a reference waits in is around the current one. -/
theorem Binder.Sound.start_mem (hb : b.Sound) (p : Parked) :
    (b.meet p).start ∈ b.scopes.chain b.current := by
  unfold Reference.start
  cases htaker : (b.meet p).taker? with
  | none => exact ScopeTree.mem_chain_self hb.nested _
  | some id => exact (ScopeTree.mem_chain_of_taker? htaker).1

/-- A reference that is noted is tracked from then on. -/
theorem Tracked.noted {late : Atom → Prop} {p : Parked}
    (h : Tracked a reportUndefined late b refs) (hnotes : Notes a reportUndefined (b.meet p) b b')
    (hnamed : ∃ n, p.node = some n ∧ a.isKind (some n) .identifier = true)
    (hforeign : ∀ m, p.assigned = some m → ∀ s ∈ b.scopes.chain b.current, ∀ scope,
      b.scopes.get? s = some scope → scope.node ≠ some m) :
    Tracked a reportUndefined late b' (b.meet p :: refs) := by
  have hgrows := hnotes.grows late
  have hstart := h.sound.lt_size (h.sound.start_mem p)
  refine ⟨hnotes.accounts h.accounts h.sound.nested hstart hnamed, hnotes.sound h.sound, ?_,
    fun r hr => ?_, fun s scope' hs' hclosed name hname => ?_⟩
  · unfold Annotated
    rw [hnotes.comments]
    exact h.annotated
  · rcases List.mem_cons.1 hr with rfl | hr
    · exact ⟨h.sound.nested, h.sound.current, hgrows, hforeign⟩
    · have hr' := h.remembered r hr
      exact ⟨hr'.nested, hr'.scope, hr'.grows.trans hgrows, hr'.foreign⟩
  · rw [hnotes.scopes] at hs'
    obtain ⟨scope, hs, rfl⟩ := Option.map_eq_some_iff.1 hs'
    split at hclosed
    · next hwaits =>
      rw [if_pos hwaits] at hname ⊢
      exact h.settled s scope hs hclosed name hname
    · next hwaits =>
      rw [if_neg hwaits] at hname ⊢
      exact h.settled s scope hs hclosed name hname

/-- What a reference is called and where it was met. -/
def Reference.place (r : Reference) : Parked × ScopeId := (r.parked, r.scope)

/-- A step inside a scope that meets certain references and declares. -/
structure Meets (a : Arena) (reportUndefined : Bool) (plan : Plan) (mentions : List Parked)
    (b b' : Binder) : Prop extends Extends a plan b.scopes.size b b' where
  tracks : ∀ refs, Tracked a reportUndefined plan.late b refs → ∃ met,
    Tracked a reportUndefined plan.late b' (met ++ refs) ∧
      (met.map Reference.place).Perm (mentions.map (·, b.current))

namespace Meets

variable {mentions mentions' : List Parked}

theorem trans (h : Meets a reportUndefined plan mentions b b')
    (h' : Meets a reportUndefined plan mentions' b' b'') :
    Meets a reportUndefined plan (mentions ++ mentions') b b'' := by
  refine ⟨h.toExtends.trans (h.size ▸ h'.toExtends), fun refs hrefs => ?_⟩
  obtain ⟨met, hmet, hperm⟩ := h.tracks refs hrefs
  obtain ⟨met', hmet', hperm'⟩ := h'.tracks _ hmet
  refine ⟨met' ++ met, by rwa [List.append_assoc], ?_⟩
  rw [List.map_append, List.map_append, ← h.current]
  rw [← h.current] at hperm
  exact (hperm'.append hperm).trans List.perm_append_comm

theorem ofDeclares (h : Declares a plan b.scopes.size b b') :
    Meets a reportUndefined plan [] b b' := by
  refine ⟨h.toExtends, fun refs hrefs => ⟨[], ?_, .refl _⟩⟩
  refine hrefs.declared plan h (fun r hr => (hrefs.remembered r hr).grows.size_le)
    fun s scope hs hle => ?_
  exact absurd (ScopeTree.lt_size_of_get? hs) (Nat.not_lt_of_le hle)

theorem refl (b : Binder) : Meets a reportUndefined plan [] b b := ofDeclares (.refl b)

theorem ofNotes {p : Parked} (h : Notes a reportUndefined (b.meet p) b b') {n : Nat}
    (hnode : p.node = some n) (hkind : a.isKind (some n) .identifier = true)
    (hforeign : ∀ m, p.assigned = some m → ∀ s ∈ b.scopes.chain b.current, ∀ scope,
      b.scopes.get? s = some scope → scope.node ≠ some m) :
    Meets a reportUndefined plan [p] b b' := by
  refine ⟨h.extending ⟨n, hnode, hkind⟩, fun refs hrefs => ⟨[b.meet p], ?_, .refl _⟩⟩
  exact hrefs.noted h ⟨n, hnode, hkind⟩ hforeign

end Meets

/-! ## Opening a scope -/

section EnterScope

variable (kind : ScopeKind) (node : NodeRef) (b)

/-- The state in a new scope. -/
def Binder.entered : Binder := (Binder.enterScope kind node b).2

theorem get?_entered (s : ScopeId) : (b.entered kind node).scopes.get? s =
    if s = (b.entered kind node).current then some { kind, node, outer := some b.current }
    else b.scopes.get? s := ScopeTree.get?_push _ _ _

theorem get?_entered_of_some {s : ScopeId} {scope : Scope} (h : b.scopes.get? s = some scope) :
    (b.entered kind node).scopes.get? s = some scope := ScopeTree.get?_push_of_some _ h

theorem grows_entered (late : Atom → Prop) : b.scopes.Grows late (b.entered kind node).scopes :=
  fun _ scope hs => ⟨scope, get?_entered_of_some b kind node hs, .refl scope⟩

theorem outer?_entered : (b.entered kind node).scopes.outer? (b.entered kind node).current =
    some b.current := by
  rw [ScopeTree.outer?, get?_entered, if_pos rfl, Option.bind_some]

theorem size_entered : (b.entered kind node).scopes.size = b.scopes.size + 1 :=
  Array.size_push _

theorem nested_entered (hb : b.Sound) : (b.entered kind node).scopes.Nested := by
  intro s o ho
  obtain ⟨scope, hs, houter⟩ := Option.bind_eq_some_iff.1 ho
  rw [get?_entered] at hs
  split at hs
  · next heq =>
    cases hs
    cases houter
    rw [heq]
    exact hb.current
  · exact hb.nested s o (by rw [ScopeTree.outer?, hs, Option.bind_some, houter])

theorem chain_entered (hb : b.Sound) :
    (b.entered kind node).scopes.chain (b.entered kind node).current =
      (b.entered kind node).current :: b.scopes.chain b.current := by
  rw [ScopeTree.chain_eq (nested_entered b kind node hb), outer?_entered, Option.map_some,
    Option.getD_some]
  exact congrArg _ ((grows_entered b kind node fun _ => False).chain hb.nested
    (nested_entered b kind node hb) hb.current)

theorem spares_entered : Spares a b (b.entered kind node) where
  scopes s scope hs := ⟨scope, get?_entered_of_some b kind node hs, .refl scope⟩
  opens s scope hnone hs := by
    rw [get?_entered] at hs
    split at hs
    · cases hs
      rfl
    · rw [hnone] at hs
      cases hs
  entries _ _ _ := rfl
  reads _ _ _ := rfl
  writes _ _ _ _ := rfl
  reports := rfl
  undefinedValue := rfl

theorem sound_entered (hb : b.Sound) : (b.entered kind node).Sound := by
  have hold {s : ScopeId} {scope : Scope} {name : Atom} {v : ValueId}
      (hs : (b.entered kind node).scopes.get? s = some scope)
      (hv : scope.target? .value name = some (.inl v)) : b.scopes.get? s = some scope := by
    rw [get?_entered] at hs
    split at hs
    · cases hs
      cases hv
    · exact hs
  refine ⟨nested_entered b kind node hb, ?_, fun s scope hs => ?_, fun s scope name v hs hv => ?_,
    fun s₁ s₂ scope₁ scope₂ name₁ name₂ v hs₁ hs₂ hv₁ hv₂ => ?_⟩
  · rw [size_entered]
    exact Nat.lt_succ_self _
  · rw [chain_entered b kind node hb, List.mem_cons]
    rw [get?_entered] at hs
    split at hs
    · next heq =>
      cases hs
      simp [heq]
    · next hne => simp [hne, hb.opened s scope hs]
  · exact hb.slots s scope name v (hold hs hv) hv
  · exact hb.owner s₁ s₂ scope₁ scope₂ name₁ name₂ v (hold hs₁ hv₁) (hold hs₂ hv₂) hv₁ hv₂

/-- Opening a scope keeps what is tracked. -/
theorem Tracked.enterScope {late : Atom → Prop} (h : Tracked a reportUndefined late b refs) :
    Tracked a reportUndefined late (b.entered kind node) refs := by
  have hsound := sound_entered b kind node h.sound
  refine ⟨h.accounts.spared (spares_entered b kind node) h.sound.nested hsound.nested, hsound,
    h.annotated, fun r hr => ?_, fun s scope hs hclosed => ?_⟩
  · have hr' := h.remembered r hr
    exact ⟨hr'.nested, hr'.scope, hr'.grows.trans (grows_entered b kind node late), hr'.foreign⟩
  · rw [get?_entered] at hs
    split at hs
    · cases hs
      exact absurd rfl hclosed
    · exact h.settled s scope hs hclosed

end EnterScope

/-! ## Closing a scope -/

namespace Binder.Closes

theorem get?_eq (h : Closes a b b') {s : ScopeId} {scope : Scope}
    (hs : b.scopes.get? s = some scope) : ∃ scope', b'.scopes.get? s = some scope' ∧
      scope'.unparked = if s = b.current then { scope.unparked with state := .closed }
        else scope.unparked := by
  have hsame := h.scopes s
  rw [hs, Option.map_some] at hsame
  exact Option.map_eq_some_iff.1 hsame

/-- A scope seen before and after, with what is parked in it aside. -/
theorem grows_of_get? (h : Closes a b b') (late : Atom → Prop) {s : ScopeId} {scope : Scope}
    (hs : b.scopes.get? s = some scope) : ∃ scope', b'.scopes.get? s = some scope' ∧
      scope.Grows late scope' ∧ scope'.target? = scope.target? ∧
      scope'.state = if s = b.current then .closed else scope.state := by
  obtain ⟨scope', hs', hsame⟩ := h.get?_eq hs
  refine ⟨scope', hs', ?_⟩
  split at hsame
  · next hcurrent =>
    have hclosed : scope'.unparked = Scope.unparked { scope with state := .closed } := hsame
    obtain ⟨kind, node, outer, state, vars, types, reserved, parked⟩ := scope
    obtain ⟨kind', node', outer', state', vars', types', reserved', parked'⟩ := scope'
    cases hclosed
    have hrefl : Scope.Grows late { kind, node, outer, state, vars, types, reserved, parked }
        { kind, node, outer, state, vars, types, reserved, parked } := .refl _
    exact ⟨⟨rfl, rfl, rfl, rfl, hrefl.binds, hrefl.fresh⟩, rfl, by rw [if_pos hcurrent]⟩
  · next hcurrent =>
    obtain ⟨hgrows, hstate⟩ : scope.Grows late scope' ∧ scope'.state = scope.state :=
      Scope.grows_of_unparked hsame
    obtain ⟨kind, node, outer, state, vars, types, reserved, parked⟩ := scope
    obtain ⟨kind', node', outer', state', vars', types', reserved', parked'⟩ := scope'
    cases hsame
    exact ⟨hgrows, rfl, by rw [if_neg hcurrent]⟩

theorem grows (h : Closes a b b') (late : Atom → Prop) : b.scopes.Grows late b'.scopes := by
  intro s scope hs
  obtain ⟨scope', hs', hgrows, -⟩ := h.grows_of_get? late hs
  exact ⟨scope', hs', hgrows⟩

theorem exists_of_get? (h : Closes a b b') {s : ScopeId} {scope' : Scope}
    (hs' : b'.scopes.get? s = some scope') : ∃ scope, b.scopes.get? s = some scope := by
  have hsame := h.scopes s
  rw [hs', Option.map_some] at hsame
  obtain ⟨scope, hs, -⟩ := Option.map_eq_some_iff.1 hsame.symm
  exact ⟨scope, hs⟩

theorem outer? (h : Closes a b b') (s : ScopeId) : b'.scopes.outer? s = b.scopes.outer? s := by
  cases hs : b.scopes.get? s with
  | some scope => exact (h.grows fun _ => False).outer? (ScopeTree.lt_size_of_get? hs)
  | none =>
    cases hs' : b'.scopes.get? s with
    | none => rw [ScopeTree.outer?, ScopeTree.outer?, hs, hs']
    | some scope' =>
      obtain ⟨scope, hscope⟩ := h.exists_of_get? hs'
      rw [hs] at hscope
      cases hscope

theorem nested (h : Closes a b b') (ht : b.scopes.Nested) : b'.scopes.Nested :=
  fun s o ho => ht s o (h.outer? s ▸ ho)

/-- The scope around the current one becomes the current one. -/
theorem sound (h : Closes a b b') (hb : b.Sound) {o : ScopeId}
    (ho : b.scopes.outer? b.current = some o) : b'.Sound := by
  have hcurrent : b'.current = o := by rw [h.current, ho, Option.getD_some]
  have hlt := hb.nested _ _ ho
  have hnested := h.nested hb.nested
  have hchain : b'.scopes.chain o = b.scopes.chain o :=
    ScopeTree.chain_congr hb.nested hnested fun id _ => h.outer? id
  have hget {s : ScopeId} {scope' : Scope} (hs' : b'.scopes.get? s = some scope') :
      ∃ scope, b.scopes.get? s = some scope ∧ scope'.target? = scope.target? ∧
        scope'.state = if s = b.current then .closed else scope.state := by
    obtain ⟨scope, hs⟩ := h.exists_of_get? hs'
    obtain ⟨other, hother, -, hrest⟩ := h.grows_of_get? (fun _ => False) hs
    cases hs'.symm.trans hother
    exact ⟨scope, hs, hrest⟩
  refine ⟨hnested, ?_, fun s scope' hs' => ?_, fun s scope' name v hs' hv => ?_,
    fun s₁ s₂ scope₁ scope₂ name₁ name₂ v hs₁ hs₂ hv₁ hv₂ => ?_⟩
  · have hsize := (h.grows fun _ => False).size_le
    have := hb.current
    rw [hcurrent]
    omega
  · obtain ⟨scope, hs, -, hstate⟩ := hget hs'
    rw [hcurrent, hchain, hstate]
    have hopened := hb.opened s scope hs
    rw [ScopeTree.chain_eq hb.nested, ho, Option.map_some, Option.getD_some,
      List.mem_cons] at hopened
    by_cases heq : s = b.current
    · -- The scopes around the current one are older.
      have hnot : s ∉ b.scopes.chain o := by
        intro hmem
        have hle := ScopeTree.index_le_of_mem_chain hb.nested hmem
        rw [heq] at hle
        omega
      simp [heq, heq ▸ hnot]
    · simpa [heq] using hopened
  · obtain ⟨scope, hs, htarget, -⟩ := hget hs'
    exact h.slots v (hb.slots s scope name v hs (htarget ▸ hv))
  · obtain ⟨was₁, hwas₁, htarget₁, -⟩ := hget hs₁
    obtain ⟨was₂, hwas₂, htarget₂, -⟩ := hget hs₂
    exact hb.owner s₁ s₂ was₁ was₂ name₁ name₂ v hwas₁ hwas₂ (htarget₁ ▸ hv₁) (htarget₂ ▸ hv₂)

/-- What stays true of references and scopes when a scope has bound what it reserved. -/
theorem settled (h : Closes a b b') {late : Atom → Prop}
    (hb : Tracked a reportUndefined late b refs)
    (hcurrent : ∀ scope, b.scopes.get? b.current = some scope → ∀ name,
      (.value, name) ∈ scope.reserved → (scope.target? .value name).isSome) :
    ∀ s scope, b'.scopes.get? s = some scope → scope.state ≠ .opened →
      ∀ name, (.value, name) ∈ scope.reserved → (scope.target? .value name).isSome := by
  intro s scope' hs' hclosed name hname
  obtain ⟨scope, hs⟩ := h.exists_of_get? hs'
  obtain ⟨other, hother, hgrows, htarget, hstate⟩ := h.grows_of_get? late hs
  cases hs'.symm.trans hother
  rw [hgrows.reserved] at hname
  rw [htarget]
  by_cases heq : s = b.current
  · subst heq
    exact hcurrent scope hs name hname
  · rw [hstate, if_neg heq] at hclosed
    exact hb.settled s scope hs hclosed name hname

end Binder.Closes

/-- Closing a scope keeps what is tracked, if it has bound the value names that it reserved. -/
theorem Tracked.exitScope {late : Atom → Prop} (h : Tracked a reportUndefined late b refs)
    {o : ScopeId} (ho : b.scopes.outer? b.current = some o)
    (hcurrent : ∀ scope, b.scopes.get? b.current = some scope → ∀ name,
      (.value, name) ∈ scope.reserved → (scope.target? .value name).isSome) :
    Tracked a reportUndefined late (Binder.exitScope a reportUndefined b).2 refs ∧
      Closes a b (Binder.exitScope a reportUndefined b).2 := by
  obtain ⟨haccounts, hcloses⟩ := exitScope_accounts h.sound h.accounts
  refine ⟨⟨haccounts, hcloses.sound h.sound ho, ?_, fun r hr => ?_, hcloses.settled h hcurrent⟩,
    hcloses⟩
  · unfold Annotated
    rw [hcloses.comments]
    exact h.annotated
  · have hr' := h.remembered r hr
    exact ⟨hr'.nested, hr'.scope, hr'.grows.trans (hcloses.grows late), hr'.foreign⟩

end DocTypes
