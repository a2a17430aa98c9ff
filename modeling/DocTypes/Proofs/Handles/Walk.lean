import DocTypes.Binding.State
import DocTypes.Proofs.Handles.TypeExpr
import DocTypes.Proofs.Hierarchy.Readiness

/-!
# The scopes of a walk

While names are bound, the current scope and all scopes around it are open, whatever tree is
walked. A step either stays in the current scope (`Binder.Leads`) or opens one in it
(`Binder.Enters`), and the scope that it opens is closed again before anything else is done.

## Main statements

* `Binder.Safe.isOpen_nearest`: the scopes that declarations and references go to are open.
* `Binder.enterScope_enters`: opening a scope leaves it the only new one that is open.
* `Binder.Visits.bind`, `Binder.enterScope_visits`: how a visit is put together from steps.
-/

namespace DocTypes

namespace Analysis.Closed

/-- The scope around a scope is older. -/
theorem nested {x : Analysis} (hx : x.Closed) : x.scopes.Nested := by
  intro s o ho
  obtain ⟨scope, hscope, houter⟩ := Option.bind_eq_some_iff.1 ho
  exact (hx.scopes s scope hscope).outer o houter

end Analysis.Closed

/-- Scopes that were there are still there: each in the same scope, and as open as it was. -/
def ScopeTree.Keeps (t t' : ScopeTree) : Prop :=
  ∀ s scope, t.get? s = some scope →
    ∃ scope', t'.get? s = some scope' ∧ scope'.outer = scope.outer ∧ scope'.state = scope.state

namespace ScopeTree.Keeps

variable {t t' t'' : ScopeTree}

theorem refl (t : ScopeTree) : t.Keeps t := fun _ scope h => ⟨scope, h, rfl, rfl⟩

theorem trans (h : t.Keeps t') (h' : t'.Keeps t'') : t.Keeps t'' := by
  intro s scope hscope
  obtain ⟨scope', hscope', houter, hstate⟩ := h s scope hscope
  obtain ⟨scope'', hscope'', houter', hstate'⟩ := h' s scope' hscope'
  exact ⟨scope'', hscope'', houter'.trans houter, hstate'.trans hstate⟩

theorem push (t : ScopeTree) (scope : Scope) : t.Keeps (t.push scope).2 :=
  fun _ old hold => ⟨old, get?_push_of_some scope hold, rfl, rfl⟩

/-- A change of one scope, if that is older or stays as open as it was. -/
theorem update (t : ScopeTree) (id : ScopeId) {f : Scope → Scope}
    (houter : ∀ scope, (f scope).outer = scope.outer)
    (hstate : ∀ scope, (f scope).state = scope.state) : t.Keeps (t.update id f) := by
  intro s scope hscope
  by_cases hs : id = s
  · refine ⟨f scope, ?_, houter scope, hstate scope⟩
    rw [get?_update, if_pos hs, hscope, Option.map_some]
  · refine ⟨scope, ?_, rfl, rfl⟩
    rw [get?_update, if_neg hs, hscope]

theorem isSome (h : t.Keeps t') {s : ScopeId} (hs : (t.get? s).isSome) : (t'.get? s).isSome := by
  obtain ⟨scope, hscope⟩ := Option.isSome_iff_exists.1 hs
  obtain ⟨scope', hscope', -⟩ := h s scope hscope
  exact Option.isSome_iff_exists.2 ⟨scope', hscope'⟩

theorem outer? (h : t.Keeps t') {s : ScopeId} (hs : (t.get? s).isSome) :
    t'.outer? s = t.outer? s := by
  obtain ⟨scope, hscope⟩ := Option.isSome_iff_exists.1 hs
  obtain ⟨scope', hscope', houter, -⟩ := h s scope hscope
  rw [ScopeTree.outer?, ScopeTree.outer?, hscope, hscope', Option.bind_some,
    Option.bind_some, houter]

end ScopeTree.Keeps

namespace Binder

variable {b b' b'' : Binder}

/-- The current scope and the scopes around it are open. -/
def Live (b : Binder) : Prop := ∀ s ∈ b.analysis.scopes.chain b.current, b.analysis.IsOpen s

/-- A closed state in which the scopes that take bindings and parked names are open. -/
structure Safe (b : Binder) : Prop where
  closed : b.analysis.Closed
  live : b.Live

/-- Changes that lead to a closed state, in which the scopes that were there are as they were. -/
structure Reaches (b b' : Binder) : Prop where
  analysis : b.analysis.Leads b'.analysis
  prepares : b.analysis.Prepares b'.analysis
  scopes : b.analysis.scopes.Keeps b'.analysis.scopes

/-- Changes that stay in the current scope. -/
structure Leads (b b' : Binder) : Prop extends Reaches b b' where
  current : b'.current = b.current
  live : b'.Live

/-- Changes that end in a new scope in the current one. -/
structure Enters (b b' : Binder) : Prop extends Reaches b b' where
  outer : b'.analysis.scopes.outer? b'.current = some b.current
  fresh : b.analysis.scopes.get? b'.current = none
  live : b'.Live

/-! ## Open scopes -/

theorem Reaches.trans (h : b.Reaches b') (h' : b'.Reaches b'') : b.Reaches b'' :=
  ⟨h.analysis.trans h'.analysis, h.prepares.trans h'.prepares, h.scopes.trans h'.scopes⟩

theorem Reaches.closed (h : b.Reaches b') : b'.analysis.Closed := h.analysis.closed

theorem Reaches.refl (hb : b.analysis.Closed) : b.Reaches b := ⟨.refl hb, .refl _, .refl _⟩

instance : IsTrans Binder Reaches := ⟨fun _ _ _ => Reaches.trans⟩

instance : Anchored Reaches := ⟨fun h => .refl h.closed⟩

theorem Safe.current (hb : b.Safe) : b.analysis.IsOpen b.current :=
  hb.live b.current (ScopeTree.mem_chain_self hb.closed.nested _)

theorem Safe.isOpen_outer (hb : b.Safe) {o : ScopeId}
    (ho : b.analysis.scopes.outer? b.current = some o) : b.analysis.IsOpen o := by
  have hself := ScopeTree.mem_chain_self hb.closed.nested o
  exact hb.live o (ScopeTree.mem_chain_outer hb.closed.nested ho hself)

/-- The scope that declarations of a sort go to is open. -/
theorem Safe.isOpen_nearest (hb : b.Safe) (accept : ScopeKind → Bool) :
    b.analysis.IsOpen (b.analysis.scopes.nearest b.current accept) :=
  hb.live _ (ScopeTree.nearest_mem_chain hb.closed.nested _ _)

theorem Reaches.isOpen (h : b.Reaches b') {s : ScopeId} (hs : b.analysis.IsOpen s) :
    b'.analysis.IsOpen s := by
  obtain ⟨scope, hscope, hstate⟩ := hs
  obtain ⟨scope', hscope', -, hstate'⟩ := h.scopes s scope hscope
  exact ⟨scope', hscope', hstate'.trans hstate⟩

/-- The scopes around a scope stay the same. -/
theorem Reaches.chain (h : b.Reaches b') (hb : b.analysis.Closed) {s : ScopeId}
    (hs : ∀ id ∈ b.analysis.scopes.chain s, b.analysis.IsOpen id) :
    b'.analysis.scopes.chain s = b.analysis.scopes.chain s :=
  ScopeTree.chain_congr hb.nested h.closed.nested fun id hid =>
    h.scopes.outer? (hs id hid).isSome

/-- The scopes around a scope stay open. -/
theorem Reaches.open_chain (h : b.Reaches b') (hb : b.analysis.Closed) {s : ScopeId}
    (hs : ∀ id ∈ b.analysis.scopes.chain s, b.analysis.IsOpen id) :
    ∀ id ∈ b'.analysis.scopes.chain s, b'.analysis.IsOpen id := by
  intro id hid
  rw [h.chain hb hs] at hid
  exact h.isOpen (hs id hid)

/-- Changes that leave the current scope the current one. -/
theorem Reaches.leads (h : b.Reaches b') (hb : b.Safe) (hcurrent : b'.current = b.current) :
    b.Leads b' := by
  refine ⟨h, hcurrent, ?_⟩
  unfold Live
  rw [hcurrent]
  exact h.open_chain hb.closed hb.live

namespace Leads

theorem refl (hb : b.Safe) : b.Leads b := ⟨.refl hb.closed, rfl, hb.live⟩

theorem safe (h : b.Leads b') : b'.Safe := ⟨h.toReaches.closed, h.live⟩

theorem trans (h : b.Leads b') (h' : b'.Leads b'') : b.Leads b'' :=
  ⟨h.toReaches.trans h'.toReaches, h'.current.trans h.current, h'.live⟩

instance : IsTrans Binder Leads := ⟨fun _ _ _ => trans⟩

instance : Anchored Leads := ⟨fun h => .refl h.safe⟩

theorem closed (h : b.Leads b') : b'.analysis.Closed := h.analysis.closed

theorem known (h : b.Leads b') {t : TypeId} (ht : b.analysis.store.Known t) :
    b'.analysis.store.Known t := h.analysis.known ht

theorem valueKnown (h : b.Leads b') {v : ValueId} (hv : b.analysis.store.ValueKnown v) :
    b'.analysis.store.ValueKnown v := h.analysis.valueKnown hv

theorem enters (h : b.Leads b') (h' : b'.Enters b'') : b.Enters b'' := by
  refine ⟨h.toReaches.trans h'.toReaches, h.current ▸ h'.outer, ?_, h'.live⟩
  cases hget : b.analysis.scopes.get? b''.current with
  | none => rfl
  | some scope =>
    obtain ⟨scope', hscope', -⟩ := h.scopes _ scope hget
    exact absurd (h'.fresh.symm.trans hscope') (by simp)

end Leads

theorem Enters.safe (h : b.Enters b') : b'.Safe := ⟨h.closed, h.live⟩

theorem Enters.leads (h : b.Enters b') (h' : b'.Leads b'') : b.Enters b'' := by
  refine ⟨h.toReaches.trans h'.toReaches, ?_, h'.current ▸ h.fresh, h'.live⟩
  have hcurrent := h.safe.current.isSome
  rw [h'.current, h'.scopes.outer? hcurrent, h.outer]

/-! ## Steps -/

/-- A step of the analysis that leaves the scopes alone. -/
theorem onAnalysis_reaches {α : Type} {m : Analyze α} {P : α → Analysis → Prop}
    (hm : Runs Analysis.Leads b.analysis m P) (hprepares : b.analysis.Prepares (m b.analysis).2)
    (hscopes : (m b.analysis).2.scopes = b.analysis.scopes) :
    Runs Reaches b (Bind.onAnalysis m) fun r b' => P r b'.analysis := by
  refine ⟨⟨hm.1, hprepares, ?_⟩, hm.2⟩
  show b.analysis.scopes.Keeps (m b.analysis).2.scopes
  rw [hscopes]
  exact .refl _

/-- A change of one scope that leaves it as open as it was. -/
theorem updateScope_reaches (hb : b.analysis.Closed) (id : ScopeId) {f : Scope → Scope}
    (hchange : Analysis.Change b.analysis (b.analysis.withScope id f))
    (houter : ∀ scope, (f scope).outer = scope.outer)
    (hstate : ∀ scope, (f scope).state = scope.state) :
    Runs Reaches b (updateScope id f) fun _ _ => True :=
  ⟨⟨.change hb hchange, .ofStore rfl rfl, .update _ _ houter hstate⟩, trivial⟩

theorem onAnalysis_runs {α : Type} (hb : b.Safe) {m : Analyze α} {P : α → Analysis → Prop}
    (hm : Runs Analysis.Leads b.analysis m P) (hprepares : b.analysis.Prepares (m b.analysis).2)
    (hscopes : (m b.analysis).2.scopes = b.analysis.scopes) :
    Runs Leads b (Bind.onAnalysis m) fun r b' => P r b'.analysis :=
  have h := onAnalysis_reaches hm hprepares hscopes
  ⟨h.1.leads hb rfl, h.2⟩

theorem updateScope_runs (hb : b.Safe) (id : ScopeId) {f : Scope → Scope}
    (hchange : Analysis.Change b.analysis (b.analysis.withScope id f))
    (houter : ∀ scope, (f scope).outer = scope.outer)
    (hstate : ∀ scope, (f scope).state = scope.state) :
    Runs Leads b (updateScope id f) fun _ _ => True :=
  ⟨(updateScope_reaches hb.closed id hchange houter hstate).1.leads hb rfl, trivial⟩

theorem pure_runs {α : Type} (hb : b.Safe) {P : α → Binder → Prop}
    {r : α} (h : P r b) : Runs Leads b (pure r) P := .pure (.refl hb) h

/-- Opening a scope. -/
theorem enterScope_enters (hb : b.Safe) (kind : ScopeKind)
    (node : NodeRef) :
    b.Enters (enterScope kind node b).2 ∧
      (enterScope kind node b).1 = (enterScope kind node b).2.current := by
  let scope : Scope := { kind, node, outer := some b.current }
  let id := (b.analysis.scopes.push scope).1
  have hcurrent := hb.current.isSome
  have hchange : Analysis.Change b.analysis
      { b.analysis with scopes := (b.analysis.scopes.push scope).2 } := by
    refine .openScope kind node (some b.current) fun o ho => ?_
    exact Option.some.inj ho ▸ hcurrent
  have hreaches : b.Reaches (enterScope kind node b).2 :=
    ⟨.change hb.closed hchange, .ofStore rfl rfl, .push _ _⟩
  have hget : (b.analysis.scopes.push scope).2.get? id = some scope := by
    rw [ScopeTree.get?_push, if_pos rfl]
  have houter : (enterScope kind node b).2.analysis.scopes.outer? id = some b.current := by
    show ((b.analysis.scopes.push scope).2.get? id).bind (·.outer) = some b.current
    rw [hget]
    rfl
  have hfresh : b.analysis.scopes.get? id = none := by
    simp [id, ScopeTree.push, ScopeTree.get?]
  refine ⟨⟨hreaches, houter, hfresh, ?_⟩, rfl⟩
  intro s hs
  rcases (ScopeTree.mem_chain_iff hreaches.closed.nested s _).1 hs with rfl | ⟨o, ho, hmem⟩
  · exact ⟨scope, hget, rfl⟩
  · obtain rfl := Option.some.inj (houter.symm.trans ho)
    exact hreaches.open_chain hb.closed hb.live s hmem

/-! ## Visits -/

/-- Work that does not close a scope. -/
def Plain (works : List Work) : Prop := Work.exitScope ∉ works

/-- A visit stays in the current scope, or opens a scope and closes it after everything else
that it asks for. -/
def Visits (b : Binder) (m : Bind (List Work)) : Prop :=
  (b.Leads (m b).2 ∧ Plain (m b).1) ∨
    (b.Enters (m b).2 ∧ ∃ works, Plain works ∧ (m b).1 = works ++ [.exitScope])

namespace Visits

theorem stay {m : Bind (List Work)} (hm : Runs Leads b m fun works _ => Plain works) : b.Visits m :=
  .inl hm

/-- A step that stays, and a visit after it. -/
theorem bind {α : Type} {m : Bind α} {f : α → Bind (List Work)} {P : α → Binder → Prop}
    (hm : Runs Leads b m P) (hf : ∀ r b', b.Leads b' → P r b' → b'.Visits (f r)) :
    b.Visits (m >>= f) := by
  have hleads := hm.1
  rcases hf (m b).1 (m b).2 hleads hm.2 with ⟨hstay, hplain⟩ | ⟨henters, hworks⟩
  · exact .inl ⟨hleads.trans hstay, hplain⟩
  · exact .inr ⟨hleads.enters henters, hworks⟩

theorem get_bind {f : Binder → Bind (List Work)} (h : b.Visits (f b)) :
    b.Visits (MonadState.get >>= f) := h

end Visits

/-- Opening a scope, and steps in it that ask for it to be closed in the end. -/
theorem enterScope_visits (hb : b.Safe) (kind : ScopeKind)
    (node : NodeRef) {f : ScopeId → Bind (List Work)}
    (hf : ∀ b', b.Enters b' → Runs Leads b' (f b'.current) fun works _ =>
      ∃ rest, Plain rest ∧ works = rest ++ [.exitScope]) :
    b.Visits (enterScope kind node >>= f) := by
  obtain ⟨henters, hid⟩ := enterScope_enters hb kind node
  have hrun := hf _ henters
  rw [← hid] at hrun
  exact .inr ⟨henters.leads hrun.1, hrun.2⟩

end Binder

end DocTypes
