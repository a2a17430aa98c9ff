import DocTypes.Binding.Visit
import DocTypes.Proofs.Scopes.Growth

/-!
# What becomes of a reference

A reference is met in a scope. If the scope that takes its name binds it, or if it needs no
binding, its fate is decided at once. Otherwise it waits: in the scope that takes it, or in
its own scope if none does. When the scope it waits in closes, it is bound there or goes on to
the scope around it.

`Reference.fate` reads the present fate of a reference off the tree of scopes, without any
record of where it was parked.

## Main statement

* `ScopeTree.settle_close`: when a scope closes, the references that wait in it go where it
  sends them, and no other fate changes.
-/

namespace DocTypes

/-- A reference as it was met: what is parked for it, the scope that was current, and the
scopes as they were. -/
structure Reference where
  parked : Parked
  scope : ScopeId
  seen : ScopeTree

/-- What becomes of a reference. -/
inductive Fate where
  | bound (target : Target)
  | waiting (scope : ScopeId)
  /-- The name `undefined`, which no scope took. -/
  | undefinedName
  /-- The name `arguments` inside a function, which no scope took. -/
  | argumentsName
  | missing
  deriving DecidableEq

namespace ScopeTree

variable {t t' : ScopeTree} {space : Namespace} {name : Atom}

/-- What a scope does with a name that waits: an open scope keeps it, any other one binds it
or lets it pass. -/
def holds? (t : ScopeTree) (space : Namespace) (name : Atom) (id : ScopeId) : Option Fate :=
  (t.get? id).bind fun scope =>
    if scope.state = .opened then some (.waiting id)
    else (scope.target? space name).map .bound

/-- What becomes of a name that waits from a scope on. -/
def settle (t : ScopeTree) (space : Namespace) (name : Atom) (s : ScopeId) : Fate :=
  (t.outward (t.holds? space name) s).getD .missing

theorem settle_eq (ht : t.Nested) (s : ScopeId) :
    t.settle space name s = (t.holds? space name s).getD
      (((t.outer? s).map (t.settle space name)).getD .missing) := by
  unfold settle
  rw [outward_eq ht]
  cases t.holds? space name s with
  | some fate => rfl
  | none => cases t.outer? s <;> rfl

theorem holds?_of_opened {s : ScopeId} {scope : Scope} (hs : t.get? s = some scope)
    (hopen : scope.state = .opened) : t.holds? space name s = some (.waiting s) := by
  simp [holds?, hs, hopen]

/-- A name waits in the first scope if that one is open. -/
theorem settle_of_opened (ht : t.Nested) {s : ScopeId} {scope : Scope} (hs : t.get? s = some scope)
    (hopen : scope.state = .opened) : t.settle space name s = .waiting s := by
  rw [settle_eq ht, holds?_of_opened hs hopen]
  rfl

/-- A name waits in an open scope of the chain. -/
theorem opened_of_settle_eq_waiting {s id : ScopeId} (h : t.settle space name s = .waiting id) :
    id ∈ t.chain s ∧ ∃ scope, t.get? id = some scope ∧ scope.state = .opened := by
  unfold settle at h
  cases hout : t.outward (t.holds? space name) s with
  | none => simp [hout] at h
  | some fate =>
    rw [hout, Option.getD_some] at h
    subst h
    obtain ⟨mid, hmem, hmid⟩ := outward_eq_some hout
    obtain ⟨scope, hscope, hfate⟩ := Option.bind_eq_some_iff.1 hmid
    split at hfate
    · next hopen =>
      cases hfate
      exact ⟨hmem, scope, hscope, hopen⟩
    · obtain ⟨x, -, hx⟩ := Option.map_eq_some_iff.1 hfate
      cases hx

theorem settle_congr (ht : t.Nested) (ht' : t'.Nested) {s : ScopeId}
    (houter : ∀ id ∈ t.chain s, t'.outer? id = t.outer? id)
    (hholds : ∀ id ∈ t.chain s, t'.holds? space name id = t.holds? space name id) :
    t'.settle space name s = t.settle space name s := by
  unfold settle
  rw [outward_congr (chain_congr ht ht' houter) hholds]

/-- When a scope closes, the references that wait in it go where it sends them, and no other
fate changes. -/
theorem settle_close (ht : t.Nested) (ht' : t'.Nested) {cur : ScopeId}
    (houter : ∀ id, t'.outer? id = t.outer? id)
    (hholds : ∀ id, id ≠ cur → t'.holds? space name id = t.holds? space name id)
    (hcur : t.holds? space name cur = some (.waiting cur)) (s : ScopeId) :
    t'.settle space name s =
      if t.settle space name s = .waiting cur then t'.settle space name cur
      else t.settle space name s := by
  induction s using ht.induction with
  | step s ih =>
    by_cases hs : s = cur
    · subst hs
      rw [settle_eq ht s, hcur, Option.getD_some, if_pos rfl]
    · rw [settle_eq ht' s, settle_eq ht s, hholds s hs, houter s]
      cases hfate : t.holds? space name s with
      | some fate =>
        have hne : fate ≠ .waiting cur := by
          rintro rfl
          obtain ⟨scope, -, hscope⟩ := Option.bind_eq_some_iff.1 hfate
          split at hscope
          · cases hscope
            exact hs rfl
          · obtain ⟨x, -, hx⟩ := Option.map_eq_some_iff.1 hscope
            cases hx
        simp only [Option.getD_some]
        rw [if_neg hne]
      | none =>
        cases ho : t.outer? s with
        | none =>
          simp only [Option.getD_none, Option.map_none]
          rw [if_neg (by intro h; cases h)]
        | some o => exact ih o ho

/-- When every scope is closed, a name stands for what the innermost scope binds it to. -/
theorem settle_of_closed (hclosed : ∀ s scope, t.get? s = some scope → scope.state ≠ .opened)
    (s : ScopeId) :
    t.settle space name s = ((t.innermost? space name s).map Fate.bound).getD .missing := by
  have hholds : ∀ id, t.holds? space name id
      = ((t.get? id).bind (·.target? space name)).map Fate.bound := by
    intro id
    unfold holds?
    cases hid : t.get? id with
    | none => rfl
    | some scope => simp [hclosed id scope hid]
  unfold settle innermost? outward
  induction t.chain s with
  | nil => rfl
  | cons id rest ih =>
    rw [List.findSome?_cons, List.findSome?_cons, hholds id]
    cases (t.get? id).bind (·.target? space name) with
    | none => exact ih
    | some x => rfl

end ScopeTree

namespace Reference

/-- The scope that took the name when the reference was met. -/
def taker? (r : Reference) : Option ScopeId :=
  r.seen.taker? r.parked.space r.parked.name r.scope

/-- The scope where the reference waits first. -/
def start (r : Reference) : ScopeId := r.taker?.getD r.scope

/-- Whether the reference is the name `arguments` inside a function. -/
def isArguments (a : Arena) (r : Reference) : Bool :=
  a.text r.parked.node = "arguments"
    && (r.seen.get? (r.seen.nearestFunction r.scope)).any (·.kind = .function)

/-- The fate of a reference that does not wait. -/
def decided? (a : Arena) (r : Reference) : Option Fate :=
  match r.taker? with
  | some id => ((r.seen.get? id).bind (·.target? r.parked.space r.parked.name)).map .bound
  | none =>
    match r.parked.space with
    | .type => none
    | .value =>
      if a.text r.parked.node = "undefined" then some .undefinedName
      else if r.isArguments a then some .argumentsName
      else none

/-- What has become of a reference when the scopes are as in the tree. -/
def fate (a : Arena) (t : ScopeTree) (r : Reference) : Fate :=
  (r.decided? a).getD (t.settle r.parked.space r.parked.name r.start)

/-- The problem of a reference that is missing. -/
def problem (a : Arena) (r : Reference) : Diagnostic :=
  { problem := Binder.unboundProblem r.parked.space, span := a.span r.parked.node }

theorem fate_of_decided {a : Arena} {r : Reference} {fate : Fate} (h : r.decided? a = some fate)
    (t : ScopeTree) : r.fate a t = fate := by
  rw [Reference.fate, h, Option.getD_some]

theorem fate_of_undecided {a : Arena} {r : Reference} (h : r.decided? a = none) (t : ScopeTree) :
    r.fate a t = t.settle r.parked.space r.parked.name r.start := by
  rw [Reference.fate, h, Option.getD_none]

/-- What is decided at once is not that a reference waits. -/
theorem decided?_ne_waiting (a : Arena) (r : Reference) (s : ScopeId) :
    r.decided? a ≠ some (.waiting s) := by
  intro h
  unfold decided? at h
  split at h
  · obtain ⟨x, -, hx⟩ := Option.map_eq_some_iff.1 h
    cases hx
  · split at h
    · cases h
    · split at h
      · cases h
      · split at h <;> cases h

theorem opened_of_fate_eq_waiting {a : Arena} {t : ScopeTree} {r : Reference} {s : ScopeId}
    (h : r.fate a t = .waiting s) :
    ∃ scope, t.get? s = some scope ∧ scope.state = .opened := by
  cases hd : r.decided? a with
  | some fate =>
    rw [fate_of_decided hd] at h
    exact absurd (h ▸ hd) (decided?_ne_waiting a r s)
  | none =>
    rw [fate_of_undecided hd] at h
    exact (ScopeTree.opened_of_settle_eq_waiting h).2

end Reference

end DocTypes
