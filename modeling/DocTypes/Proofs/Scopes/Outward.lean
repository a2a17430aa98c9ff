import DocTypes.Scopes.Tree
import Mathlib.Data.List.Basic

/-!
# Searching outward

Scopes are numbered in the order in which they open, so the scope around a scope has a
smaller number (`ScopeTree.Nested`). For such trees the chain of a scope is the scope
itself and then the chain of the scope around it, and so is every search along it
(`ScopeTree.outward`).

A name is met along a chain in two ways. While the walk goes on, the first scope that binds
or reserves it takes the reference (`ScopeTree.taker?`). When all is said, the first scope
that binds it decides what it stands for (`ScopeTree.innermost?`).

## Main statements

* `ScopeTree.outward_eq`: a search asks the scope, then goes on in the scope around it.
* `ScopeTree.lookupVariable_eq`, `ScopeTree.lookupType_eq`: a lookup asks the scope that
  takes the name.
* `ScopeTree.innermost?_eq_of_between`: scopes that do not bind a name may be left out.
-/

namespace DocTypes

/-- What a name stands for: a value or a type. -/
abbrev Target := ValueId ⊕ TypeId

namespace Scope

/-- What a name of either sort stands for here. -/
def target? (s : Scope) (space : Namespace) (name : Atom) : Option Target :=
  match space with
  | .value => (s.boundVariable? name).map fun binding => .inl binding.target
  | .type => (s.boundType? name).map fun binding => .inr binding.target

/-- Whether a name is bound or reserved here. -/
def takes (s : Scope) (space : Namespace) (name : Atom) : Bool :=
  (s.target? space name).isSome || s.reserves space name

end Scope

namespace ScopeTree

variable {α : Type} {t t' : ScopeTree}

/-- The scope around a scope has a smaller number. -/
def Nested (t : ScopeTree) : Prop := ∀ s o, t.outer? s = some o → o.index < s.index

/-- The first answer along the chain of a scope. -/
def outward (t : ScopeTree) (f : ScopeId → Option α) (s : ScopeId) : Option α :=
  (t.chain s).findSome? f

/-- What a name stands for, seen from a scope. -/
def innermost? (t : ScopeTree) (space : Namespace) (name : Atom) (s : ScopeId) : Option Target :=
  t.outward (fun id => (t.get? id).bind (·.target? space name)) s

/-- The first scope along the chain that binds or reserves a name. -/
def taker? (t : ScopeTree) (space : Namespace) (name : Atom) (s : ScopeId) : Option ScopeId :=
  t.outward (fun id => if (t.get? id).any (·.takes space name) then some id else none) s

/-! ## Chains -/

theorem lt_size_of_get? {s : ScopeId} {scope : Scope} (h : t.get? s = some scope) :
    s.index < t.size := by
  simp only [get?] at h
  exact (Array.getElem?_eq_some_iff.1 h).1

theorem lt_size_of_outer? {s o : ScopeId} (h : t.outer? s = some o) : s.index < t.size := by
  obtain ⟨scope, hs, -⟩ := Option.bind_eq_some_iff.1 h
  exact lt_size_of_get? hs

/-- More steps than the number of the scope add nothing. -/
theorem chainIn_succ (ht : t.Nested) {steps : Nat} {s : ScopeId} (h : s.index ≤ steps) :
    t.chainIn (steps + 1) s = t.chainIn steps s := by
  induction steps generalizing s with
  | zero =>
    cases ho : t.outer? s with
    | none => simp [chainIn, ho]
    | some o =>
      have hlt := ht s o ho
      omega
  | succ steps ih =>
    cases ho : t.outer? s with
    | none => simp [chainIn, ho]
    | some o =>
      have hlt := ht s o ho
      have hsteps : o.index ≤ steps := by omega
      have ih' := ih hsteps
      simp only [chainIn, ho] at ih' ⊢
      rw [ih']

/-- The chain of a scope goes on with the chain of the scope around it. -/
theorem chain_eq (ht : t.Nested) (s : ScopeId) :
    t.chain s = s :: ((t.outer? s).map t.chain).getD [] := by
  cases ho : t.outer? s with
  | none =>
    unfold chain
    cases t.size <;> simp [chainIn, ho]
  | some o =>
    have hsize := lt_size_of_outer? ho
    have hlt := ht s o ho
    obtain ⟨k, hk⟩ := Nat.exists_eq_succ_of_ne_zero (Nat.ne_of_gt (Nat.zero_lt_of_lt hsize))
    have hstep : t.chainIn (k + 1) o = t.chainIn k o := chainIn_succ ht (by omega)
    show t.chainIn t.size s = s :: t.chainIn t.size o
    rw [hk, Nat.succ_eq_add_one, hstep]
    simp [chainIn, ho]

/-- What holds of a scope if it holds of the scope around it holds of every scope. -/
theorem Nested.induction (ht : t.Nested) {motive : ScopeId → Prop}
    (step : ∀ s, (∀ o, t.outer? s = some o → motive o) → motive s) (s : ScopeId) : motive s := by
  obtain ⟨n, hn⟩ : ∃ n, s.index = n := ⟨_, rfl⟩
  induction n using Nat.strongRecOn generalizing s with
  | ind n ih => exact step s fun o ho => ih o.index (hn ▸ ht s o ho) o rfl

theorem mem_chain_self (ht : t.Nested) (s : ScopeId) : s ∈ t.chain s := by
  rw [chain_eq ht]
  exact List.mem_cons_self

theorem mem_chain_outer (ht : t.Nested) {s o : ScopeId} (ho : t.outer? s = some o)
    {id : ScopeId} (h : id ∈ t.chain o) : id ∈ t.chain s := by
  rw [chain_eq ht, ho]
  exact List.mem_cons_of_mem _ h

theorem mem_chain_iff (ht : t.Nested) (id s : ScopeId) :
    id ∈ t.chain s ↔ id = s ∨ ∃ o, t.outer? s = some o ∧ id ∈ t.chain o := by
  rw [chain_eq ht]
  cases t.outer? s <;> simp

theorem index_le_of_mem_chain (ht : t.Nested) {id s : ScopeId} (h : id ∈ t.chain s) :
    id.index ≤ s.index := by
  induction s using ht.induction with
  | step s ih =>
    rcases (mem_chain_iff ht id s).1 h with rfl | ⟨o, ho, hmem⟩
    · exact Nat.le_refl _
    · exact Nat.le_trans (ih o ho hmem) (Nat.le_of_lt (ht s o ho))

/-- A chain depends on what stands around its own scopes alone. -/
theorem chain_congr (ht : t.Nested) (ht' : t'.Nested) {s : ScopeId}
    (h : ∀ id ∈ t.chain s, t'.outer? id = t.outer? id) : t'.chain s = t.chain s := by
  induction s using ht.induction with
  | step s ih =>
    have hs := h s (mem_chain_self ht s)
    rw [chain_eq ht, chain_eq ht', hs]
    cases ho : t.outer? s with
    | none => rfl
    | some o =>
      have hchain := ih o ho fun id hid => h id (mem_chain_outer ht ho hid)
      simp [hchain]

/-! ## The nearest scope of a kind -/

/-- The nearest scope is the scope itself if its kind is accepted, else the nearest one of the
scope around it. -/
theorem nearest_eq (ht : t.Nested) {s : ScopeId} {scope : Scope} (hs : t.get? s = some scope)
    (accept : ScopeKind → Bool) :
    t.nearest s accept = if accept scope.kind then s
      else ((t.outer? s).map fun o => t.nearest o accept).getD s := by
  unfold nearest
  rw [chain_eq ht, List.find?_cons, hs, Option.any_some]
  cases accept scope.kind with
  | true => rfl
  | false =>
    cases ho : t.outer? s with
    | none => rfl
    | some o =>
      simp only [Option.map_some, Option.getD_some, Bool.false_eq_true, if_false]
      cases (t.chain o).find? fun id => (t.get? id).any fun scope => accept scope.kind with
      | some id => rfl
      | none =>
        have hne : t.chain o ≠ [] := by
          rw [chain_eq ht]
          exact List.cons_ne_nil _ _
        simp [List.getLast?_cons, List.getLast?_eq_some_getLast hne]

/-- The nearest scope is met on the chain. -/
theorem nearest_mem_chain (ht : t.Nested) (s : ScopeId) (accept : ScopeKind → Bool) :
    t.nearest s accept ∈ t.chain s := by
  unfold nearest
  split
  · next id hid => exact List.mem_of_find?_eq_some hid
  · have hne : t.chain s ≠ [] := by
      rw [chain_eq ht]
      exact List.cons_ne_nil _ _
    rw [List.getLast?_eq_some_getLast hne, Option.getD_some]
    exact List.getLast_mem hne

theorem nearest_congr {s : ScopeId} {accept : ScopeKind → Bool}
    (hchain : t'.chain s = t.chain s)
    (hkind : ∀ id ∈ t.chain s, (t'.get? id).map (·.kind) = (t.get? id).map (·.kind)) :
    t'.nearest s accept = t.nearest s accept := by
  have hany : ∀ id ∈ t.chain s, ((t'.get? id).any fun scope => accept scope.kind)
      = (t.get? id).any fun scope => accept scope.kind := by
    intro id hid
    have hmap : ∀ x : Option Scope,
        (x.any fun scope => accept scope.kind) = (x.map (·.kind)).any accept := by
      intro x
      cases x <;> rfl
    rw [hmap, hmap, hkind id hid]
  have hfind : ((t.chain s).find? fun id => (t'.get? id).any fun scope => accept scope.kind)
      = (t.chain s).find? fun id => (t.get? id).any fun scope => accept scope.kind := by
    generalize t.chain s = chain at hany
    induction chain with
    | nil => rfl
    | cons id rest ih =>
      rw [List.find?_cons, List.find?_cons, hany id List.mem_cons_self,
        ih fun other hother => hany other (List.mem_cons_of_mem _ hother)]
  unfold nearest
  rw [hchain, hfind]

/-! ## Searches -/

/-- A search asks the scope, then goes on in the scope around it. -/
theorem outward_eq (ht : t.Nested) (f : ScopeId → Option α) (s : ScopeId) :
    t.outward f s = (f s).or ((t.outer? s).bind (t.outward f)) := by
  unfold outward
  rw [chain_eq ht]
  cases ho : t.outer? s with
  | none => cases hf : f s <;> simp [hf]
  | some o => cases hf : f s <;> simp [hf]

theorem outward_congr {f g : ScopeId → Option α} {s : ScopeId} (hchain : t'.chain s = t.chain s)
    (h : ∀ id ∈ t.chain s, g id = f id) : t'.outward g s = t.outward f s := by
  unfold outward
  rw [hchain]
  generalize t.chain s = chain at h
  induction chain with
  | nil => rfl
  | cons id rest ih =>
    rw [List.findSome?_cons, List.findSome?_cons, h id List.mem_cons_self,
      ih fun other hother => h other (List.mem_cons_of_mem _ hother)]

theorem outward_eq_some {f : ScopeId → Option α} {s : ScopeId} {x : α}
    (h : t.outward f s = some x) : ∃ id ∈ t.chain s, f id = some x :=
  List.exists_of_findSome?_eq_some h

theorem outward_eq_none_iff {f : ScopeId → Option α} {s : ScopeId} :
    t.outward f s = none ↔ ∀ id ∈ t.chain s, f id = none :=
  List.findSome?_eq_none_iff

/-- A name that some scope of the chain takes is taken by a scope of the chain. -/
theorem mem_chain_of_taker? {space : Namespace} {name : Atom} {s id : ScopeId}
    (h : t.taker? space name s = some id) :
    id ∈ t.chain s ∧ (t.get? id).any (·.takes space name) = true := by
  obtain ⟨mid, hmem, hmid⟩ := outward_eq_some h
  split at hmid
  · next htakes =>
    cases hmid
    exact ⟨hmem, htakes⟩
  · cases hmid

theorem not_takes_of_taker?_eq_none {space : Namespace} {name : Atom} {s id : ScopeId}
    (h : t.taker? space name s = none) (hmem : id ∈ t.chain s) :
    (t.get? id).any (·.takes space name) = false := by
  have hid := outward_eq_none_iff.1 h id hmem
  simpa using hid

/-! ## Lookups -/

/-- The answer of the scope that takes a name. -/
def answer (taker : Option ScopeId) (binding? : ScopeId → Option (Binding α)) : Lookup α :=
  match taker with
  | none => .unbound
  | some id =>
    match binding? id with
    | some binding => .bound binding
    | none => .declared id

/-- A lookup asks the scope that takes the name. -/
theorem lookup_eq (space : Namespace) (name : Atom) (bindings : Scope → Bindings α)
    (toTarget : Binding α → Target)
    (h : ∀ scope : Scope, scope.target? space name = ((bindings scope).lookup name).map toTarget)
    (s : ScopeId) :
    t.lookup space name bindings s = answer (t.taker? space name s) fun id =>
      (t.get? id).bind fun scope => (bindings scope).lookup name := by
  unfold lookup taker? outward
  induction t.chain s with
  | nil => rfl
  | cons id rest ih =>
    simp only [List.findSome?_cons, verdict?]
    cases hid : t.get? id with
    | none => simpa using ih
    | some scope =>
      have htakes : scope.takes space name
          = (((bindings scope).lookup name).isSome || scope.reserves space name) := by
        simp [Scope.takes, h scope]
      cases hbound : (bindings scope).lookup name with
      | some binding => simp [htakes, hbound, hid, answer]
      | none =>
        by_cases hreserves : scope.reserves space name = true
        · simp [htakes, hbound, hreserves, hid, answer]
        · simpa [htakes, hbound, hreserves] using ih

theorem lookupVariable_eq (s : ScopeId) (name : Atom) :
    t.lookupVariable s name =
      answer (t.taker? .value name s) fun id => (t.get? id).bind (·.boundVariable? name) :=
  lookup_eq .value name (·.vars) (fun binding => .inl binding.target) (fun _ => rfl) s

theorem lookupType_eq (s : ScopeId) (name : Atom) :
    t.lookupType s name =
      answer (t.taker? .type name s) fun id => (t.get? id).bind (·.boundType? name) :=
  lookup_eq .type name (·.types) (fun binding => .inr binding.target) (fun _ => rfl) s

/-! ## Innermost bindings -/

/-- The scopes between a scope and one on its chain may be left out if they do not bind the
name. -/
theorem innermost?_eq_of_between (ht : t.Nested) {space : Namespace} {name : Atom}
    {s id : ScopeId} (hid : id ∈ t.chain s)
    (h : ∀ mid ∈ t.chain s, id.index < mid.index →
      (t.get? mid).bind (·.target? space name) = none) :
    t.innermost? space name s = t.innermost? space name id := by
  induction s using ht.induction with
  | step s ih =>
    rcases (mem_chain_iff ht id s).1 hid with rfl | ⟨o, ho, hmem⟩
    · rfl
    · have hlt : id.index < s.index :=
        Nat.lt_of_le_of_lt (index_le_of_mem_chain ht hmem) (ht s o ho)
      have hs := h s (mem_chain_self ht s) hlt
      have hrest := ih o ho hmem fun mid hmid hltm =>
        h mid (mem_chain_outer ht ho hmid) hltm
      unfold innermost? at hrest ⊢
      rw [outward_eq ht, hs, ho]
      exact hrest

/-- Before the scope that takes a name, no scope of the chain takes it. -/
theorem not_takes_before_taker? (ht : t.Nested) {space : Namespace} {name : Atom}
    {s id mid : ScopeId} (h : t.taker? space name s = some id) (hmid : mid ∈ t.chain s)
    (hlt : id.index < mid.index) : (t.get? mid).any (·.takes space name) = false := by
  induction s using ht.induction with
  | step s ih =>
    unfold taker? at h
    rw [outward_eq ht] at h
    by_cases hs : (t.get? s).any (·.takes space name) = true
    · rw [if_pos hs, Option.some_or, Option.some.injEq] at h
      subst h
      have hle := index_le_of_mem_chain ht hmid
      omega
    · rw [if_neg hs, Option.none_or] at h
      obtain ⟨o, ho, hrest⟩ := Option.bind_eq_some_iff.1 h
      rcases (mem_chain_iff ht mid s).1 hmid with rfl | ⟨o', ho', hmem⟩
      · simpa using hs
      · rw [ho] at ho'
        cases ho'
        exact ih o ho hrest hmem

end ScopeTree

end DocTypes
