import DocTypes.Proofs.Scopes.Outward

/-!
# Scopes that grow

Once a scope is open, what its text will bind is reserved, and nothing else is bound later:
`ScopeTree.Grows` says so of two trees, one of them seen later than the other. Some type
names may be exempt. Then a name that no scope took when it was looked up is bound by none
of them in the end, and a name that some scope took is bound by no scope before that one.

## Main statements

* `ScopeTree.Grows.innermost?_of_taker?`: in the later tree a name stands for what it stands
  for from the scope that took it on.
* `ScopeTree.Grows.innermost?_eq_none`: a name that no scope took stays without a meaning.
* `Scope.target?_insertVariable`, `Scope.target?_insertType`: what a scope binds after one more
  name is bound in it.
-/

namespace DocTypes

/-- What opens a scope, and where. -/
structure Site where
  kind : ScopeKind
  node : NodeRef
  deriving DecidableEq, Repr

/-- What opened a scope. -/
def Scope.site (s : Scope) : Site := ⟨s.kind, s.node⟩

/-- A scope seen later: it is the same scope, its bindings stay, and it binds no name that it
did not bind or reserve before, but for late type names. -/
structure Scope.Grows (late : Atom → Prop) (s s' : Scope) : Prop where
  kind : s'.kind = s.kind
  node : s'.node = s.node
  outer : s'.outer = s.outer
  reserved : s'.reserved = s.reserved
  binds : ∀ space name x, s.target? space name = some x → s'.target? space name = some x
  fresh : ∀ space name, (s'.target? space name).isSome →
    s.takes space name = true ∨ (space = .type ∧ late name)

/-! ## Binding and reserving -/

theorem Bindings.lookup_insert {α : Type} (bindings : Bindings α) (name other : Atom)
    (binding : Binding α) :
    (bindings.insert name binding).lookup other =
      if other = name then (bindings.lookup name).or (some binding) else bindings.lookup other := by
  unfold Bindings.insert
  by_cases hother : other = name
  · subst hother
    rw [if_pos rfl]
    cases hbound : bindings.lookup other with
    | some old => simp [hbound]
    | none => simp [List.lookup_append, hbound]
  · rw [if_neg hother]
    split
    · rfl
    · rw [List.lookup_append]
      have hnone : List.lookup other [(name, binding)] = none := by
        rw [List.lookup_cons, beq_false_of_ne hother]
        rfl
      rw [hnone, Option.or_none]

namespace Scope

theorem target?_insertVariable (s : Scope) (name other : Atom) (binding : Binding ValueId)
    (space : Namespace) :
    (s.insertVariable name binding).target? space other =
      if space = .value ∧ other = name then
        (s.target? .value name).or (some (.inl binding.target)) else s.target? space other := by
  cases space with
  | type => rfl
  | value =>
    simp only [target?, boundVariable?, insertVariable, Bindings.lookup_insert, true_and]
    split
    · cases List.lookup name s.vars <;> rfl
    · rfl

theorem target?_insertType (s : Scope) (name other : Atom) (binding : Binding TypeId)
    (space : Namespace) :
    (s.insertType name binding).target? space other =
      if space = .type ∧ other = name then
        (s.target? .type name).or (some (.inr binding.target)) else s.target? space other := by
  cases space with
  | value => rfl
  | type =>
    simp only [target?, boundType?, insertType, Bindings.lookup_insert, true_and]
    split
    · cases List.lookup name s.types <;> rfl
    · rfl

theorem mem_reserved_reserve {s : Scope} {space : Namespace} {name : Atom} {p : Namespace × Atom} :
    p ∈ (s.reserve space name).reserved ↔ p ∈ s.reserved ∨ p = (space, name) := by
  unfold reserve
  split
  · next hmem =>
    constructor
    · exact .inl
    · rintro (h | rfl)
      · exact h
      · exact hmem
  · simp

theorem target?_reserve (s : Scope) (space : Namespace) (name : Atom) (other : Namespace)
    (otherName : Atom) :
    (s.reserve space name).target? other otherName = s.target? other otherName := by
  unfold reserve
  split <;> rfl

end Scope

namespace ScopeTree

/-- Every scope of the tree is still there and has only grown. -/
def Grows (late : Atom → Prop) (t t' : ScopeTree) : Prop :=
  ∀ s scope, t.get? s = some scope → ∃ scope', t'.get? s = some scope' ∧ scope.Grows late scope'

variable {late : Atom → Prop} {t t' t'' : ScopeTree}

/-! ## Pushing and updating -/

theorem get?_push (t : ScopeTree) (scope : Scope) (s : ScopeId) :
    (t.push scope).2.get? s = if s = (t.push scope).1 then some scope else t.get? s := by
  obtain ⟨i⟩ := s
  simp only [push, get?, Array.getElem?_push, ScopeId.mk.injEq]

theorem get?_update (t : ScopeTree) (id s : ScopeId) (f : Scope → Scope) :
    (t.update id f).get? s = if id = s then (t.get? s).map f else t.get? s := by
  have hmodify (t : ScopeTree) : get? { t with scopes := t.scopes.modify id.index f } s =
      if id = s then (t.get? s).map f else t.get? s := by
    obtain ⟨i⟩ := id
    obtain ⟨j⟩ := s
    simp only [get?, Array.getElem?_modify, ScopeId.mk.injEq]
  unfold update
  split
  · exact hmodify t
  · next hnone =>
    show t.get? s = _
    split
    · next heq =>
      subst heq
      rw [Option.not_isSome_iff_eq_none.1 hnone, Option.map_none]
    · rfl

theorem size_update (t : ScopeTree) (id : ScopeId) (f : Scope → Scope) :
    (t.update id f).size = t.size := by
  unfold update size
  split
  · exact Array.size_modify
  · rfl

theorem get?_push_of_some {s : ScopeId} {old : Scope} (scope : Scope) (h : t.get? s = some old) :
    (t.push scope).2.get? s = some old := by
  have hlt := lt_size_of_get? h
  have hne : s ≠ (t.push scope).1 := by
    intro heq
    rw [heq] at hlt
    exact Nat.lt_irrefl _ hlt
  rw [get?_push, if_neg hne, h]

theorem exists_get?_of_lt {s : ScopeId} (h : s.index < t.size) : ∃ scope, t.get? s = some scope :=
  ⟨t.scopes[s.index], Array.getElem?_eq_getElem h⟩

/-! ## Sites -/

/-- There are the same scopes, opened at the same sites. -/
def SameSites (t t' : ScopeTree) : Prop :=
  ∀ s, (t'.get? s).map Scope.site = (t.get? s).map Scope.site

/-- One scope is new, and it was opened at a site. -/
structure OpensAt (t : ScopeTree) (s : ScopeId) (site : Site) (t' : ScopeTree) : Prop where
  fresh : t.get? s = none
  sites : ∀ r, (t'.get? r).map Scope.site = if r = s then some site else (t.get? r).map Scope.site

theorem SameSites.refl (t : ScopeTree) : t.SameSites t := fun _ => rfl

theorem SameSites.trans (h : t.SameSites t') (h' : t'.SameSites t'') : t.SameSites t'' :=
  fun s => (h' s).trans (h s)

theorem sameSites_update (t : ScopeTree) (id : ScopeId) {f : Scope → Scope}
    (hf : ∀ scope, (f scope).site = scope.site) : t.SameSites (t.update id f) := by
  intro s
  rw [get?_update]
  split
  · rw [Option.map_map]
    exact congrArg (Option.map · (t.get? s)) (funext hf)
  · rfl

theorem opensAt_push (t : ScopeTree) (scope : Scope) :
    t.OpensAt (t.push scope).1 scope.site (t.push scope).2 := by
  constructor
  · exact Array.getElem?_eq_none (Nat.le_refl t.scopes.size)
  · intro r
    rw [get?_push]
    split <;> rfl

namespace OpensAt

variable {s : ScopeId} {site : Site}

/-- The scopes were there before the new one. -/
theorem after (h : t'.OpensAt s site t'') (hsame : t.SameSites t') : t.OpensAt s site t'' where
  fresh := by
    have hnone := hsame s
    rw [h.fresh, Option.map_none] at hnone
    exact Option.map_eq_none_iff.1 hnone.symm
  sites r := by rw [h.sites, hsame]

/-- The scopes go on after the new one. -/
theorem before (h : t.OpensAt s site t') (hsame : t'.SameSites t'') : t.OpensAt s site t'' :=
  ⟨h.fresh, fun r => (hsame r).trans (h.sites r)⟩

/-- The other scopes stay where they were opened. -/
theorem sites_of_isSome (h : t.OpensAt s site t') {r : ScopeId} (hr : (t.get? r).isSome) :
    (t'.get? r).map Scope.site = (t.get? r).map Scope.site := by
  have hne : r ≠ s := by
    rintro rfl
    rw [h.fresh] at hr
    cases hr
  rw [h.sites, if_neg hne]

end OpensAt

end ScopeTree

/-! ## Growing -/

namespace Scope.Grows

variable {late : Atom → Prop} {s s' s'' : Scope}

theorem takes (h : s.Grows late s') {space : Namespace} {name : Atom}
    (htakes : s'.takes space name = true) :
    s.takes space name = true ∨ (space = .type ∧ late name) := by
  unfold Scope.takes at htakes
  rw [Bool.or_eq_true] at htakes
  rcases htakes with hbound | hreserves
  · exact h.fresh space name hbound
  · refine .inl ?_
    unfold Scope.takes
    have : s.reserves space name = true := by
      rw [Scope.reserves, h.reserved] at hreserves
      exact hreserves
    rw [this, Bool.or_true]

theorem refl (s : Scope) : s.Grows late s :=
  ⟨rfl, rfl, rfl, rfl, fun _ _ _ h => h, fun space name h => .inl (by
    unfold Scope.takes
    rw [h, Bool.true_or])⟩

theorem trans (h : s.Grows late s') (h' : s'.Grows late s'') : s.Grows late s'' where
  kind := h'.kind.trans h.kind
  node := h'.node.trans h.node
  outer := h'.outer.trans h.outer
  reserved := h'.reserved.trans h.reserved
  binds space name x hx := h'.binds space name x (h.binds space name x hx)
  fresh space name hx := by
    rcases h'.fresh space name hx with htakes | hlate
    · exact h.takes htakes
    · exact .inr hlate

end Scope.Grows

namespace ScopeTree

variable {late : Atom → Prop} {t t' t'' : ScopeTree}

namespace Grows

theorem refl (t : ScopeTree) : t.Grows late t := fun _ scope h => ⟨scope, h, .refl scope⟩

theorem trans (h : t.Grows late t') (h' : t'.Grows late t'') : t.Grows late t'' := by
  intro s scope hs
  obtain ⟨scope', hs', hgrows⟩ := h s scope hs
  obtain ⟨scope'', hs'', hgrows'⟩ := h' s scope' hs'
  exact ⟨scope'', hs'', hgrows.trans hgrows'⟩

theorem outer? (h : t.Grows late t') {s : ScopeId} (hs : s.index < t.size) :
    t'.outer? s = t.outer? s := by
  obtain ⟨scope, hscope⟩ := exists_get?_of_lt hs
  obtain ⟨scope', hscope', hgrows⟩ := h s scope hscope
  simp only [ScopeTree.outer?, hscope, hscope', Option.bind_some, hgrows.outer]

theorem lt_size (h : t.Grows late t') {s : ScopeId} (hs : s.index < t.size) :
    s.index < t'.size := by
  obtain ⟨scope, hscope⟩ := exists_get?_of_lt hs
  obtain ⟨scope', hscope', -⟩ := h s scope hscope
  exact lt_size_of_get? hscope'

theorem chain (h : t.Grows late t') (ht : t.Nested) (ht' : t'.Nested) {s : ScopeId}
    (hs : s.index < t.size) : t'.chain s = t.chain s :=
  chain_congr ht ht' fun _ hid =>
    h.outer? (Nat.lt_of_le_of_lt (index_le_of_mem_chain ht hid) hs)

/-- The scopes that declarations go to stay the same. -/
theorem nearest (h : t.Grows late t') (ht : t.Nested) (ht' : t'.Nested) {s : ScopeId}
    (hs : s.index < t.size) (accept : ScopeKind → Bool) :
    t'.nearest s accept = t.nearest s accept := by
  refine nearest_congr (h.chain ht ht' hs) fun id hid => ?_
  obtain ⟨scope, hscope⟩ :=
    exists_get?_of_lt (Nat.lt_of_le_of_lt (index_le_of_mem_chain ht hid) hs)
  obtain ⟨scope', hscope', hgrows⟩ := h id scope hscope
  rw [hscope, hscope', Option.map_some, Option.map_some, hgrows.kind]

/-- A scope that did not take a name does not bind it later. -/
theorem target?_eq_none (h : t.Grows late t') {s : ScopeId} (hs : s.index < t.size)
    {space : Namespace} {name : Atom} (hname : space = .type → ¬late name)
    (htakes : (t.get? s).any (·.takes space name) = false) :
    (t'.get? s).bind (·.target? space name) = none := by
  obtain ⟨scope, hscope⟩ := exists_get?_of_lt hs
  obtain ⟨scope', hscope', hgrows⟩ := h s scope hscope
  rw [hscope', Option.bind_some]
  cases hbound : scope'.target? space name with
  | none => rfl
  | some x =>
    have hsome : (scope'.target? space name).isSome := by rw [hbound]; rfl
    rcases hgrows.fresh space name hsome with h | ⟨htype, hlate⟩
    · rw [hscope, Option.any_some, h] at htakes
      cases htakes
    · exact absurd hlate (hname htype)

/-- In the later tree a name stands for what it stands for from the scope that took it on. -/
theorem innermost?_of_taker? (h : t.Grows late t') (ht : t.Nested) (ht' : t'.Nested)
    {s id : ScopeId} (hs : s.index < t.size) {space : Namespace} {name : Atom}
    (hname : space = .type → ¬late name) (htaker : t.taker? space name s = some id) :
    t'.innermost? space name s = t'.innermost? space name id := by
  have hchain := h.chain ht ht' hs
  refine innermost?_eq_of_between ht' (hchain ▸ (mem_chain_of_taker? htaker).1) ?_
  intro mid hmid hlt
  rw [hchain] at hmid
  have hmids : mid.index < t.size := Nat.lt_of_le_of_lt (index_le_of_mem_chain ht hmid) hs
  exact h.target?_eq_none hmids hname (not_takes_before_taker? ht htaker hmid hlt)

/-- A name that no scope took stays without a meaning. -/
theorem innermost?_eq_none (h : t.Grows late t') (ht : t.Nested) (ht' : t'.Nested)
    {s : ScopeId} (hs : s.index < t.size) {space : Namespace} {name : Atom}
    (hname : space = .type → ¬late name) (htaker : t.taker? space name s = none) :
    t'.innermost? space name s = none := by
  refine outward_eq_none_iff.2 fun mid hmid => ?_
  rw [h.chain ht ht' hs] at hmid
  have hmids : mid.index < t.size := Nat.lt_of_le_of_lt (index_le_of_mem_chain ht hmid) hs
  exact h.target?_eq_none hmids hname (not_takes_of_taker?_eq_none htaker hmid)

end Grows

end ScopeTree

end DocTypes
