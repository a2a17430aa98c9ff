import DocTypes.Proofs.Handles.Change
import DocTypes.Proofs.Handles.Lasting
import DocTypes.TypeExpr.Meaning

/-!
# The algebra of unions

A stored union lists two or more types, none of which is a union, `*` or the empty union
(`TypeStore.FlatUnions`). Every operation keeps that, because the only keys of unions that are
interned are those of `TypeStore.normalUnion`, and what is given to it are members.

The laws of unions rest on two facts. The normal form depends on the set of types that is
given and on nothing else (`TypeStore.normalUnion_congr`). And once a union has a number, it
gets the same number in every later store, and nothing is made, so all sides of a law may be
looked at in one store in which they are all there.

## Main statements

* `Store.Canonical.flatUnions_runAll`: along every run of operations, unions stay flat.
* `TypeStore.members_normalUnion`: the members of a union are what was given, sorted and each
  once.
* `Store.union_algebra`: the laws of unions, along every run of operations.
-/

namespace DocTypes

open Structure

namespace TypeStore

variable {s : TypeStore}

/-! ## Members -/

/-- A type that a stored union may list. -/
structure Proper (s : TypeStore) (t : TypeId) : Prop where
  ne_any : t ≠ .any
  ne_nil : t ≠ .nil
  not_union : ∀ l, s.key? t ≠ some (.union l)

/-- Every stored union lists two or more types, and none of them is a union, `*` or the empty
union. -/
def FlatUnions (s : TypeStore) : Prop :=
  ∀ t l, s.key? t = some (.union l) → 2 ≤ (s.list l).length ∧ ∀ m ∈ s.list l, s.Proper m

/-- The types that a union of such a list lists: each once, in increasing order, and not the
empty union. -/
def kept (flat : List TypeId) : List TypeId := (sortedSet flat).filter (· ≠ TypeId.nil)

theorem mem_kept {flat : List TypeId} {t : TypeId} : t ∈ kept flat ↔ t ∈ flat ∧ t ≠ .nil := by
  simp only [kept, List.mem_filter, mem_sortedSet, decide_eq_true_eq]

theorem kept_pairwise (flat : List TypeId) : (kept flat).Pairwise (·.index < ·.index) :=
  (sortedSet_pairwise flat).filter _

theorem kept_eq_nil_iff {flat : List TypeId} : kept flat = [] ↔ ∀ t ∈ flat, t = .nil := by
  simp only [List.eq_nil_iff_forall_not_mem, mem_kept, not_and, Decidable.not_not]

/-- The types that are kept depend on the set of types that is given alone. -/
theorem kept_congr {xs ys : List TypeId} (h : ∀ t, t ≠ .nil → (t ∈ xs ↔ t ∈ ys)) :
    kept xs = kept ys := by
  refine eq_of_mem_iff_of_pairwise TypeId.index (kept_pairwise xs) (kept_pairwise ys) fun t => ?_
  rw [mem_kept, mem_kept]
  exact and_congr_left (h t)

/-- A list that is in order already is kept as it is. -/
theorem kept_eq_self {xs : List TypeId} (hsorted : xs.Pairwise (·.index < ·.index))
    (hnil : ∀ t ∈ xs, t ≠ .nil) : kept xs = xs := by
  refine eq_of_mem_iff_of_pairwise TypeId.index (kept_pairwise xs) hsorted fun t => ?_
  rw [mem_kept]
  exact and_iff_left_of_imp (hnil t)

theorem members_of_not_union {t : TypeId} (h : ∀ l, s.key? t ≠ some (.union l)) :
    s.members t = [t] := by
  unfold members
  split
  · next l hkey => exact absurd hkey (h l)
  · rfl

/-! ## The normal form -/

theorem normalUnion_of_any {flat : List TypeId} (h : TypeId.any ∈ flat) :
    s.normalUnion flat = (.any, s) := by
  have hset : TypeId.any ∈ sortedSet flat := mem_sortedSet.2 h
  simp only [normalUnion, if_pos hset]

theorem normalUnion_of_not_any {flat : List TypeId} (h : TypeId.any ∉ flat) :
    s.normalUnion flat = match kept flat with
      | [] => (.nil, s)
      | [t] => (t, s)
      | several => (s.internList several).2.intern (.union (s.internList several).1) := by
  have hset : TypeId.any ∉ sortedSet flat := fun hmem => h (mem_sortedSet.1 hmem)
  simp only [normalUnion, if_neg hset]
  rfl

/-- The union depends on the set of types that is given alone; next to `*` nothing else counts. -/
theorem normalUnion_congr {xs ys : List TypeId} (hany : TypeId.any ∈ xs ↔ TypeId.any ∈ ys)
    (h : TypeId.any ∉ xs → ∀ t, t ≠ .nil → (t ∈ xs ↔ t ∈ ys)) :
    s.normalUnion xs = s.normalUnion ys := by
  by_cases hxs : TypeId.any ∈ xs
  · rw [normalUnion_of_any hxs, normalUnion_of_any (hany.1 hxs)]
  · have hys : TypeId.any ∉ ys := fun hmem => hxs (hany.2 hmem)
    rw [normalUnion_of_not_any hxs, normalUnion_of_not_any hys, kept_congr (h hxs)]

/-- The union of nothing but the empty union is the empty union. -/
theorem normalUnion_of_nil {flat : List TypeId} (h : ∀ t ∈ flat, t = .nil) :
    s.normalUnion flat = (.nil, s) := by
  have hany : TypeId.any ∉ flat := fun hmem => absurd (h _ hmem) (by decide)
  rw [normalUnion_of_not_any hany, kept_eq_nil_iff.2 h]

/-- The union of one type is that type. -/
theorem normalUnion_self (t : TypeId) : s.normalUnion [t] = (t, s) := by
  by_cases hany : t = .any
  · subst hany
    exact normalUnion_of_any List.mem_cons_self
  by_cases hnil : t = .nil
  · subst hnil
    exact normalUnion_of_nil fun u hu => List.mem_singleton.1 hu
  · have hkept : kept [t] = [t] :=
      kept_eq_self (List.pairwise_singleton _ t) fun u hu => List.mem_singleton.1 hu ▸ hnil
    rw [normalUnion_of_not_any fun hmem => hany (List.mem_singleton.1 hmem).symm, hkept]

/-- The members of a union are what was given, sorted and each once. -/
theorem members_normalUnion {flat : List TypeId} (hany : TypeId.any ∉ flat)
    (hsome : kept flat ≠ []) (hflat : ∀ t ∈ flat, ∀ l, s.key? t ≠ some (.union l)) :
    (s.normalUnion flat).2.members (s.normalUnion flat).1 = kept flat := by
  rw [normalUnion_of_not_any hany]
  have hmem : ∀ t ∈ kept flat, t ∈ flat := fun t ht => (mem_kept.1 ht).1
  generalize kept flat = set at hsome hmem ⊢
  match set with
  | [] => exact absurd rfl hsome
  | [t] =>
    exact members_of_not_union (hflat t (hmem t List.mem_cons_self))
  | t :: u :: rest =>
    let listed := s.internList (t :: u :: rest)
    show (listed.2.intern (.union listed.1)).2.members (listed.2.intern (.union listed.1)).1 = _
    unfold members
    rw [key?_intern]
    show (listed.2.intern (.union listed.1)).2.list listed.1 = t :: u :: rest
    rw [list, lists_intern]
    exact s.list_internList _

/-- The members of a union that is not swallowed by `*` are what was given. -/
theorem mem_members_normalUnion {flat : List TypeId} {m : TypeId} (hany : TypeId.any ∉ flat)
    (hm : m ≠ .nil) (hflat : ∀ t ∈ flat, ∀ l, s.key? t ≠ some (.union l)) :
    m ∈ (s.normalUnion flat).2.members (s.normalUnion flat).1 ↔ m ∈ flat := by
  by_cases hsome : kept flat = []
  · have hnil := kept_eq_nil_iff.1 hsome
    rw [normalUnion_of_nil hnil]
    exact iff_of_false (fun hmem => hm (List.mem_singleton.1 hmem)) fun hmem => hm (hnil m hmem)
  · rw [members_normalUnion hany hsome hflat, mem_kept]
    exact and_iff_left hm

/-- `*` is a member of a union if it is given. -/
theorem any_mem_members_normalUnion {flat : List TypeId}
    (hflat : ∀ t ∈ flat, ∀ l, s.key? t ≠ some (.union l)) :
    .any ∈ (s.normalUnion flat).2.members (s.normalUnion flat).1 ↔ .any ∈ flat := by
  by_cases hany : TypeId.any ∈ flat
  · rw [normalUnion_of_any hany]
    exact iff_of_true List.mem_cons_self hany
  · exact mem_members_normalUnion hany (by decide) hflat

/-! ## Flat unions -/

namespace FlatUnions

/-- No member of a type is a union. -/
theorem not_union_of_mem_members (h : s.FlatUnions) {t m : TypeId} (hm : m ∈ s.members t)
    (l : ListId) : s.key? m ≠ some (.union l) := by
  unfold members at hm
  split at hm
  · next k hkey => exact ((h t k hkey).2 m hm).not_union l
  · next hnot =>
    rw [List.mem_singleton.1 hm]
    exact hnot l

theorem not_union_of_mem_flatMap (h : s.FlatUnions) {types : List TypeId} :
    ∀ m ∈ types.flatMap s.members, ∀ l, s.key? m ≠ some (.union l) := by
  intro m hm l
  obtain ⟨t, -, hm⟩ := List.mem_flatMap.1 hm
  exact h.not_union_of_mem_members hm l

/-- A type is its own only member, or a union of members that it may list. -/
theorem members_cases (h : s.FlatUnions) (t : TypeId) :
    s.members t = [t] ∨ ∀ m ∈ s.members t, s.Proper m := by
  by_cases hunion : ∃ l, s.key? t = some (.union l)
  · obtain ⟨l, hkey⟩ := hunion
    unfold members
    rw [hkey]
    exact .inr (h t l hkey).2
  · exact .inl (members_of_not_union fun l hkey => hunion ⟨l, hkey⟩)

end FlatUnions

/-! ## No new unions -/

/-- Every union was there before. -/
def SameUnions (s s' : TypeStore) : Prop :=
  ∀ t l, s'.key? t = some (.union l) → s.key? t = some (.union l)

namespace SameUnions

theorem refl (s : TypeStore) : s.SameUnions s := fun _ _ => id

theorem trans {s s' s'' : TypeStore} (h : s.SameUnions s') (h' : s'.SameUnions s'') :
    s.SameUnions s'' := fun t l hkey => h t l (h' t l hkey)

theorem intern (s : TypeStore) {key : TypeKey} (h : ∀ l, key ≠ .union l) :
    s.SameUnions (s.intern key).2 := by
  intro t l hkey
  rcases key?_intern_cases hkey with hold | ⟨_, hnew, _⟩
  · exact hold
  · exact absurd hnew.symm (h l)

theorem internList (s : TypeStore) (types : List TypeId) : s.SameUnions (s.internList types).2 :=
  refl s

theorem labelAll (s : TypeStore) (fields : List (Atom × TypeId)) :
    s.SameUnions (s.labelAll fields).2 := by
  induction fields generalizing s with
  | nil => exact refl s
  | cons field rest ih =>
    have hlabel : s.SameUnions (s.labeled field.1 field.2).2 := intern s (by simp)
    exact hlabel.trans (ih _)

theorem record (s : TypeStore) (fields : List (Atom × TypeId)) :
    s.SameUnions (s.record fields).2 :=
  ((labelAll s _).trans (internList _ _)).trans (intern _ (by simp))

theorem tuple (s : TypeStore) (elements : List TypeId) : s.SameUnions (s.tuple elements).2 :=
  (internList s elements).trans (intern _ (by simp))

end SameUnions

end TypeStore

namespace Store

variable {s s' : Store}

/-! ## Unions stay flat -/

theorem Extends.proper (h : s.Extends s') {t : TypeId} (ht : s.Known t) (hp : s.types.Proper t) :
    s'.types.Proper t :=
  ⟨hp.ne_any, hp.ne_nil, fun l => by
    rw [h.key?_eq ht]
    exact hp.not_union l⟩

/-- A store that grows keeps its unions flat if those that are new are flat. -/
theorem Canonical.flatUnions_of_extends (hs : s.Canonical) (hflat : s.types.FlatUnions)
    (h : s.Extends s') (hnew : ∀ t l, s'.types.key? t = some (.union l) → s.types.key? t = none →
      2 ≤ (s'.types.list l).length ∧ ∀ m ∈ s'.types.list l, s'.types.Proper m) :
    s'.types.FlatUnions := by
  intro t l hkey
  cases hold : s.types.key? t with
  | none => exact hnew t l hkey hold
  | some key =>
    obtain rfl : key = .union l := Option.some.inj ((h.key t key hold).symm.trans hkey)
    obtain ⟨htwo, hproper⟩ := hflat t l hold
    rw [h.list l (hs.keyKnown t _ hold)]
    exact ⟨htwo, fun m hm => h.proper (hs.lists l m hm) (hproper m hm)⟩

theorem Canonical.flatUnions_of_sameUnions (hs : s.Canonical) (hflat : s.types.FlatUnions)
    (h : s.Extends s') (hsame : s.types.SameUnions s'.types) : s'.types.FlatUnions := by
  refine hs.flatUnions_of_extends hflat h fun t l hkey hnone => ?_
  exact absurd (hnone.symm.trans (hsame t l hkey)) (by simp)

/-- The union of types that are no unions keeps unions flat. -/
theorem Canonical.flatUnions_normalUnion (hs : s.Canonical) (hflat : s.types.FlatUnions)
    {flat : List TypeId} (hknown : ∀ t ∈ flat, s.Known t)
    (hunion : ∀ t ∈ flat, ∀ l, s.types.key? t ≠ some (.union l)) :
    (s.types.normalUnion flat).2.FlatUnions := by
  by_cases hany : TypeId.any ∈ flat
  · rw [TypeStore.normalUnion_of_any hany]
    exact hflat
  have hext := (hs.normalUnion hknown).keeps
  have hproper : ∀ m ∈ TypeStore.kept flat, s.types.Proper m := by
    intro m hm
    obtain ⟨hmem, hnil⟩ := TypeStore.mem_kept.1 hm
    exact ⟨fun heq => hany (heq ▸ hmem), hnil, hunion m hmem⟩
  have hmem : ∀ m ∈ TypeStore.kept flat, s.Known m :=
    fun m hm => hknown m (TypeStore.mem_kept.1 hm).1
  rw [TypeStore.normalUnion_of_not_any hany] at hext ⊢
  generalize TypeStore.kept flat = set at hext hproper hmem ⊢
  match set with
  | [] => exact hflat
  | [t] => exact hflat
  | t :: u :: rest =>
    let listed := s.types.internList (t :: u :: rest)
    let S : Store := { s with types := (listed.2.intern (.union listed.1)).2 }
    show S.types.FlatUnions
    refine hs.flatUnions_of_extends hflat hext fun v l hkey hnone => ?_
    rcases TypeStore.key?_intern_cases hkey with hold | ⟨_, hnew, _⟩
    · exact absurd (hnone.symm.trans hold) (by simp)
    · cases hnew
      have hlist : S.types.list listed.1 = t :: u :: rest := by
        show (listed.2.intern (.union listed.1)).2.list listed.1 = _
        rw [TypeStore.list, TypeStore.lists_intern]
        exact s.types.list_internList _
      rw [hlist]
      exact ⟨by simp, fun m hm => hext.proper (hmem m hm) (hproper m hm)⟩

namespace Canonical

/-- An operation on what is there keeps unions flat. -/
theorem flatUnions_run (hs : s.Canonical) (hflat : s.types.FlatUnions) {op : Operation}
    (hop : op.Admissible s) : (op.run s).types.FlatUnions := by
  have hext := (hs.run hop).keeps
  cases op with
  | union types =>
    refine hs.flatUnions_normalUnion hflat (fun t ht => ?_) hflat.not_union_of_mem_flatMap
    obtain ⟨u, hu, ht⟩ := List.mem_flatMap.1 ht
    exact hs.known_of_mem_members (hop u hu) ht
  | removeMember t member =>
    refine hs.flatUnions_normalUnion hflat (fun u hu => ?_) fun u hu => ?_
    · exact hs.known_of_mem_members hop.1 (List.mem_of_mem_filter hu)
    · exact hflat.not_union_of_mem_members (List.mem_of_mem_filter hu)
  | instanceOf | constructedInstanceOf | reference | function | labeled | parameter | aliasOf =>
    exact hs.flatUnions_of_sameUnions hflat hext (.intern s.types (by simp))
  | tuple elements => exact hs.flatUnions_of_sameUnions hflat hext (.tuple s.types elements)
  | record fields => exact hs.flatUnions_of_sameUnions hflat hext (.record s.types fields)
  | setAliasTarget | internList =>
    exact hs.flatUnions_of_sameUnions hflat hext fun _ _ => id
  | _ => exact hflat

/-- So do operations one after another. -/
theorem flatUnions_runAll (hs : s.Canonical) (hflat : s.types.FlatUnions) {ops : List Operation}
    (hops : Operation.AllAdmissible s ops) : (Operation.runAll s ops).types.FlatUnions := by
  induction ops generalizing s with
  | nil => exact hflat
  | cons op ops ih => exact ih (hs.run hops.1).canonical (hs.flatUnions_run hflat hops.1) hops.2

end Canonical

/-- The empty store has no unions. -/
theorem flatUnions_new (prototypeName : Atom) : (Store.new prototypeName).types.FlatUnions := by
  intro t l hkey
  exact absurd (intrinsic_of_key?_new hkey).1 (by simp [TypeKey.intrinsic?])

/-! ## Laws in one store -/

/-- The members of a type stand in order. -/
theorem Canonical.members_pairwise (hs : s.Canonical) (t : TypeId) :
    (s.types.members t).Pairwise (·.index < ·.index) := by
  unfold TypeStore.members
  split
  · next l hkey => exact hs.normal t _ hkey
  · exact List.pairwise_singleton _ t

/-- A type is the union of its members. -/
theorem Canonical.normalUnion_members (hs : s.Canonical) (hflat : s.types.FlatUnions) (t : TypeId) :
    s.types.normalUnion (s.types.members t) = (t, s.types) := by
  cases hkey : s.types.key? t with
  | some key =>
    cases key with
    | union l =>
      obtain ⟨htwo, hproper⟩ := hflat t l hkey
      have hmembers : s.types.members t = s.types.list l := by
        unfold TypeStore.members
        rw [hkey]
      have hany : TypeId.any ∉ s.types.list l := fun hmem => (hproper _ hmem).ne_any rfl
      have hkept : TypeStore.kept (s.types.list l) = s.types.list l :=
        TypeStore.kept_eq_self (hmembers ▸ hs.members_pairwise t) fun m hm => (hproper m hm).ne_nil
      rw [hmembers, TypeStore.normalUnion_of_not_any hany, hkept]
      have hlist : s.types.internList (s.types.list l) = (l, s.types) :=
        internList_again (hs.keyKnown t _ hkey) rfl
      match hset : s.types.list l, htwo with
      | m :: m' :: rest, _ =>
        dsimp only
        rw [← hset, hlist]
        exact intern_again hs hkey
    | _ =>
      rw [TypeStore.members_of_not_union fun l => by simp [hkey]]
      exact TypeStore.normalUnion_self t
  | none =>
    rw [TypeStore.members_of_not_union fun l => by simp [hkey]]
    exact TypeStore.normalUnion_self t

/-- The union of unions is the union of what they are made from. -/
theorem union_union {types : TypeStore} (h : types.FlatUnions) {xs ys : List TypeId} {u v : TypeId}
    (hu : types.union xs = (u, types)) (hv : types.union ys = (v, types)) :
    types.union [u, v] = types.union (xs ++ ys) := by
  have hany (zs : List TypeId) (w : TypeId) (hw : types.union zs = (w, types)) :
      .any ∈ types.members w ↔ .any ∈ zs.flatMap types.members := by
    have hunion := @TypeStore.FlatUnions.not_union_of_mem_flatMap types h zs
    have hmem := TypeStore.any_mem_members_normalUnion hunion
    rwa [show types.normalUnion (zs.flatMap types.members) = (w, types) from hw] at hmem
  have hrest (zs : List TypeId) (w : TypeId) (hw : types.union zs = (w, types))
      (hnot : .any ∉ zs.flatMap types.members) (m : TypeId) (hm : m ≠ .nil) :
      m ∈ types.members w ↔ m ∈ zs.flatMap types.members := by
    have hmem := TypeStore.mem_members_normalUnion hnot hm h.not_union_of_mem_flatMap
    rwa [show types.normalUnion (zs.flatMap types.members) = (w, types) from hw] at hmem
  have hpair : [u, v].flatMap types.members = types.members u ++ types.members v := by simp
  unfold TypeStore.union
  rw [hpair, List.flatMap_append]
  refine TypeStore.normalUnion_congr ?_ fun hnot m hm => ?_
  · rw [List.mem_append, List.mem_append, hany xs u hu, hany ys v hv]
  · rw [List.mem_append, not_or, hany xs u hu, hany ys v hv] at hnot
    rw [List.mem_append, List.mem_append, hrest xs u hu hnot.1 m hm, hrest ys v hv hnot.2 m hm]

/-- A type without one of its members has the others. -/
theorem Canonical.members_removeMember (hs : s.Canonical) (hflat : s.types.FlatUnions)
    {t m : TypeId} (hsome : (s.types.members t).filter (· ≠ m) ≠ []) :
    (s.types.removeMember t m).2.members (s.types.removeMember t m).1 =
      (s.types.members t).filter (· ≠ m) := by
  unfold TypeStore.removeMember
  have hunion : ∀ u ∈ (s.types.members t).filter (· ≠ m), ∀ l, s.types.key? u ≠ some (.union l) :=
    fun u hu => hflat.not_union_of_mem_members (List.mem_of_mem_filter hu)
  have hsorted : ((s.types.members t).filter (· ≠ m)).Pairwise (·.index < ·.index) :=
    (hs.members_pairwise t).filter _
  rcases hflat.members_cases t with hself | hproper
  · -- nothing was removed from a type that is its own member
    have hrest : (s.types.members t).filter (· ≠ m) = [t] := by
      rw [hself] at hsome ⊢
      by_cases ht : t = m
      · simp [ht] at hsome
      · simp [ht]
    rw [hrest] at hunion ⊢
    rw [TypeStore.normalUnion_self]
    exact TypeStore.members_of_not_union (hunion t List.mem_cons_self)
  · generalize hrest : (s.types.members t).filter (· ≠ m) = rest at hsome hunion hsorted ⊢
    have hmem : ∀ u ∈ rest, s.types.Proper u :=
      fun u hu => hproper u (List.mem_of_mem_filter (hrest ▸ hu))
    have hany : TypeId.any ∉ rest := fun hmem' => (hmem _ hmem').ne_any rfl
    have hkept : TypeStore.kept rest = rest :=
      TypeStore.kept_eq_self hsorted fun u hu => (hmem u hu).ne_nil
    rw [TypeStore.members_normalUnion hany (by rwa [hkept]) hunion, hkept]

/-- A member that was removed may be put back. -/
theorem Canonical.union_removeMember (hs : s.Canonical) (hflat : s.types.FlatUnions)
    {t m r : TypeId} (hm : m ∈ s.types.members t) (hany : m ≠ .any)
    (hr : s.types.removeMember t m = (r, s.types)) :
    s.types.union [r, m] = (t, s.types) := by
  have hunion : ∀ u ∈ (s.types.members t).filter (· ≠ m), ∀ l, s.types.key? u ≠ some (.union l) :=
    fun u hu => hflat.not_union_of_mem_members (List.mem_of_mem_filter hu)
  have hnot : TypeId.any ∉ s.types.members t := by
    intro hmem
    rcases hflat.members_cases t with hself | hproper
    · rw [hself, List.mem_singleton] at hmem hm
      exact hany (hm.trans hmem.symm)
    · exact (hproper _ hmem).ne_any rfl
  have hself : s.types.members m = [m] :=
    TypeStore.members_of_not_union (hflat.not_union_of_mem_members hm)
  have hrest (u : TypeId) (hu : u ≠ .nil) :
      u ∈ s.types.members r ↔ u ∈ (s.types.members t).filter (· ≠ m) := by
    have hmem := TypeStore.mem_members_normalUnion
      (fun hmem => hnot (List.mem_of_mem_filter hmem)) hu hunion
    rwa [show s.types.normalUnion _ = (r, s.types) from hr] at hmem
  have hflatMap : [r, m].flatMap s.types.members = s.types.members r ++ [m] := by simp [hself]
  rw [TypeStore.union, hflatMap, ← hs.normalUnion_members hflat t]
  have hsame (u : TypeId) (hu : u ≠ .nil) :
      u ∈ s.types.members r ++ [m] ↔ u ∈ s.types.members t := by
    rw [List.mem_append, hrest u hu, List.mem_singleton, List.mem_filter, decide_eq_true_eq]
    by_cases hum : u = m
    · simp [hum, hm]
    · simp [hum]
  exact TypeStore.normalUnion_congr (hsame .any (by decide)) fun _ => hsame

end Store

/-! ## Laws in a store that grows -/

/-- What the union of a list of types has to be, in terms of the members that the types in the
list have. -/
structure TypeStore.IsUnion (s : TypeStore) (types : List TypeId) (r : TypeId × TypeStore) :
    Prop where
  any : .any ∈ types.flatMap s.members → r.1 = .any
  none : (∀ t ∈ types.flatMap s.members, t = .nil) → r.1 = .nil
  sole : ∀ t, (∀ m, m ∈ types.flatMap s.members ∧ m ≠ .nil ↔ m = t) → r.1 = t
  sorted : (r.2.members r.1).Pairwise (·.index < ·.index)
  members : .any ∉ types.flatMap s.members → (∃ t ∈ types.flatMap s.members, t ≠ .nil) →
    ∀ m, m ∈ r.2.members r.1 ↔ m ∈ types.flatMap s.members ∧ m ≠ .nil

namespace Store

variable {s S : Store}

open Operation TypeStore

theorem Canonical.isUnion (hs : s.Canonical) (hflat : s.types.FlatUnions) {types : List TypeId}
    (htypes : ∀ t ∈ types, s.Known t) : s.types.IsUnion types (s.types.union types) where
  any hany := congrArg Prod.fst (normalUnion_of_any hany)
  none hnil := congrArg Prod.fst (normalUnion_of_nil hnil)
  sole t ht := by
    obtain ⟨hmem, hnil⟩ := (ht t).2 rfl
    by_cases hany : TypeId.any ∈ types.flatMap s.types.members
    · rw [← (ht .any).1 ⟨hany, by decide⟩]
      exact congrArg Prod.fst (normalUnion_of_any hany)
    · have hkept : kept (types.flatMap s.types.members) = [t] := by
        refine eq_of_mem_iff_of_pairwise TypeId.index (kept_pairwise _)
          (List.pairwise_singleton _ t) fun m => ?_
        rw [TypeStore.mem_kept, ht m, List.mem_singleton]
      rw [TypeStore.union, normalUnion_of_not_any hany, hkept]
  sorted := by
    have hgrows : s.Grows (Operation.run s (.union types)) := hs.run htypes
    exact hgrows.canonical.members_pairwise _
  members hany hsome m := by
    obtain ⟨t, ht, hnil⟩ := hsome
    have hkept : kept (types.flatMap s.types.members) ≠ [] :=
      fun hnone => hnil (kept_eq_nil_iff.1 hnone t ht)
    rw [TypeStore.union, members_normalUnion hany hkept hflat.not_union_of_mem_flatMap,
      TypeStore.mem_kept]

/-- A type without a member has the same number in every later store. -/
theorem Canonical.removeMember_again (hs : s.Canonical) {t : TypeId} (ht : s.Known t) (m : TypeId)
    (hS : S.Canonical) (h : Extends { s with types := (s.types.removeMember t m).2 } S) :
    S.types.removeMember t m = ((s.types.removeMember t m).1, S.types) := by
  have hknown : ∀ u ∈ (s.types.members t).filter (· ≠ m), s.Known u :=
    fun u hu => hs.known_of_mem_members ht (List.mem_of_mem_filter hu)
  have hgrows := hs.normalUnion hknown
  rw [TypeStore.removeMember, (hgrows.keeps.trans h).members_eq hs ht]
  exact normalUnion_again hS h

/-- **The algebra of unions.** Take a store that operations made from the empty one. No union
in it lists a union, `*` or the empty union. The union of known types is what `IsUnion` says; it
depends on the set of the types, and every later store has it under the same number. The union
of two unions is the union of all that they were made from, and the union of two types is that
of the list of both. A type without one of its members has the others, and gets the member back
in a union with it. -/
theorem union_algebra (prototypeName : Atom) (ops : List Operation)
    (hops : AllAdmissible (Store.new prototypeName) ops) :
    let s := runAll (Store.new prototypeName) ops
    (∀ t l, s.types.key? t = some (.union l) → ∀ m ∈ s.types.list l, s.types.Proper m) ∧
      (∀ types, (∀ t ∈ types, s.Known t) →
        s.types.IsUnion types (s.types.union types) ∧
          (∀ others, (∀ t, t ∈ types ↔ t ∈ others) → s.types.union others = s.types.union types) ∧
          ∀ later, AllAdmissible s (.union types :: later) →
            let S := runAll s (.union types :: later)
            S.types.union types = ((s.types.union types).1, S.types)) ∧
      (∀ xs between ys later,
        AllAdmissible s (.union xs :: between) →
        AllAdmissible (runAll s (.union xs :: between)) (.union ys :: later) →
        let s' := runAll s (.union xs :: between)
        let S := runAll s' (.union ys :: later)
        S.types.union [(s.types.union xs).1, (s'.types.union ys).1] = S.types.union (xs ++ ys)) ∧
      (∀ (x : Analysis) t u, x.store = s →
        TypeExpr.union2 t u x = ((s.types.union [t, u]).1,
          { x with store := { s with types := (s.types.union [t, u]).2 } })) ∧
      ∀ t m, s.Known t → m ≠ .nil →
        let others := (s.types.members t).filter (· ≠ m)
        let removed := s.types.removeMember t m
        (others = [] → removed.1 = .nil) ∧ (others ≠ [] → removed.2.members removed.1 = others) ∧
          (m ∈ s.types.members t → m ≠ .any → ∀ later,
            AllAdmissible s (.removeMember t m :: later) →
              let S := runAll s (.removeMember t m :: later)
              S.types.union [removed.1, m] = (t, S.types)) := by
  intro s
  have hs : s.Canonical := ((Canonical.new prototypeName).runAll hops).canonical
  have hflat : s.types.FlatUnions :=
    (Canonical.new prototypeName).flatUnions_runAll (flatUnions_new prototypeName) hops
  -- what was a union when it was made is the same union in every later store
  have hagain (s₁ : Store) (hs₁ : s₁.Canonical) (types : List TypeId) (later : List Operation)
      (hlater : AllAdmissible s₁ (.union types :: later)) :
      (runAll s₁ (.union types :: later)).types.union types =
        ((s₁.types.union types).1, (runAll s₁ (.union types :: later)).types) := by
    have hrest := (hs₁.run hlater.1).canonical.runAll hlater.2
    exact hs₁.union_again hlater.1 hrest.canonical hrest.keeps
  refine ⟨fun t l hkey => (hflat t l hkey).2, fun types htypes => ⟨hs.isUnion hflat htypes, ?_, ?_⟩,
    fun xs between ys later hxs hys => ?_, fun x t u hx => ?_, fun t m ht hm => ⟨?_, ?_, ?_⟩⟩
  · intro others hsame
    refine normalUnion_congr ?_ fun _ t _ => ?_
    · simp only [List.mem_flatMap, hsame]
    · simp only [List.mem_flatMap, hsame]
  · exact fun later hlater => hagain s hs types later hlater
  · intro s' S
    have hs' := hs.runAll hxs
    have hS := hs'.canonical.runAll hys
    have hflatS : S.types.FlatUnions :=
      hs'.canonical.flatUnions_runAll (hs.flatUnions_runAll hflat hxs) hys
    have hrest := ((hs.run hxs.1).canonical.runAll hxs.2).keeps.trans hS.keeps
    have hu : S.types.union xs = ((s.types.union xs).1, S.types) :=
      hs.union_again hxs.1 hS.canonical hrest
    exact union_union hflatS hu (hagain s' hs'.canonical ys later hys)
  · rw [← hx]
    rfl
  · intro hnone
    show (s.types.normalUnion _).1 = .nil
    rw [hnone]
    rfl
  · exact hs.members_removeMember hflat
  · intro hmem hany later hlater S
    have hrest := (hs.run hlater.1).canonical.runAll hlater.2
    have hflatS : S.types.FlatUnions := hs.flatUnions_runAll hflat hlater
    have hr := hs.removeMember_again ht m hrest.canonical hrest.keeps
    have hmembers : S.types.members t = s.types.members t :=
      (hs.runAll hlater).keeps.members_eq hs ht
    exact hrest.canonical.union_removeMember hflatS (hmembers ▸ hmem) hany hr

/-- A tuple, and the tuple or `null`. -/
def pairOperations : List Operation := [.tuple [.number], .union [⟨1000⟩, .null]]

/-- In a union of unions the nested ones are gone and `null` is there once, and `null` may be
taken out and put back. -/
theorem pair_union_algebra :
    let s := runAll (Store.new ⟨0⟩) pairOperations
    let s' := runAll s [.union [⟨1001⟩, .string]]
    let S := runAll s' [.union [.null, .nil]]
    AllAdmissible (Store.new ⟨0⟩) pairOperations ∧
      S.types.union [(s.types.union [⟨1001⟩, .string]).1, (s'.types.union [.null, .nil]).1] =
        S.types.union [⟨1001⟩, .string, .null, .nil] ∧
      (let S := runAll s [.removeMember ⟨1001⟩ .null]
       S.types.union [(s.types.removeMember ⟨1001⟩ .null).1, .null] = (⟨1001⟩, S.types)) := by
  intro s s' S
  have hknown {types : List TypeId} {s : Store} (h : types.all (fun t => (s.types.key? t).isSome)) :
      ∀ t ∈ types, s.Known t := fun t ht => List.all_eq_true.1 h t ht
  have hops : AllAdmissible (Store.new ⟨0⟩) pairOperations :=
    ⟨hknown (by decide), hknown (by decide), trivial⟩
  obtain ⟨-, -, hunion, -, hremove⟩ := union_algebra ⟨0⟩ pairOperations hops
  refine ⟨hops, ?_, ?_⟩
  · exact hunion [⟨1001⟩, .string] [] [.null, .nil] [] ⟨hknown (by decide), trivial⟩
      ⟨hknown (by decide), trivial⟩
  · obtain ⟨-, -, hback⟩ := hremove ⟨1001⟩ .null rfl (by decide)
    exact hback (by decide) (by decide) [] ⟨⟨rfl, rfl⟩, trivial⟩

end Store

end DocTypes
