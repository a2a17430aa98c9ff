import DocTypes.Proofs.Hierarchy.Passes
import DocTypes.Proofs.Types.Composition
import DocTypes.Proofs.Types.Instantiation
import DocTypes.Tree.Builder

/-!
# Inherited ancestors

The ancestors of a generic class that is applied to types are found by a search of their own,
which starts from the bases of the class with the types put in. They come to the same as the
ancestors of the class, with the types put in for its parameters in each of them. The two
searches go along with each other: where one goes from `w` to its bases, the other goes from
what `w` is carried to (`Store.Carries`) to what these bases are carried to, since putting types
in twice is putting them in once. Two ancestors of the class may be carried to one, so
repetitions are left out once more.

This asks that types are put in for every parameter that comes up on the way where it belongs
(`Store.Binds`). A base without arguments of its own stays as it is, and so do its own bases,
so a parameter of the lower class in them stays too.

## Main statements

* `Store.forall₂_basesOf`: the direct bases are the declared ones with the types put in.
* `Store.Carries.forall₂_basesOf`: one step of the search goes along with the types put in.
* `Analysis.runPasses_inherits`: the ancestors of an applied class in a run.
-/

namespace DocTypes

open Structure

namespace Store

variable {s : Store} {v w e : ValueId}

/-- The structure of a value. -/
noncomputable def structureOf (s : Store) (v : ValueId) : Structure := s.valueStructure s.unfold v

/-- The types that a class is applied to, for its type parameters. -/
def substitutionOf (s : Store) (v : ValueId) : Substitution :=
  match s.values.constructed? v with
  | some data => Substitution.ofArguments
      (((s.values.class? data.generic).map (·.typeParameters)).getD [])
        (s.types.list data.arguments)
  | none => []

/-- What a class that is applied to types puts in for type parameters. -/
def replacementOf (s : Store) (v : ValueId) : Replacement := s.replacement (s.substitutionOf v)

/-- The bases that the class behind a value declares. -/
def heritageOf (s : Store) (v : ValueId) : List ValueId :=
  ((s.values.class? (Hierarchy.baseClass s.values v)).map (·.bases)).getD []

/-- The type parameters of the class behind a value. -/
def typeParametersOf (s : Store) (v : ValueId) : List TypeId :=
  ((s.values.class? (Hierarchy.baseClass s.values v)).map (·.typeParameters)).getD []

/-- Every type parameter in the bases of a value belongs to the class behind the value. -/
def OwnParameters (s : Store) (v : ValueId) : Prop :=
  ∀ b ∈ s.heritageOf v, ∀ p ∈ (s.structureOf b).parameters,
    ∃ t ∈ s.typeParametersOf v, s.types.key? t = some (.parameter p.1 p.2)

/-- Every type parameter in the bases of `w` gets a type from `w`, or gets none from `v`. -/
def Binds (s : Store) (v w : ValueId) : Prop :=
  ∀ b ∈ s.heritageOf w, ∀ p ∈ (s.structureOf b).parameters,
    (s.replacementOf w p.1 p.2).isSome ∨ s.replacementOf v p.1 p.2 = none

/-- The type parameters in the bases of a value that get types lie within the levels that are
followed. -/
def Shallow (s : Store) (v : ValueId) : Prop :=
  ∀ b ∈ s.heritageOf v, (s.structureOf b).Followed (s.replacementOf v) (instantiationDepth + 1)

/-- The value `e` is `w` with the types put in to which `v` is applied. -/
def Carries (s : Store) (v w e : ValueId) : Prop :=
  s.ValueKnown e ∧ Same (s.structureOf e) (substitute (s.replacementOf v) (s.structureOf w))

/-- The list has what the other one is carried to, entry by entry, with repetitions left out. -/
def Inherits (s : Store) (v : ValueId) (above inherited : List ValueId) : Prop :=
  ∃ entries, List.Forall₂ (s.Carries v) above entries ∧ inherited = entries.eraseDups

/-! ## Structures of values -/

theorem Sound.eq_of_same_structureOf (hs : s.Sound) (h : Same (s.structureOf v) (s.structureOf w)) :
    v = w := by
  refine hs.canonical.eq_of_same_valueTo (Nat.lt_succ_self _) (Nat.lt_succ_self _) ?_ h
  intro t ht u hu hsame
  exact (hs.same_unfold_iff (hs.canonical.known_of_mem_valueParts ht) hu).1 hsame

theorem structureOf_of_none (h : s.values.constructed? v = none) : s.structureOf v = .value v := by
  apply Sound.valueStructure_of_none
  rw [ValueStore.application?, h, Option.map_none]

theorem structureOf_of_constructed? (hs : s.Sound) (hclosed : s.Closed) {data : ConstructedData}
    (h : s.values.constructed? v = some data) :
    s.structureOf v = .applied (.value data.generic)
      ((s.types.list data.arguments).map s.unfold) := by
  have happ : s.values.application? v = some ⟨data.generic, data.arguments⟩ := by
    rw [ValueStore.application?, h, Option.map_some]
  obtain ⟨generic, hgeneric⟩ := Option.isSome_iff_exists.1 (hclosed.named.generic v data h)
  have hclass : s.valueStructure s.unfold data.generic = .value data.generic :=
    structureOf_of_none (constructed?_of_class? hgeneric)
  rw [structureOf, hs.valueStructure_of_application? happ, hclass]

/-- A value that is applied to nothing puts nothing in. -/
theorem replacementOf_of_none (h : s.values.constructed? v = none) (name : Atom) (node : NodeRef) :
    s.replacementOf v name node = none := by
  rw [replacementOf, substitutionOf, h]
  rfl

theorem heritageOf_of_class? {data : ClassData} (h : s.values.class? v = some data) :
    s.heritageOf v = data.bases := by
  rw [heritageOf, baseClass_of_class? h, h]
  rfl

theorem heritageOf_of_constructed? {data : ConstructedData} {generic : ClassData}
    (h : s.values.constructed? v = some data)
    (hgeneric : s.values.class? data.generic = some generic) :
    s.heritageOf v = generic.bases := by
  have hbehind : Hierarchy.baseClass s.values v = data.generic := by
    rw [Hierarchy.baseClass, h]
    rfl
  rw [heritageOf, hbehind, hgeneric]
  rfl

theorem Sound.substitutionOf_known (hs : s.Sound) (v : ValueId) :
    s.SubstitutionKnown (s.substitutionOf v) := by
  unfold substitutionOf
  split
  · exact substitutionKnown_ofArguments (hs.canonical.lists _)
  · exact fun entry hentry => (List.not_mem_nil hentry).elim

/-- What is put in is normal. -/
theorem Sound.normal_replacementOf (hs : s.Sound) (v : ValueId) :
    NormalReplacement (s.replacementOf v) := by
  intro name node x hx
  obtain ⟨entry, hentry, rfl⟩ := Option.map_eq_some_iff.1 hx
  exact hs.normal_unfold (hs.substitutionOf_known v entry (List.mem_of_find?_eq_some hentry))

/-! ## The bases with the types put in -/

/-- The direct bases are the bases that the class declares, with the types put in. -/
theorem forall₂_basesOf (hs : s.Sound) (hclosed : s.Closed) (hsaturated : s.Saturated v)
    (hshallow : s.Shallow v) : List.Forall₂ (s.Carries v) (s.heritageOf v) (s.basesOf v) := by
  cases hclass : s.values.class? v with
  | some data =>
    have hbases : s.basesOf v = data.bases := by rw [basesOf, directBases_of_class? hclass]
    rw [heritageOf_of_class? hclass, hbases]
    apply List.forall₂_same.2
    intro b hb
    refine ⟨hclosed.valueKnown_of_mem_bases hclass b hb, Same.symm ?_⟩
    apply substitute_of_within_zero (hs.normal_valueStructure b)
    exact within_of_none (replacementOf_of_none (constructed?_of_class? hclass)) 0 _
  | none =>
    cases hcon : s.values.constructed? v with
    | none =>
      have hbases : s.basesOf v = [] := by rw [basesOf, directBases_of_none hclass hcon]
      have hheritage : s.heritageOf v = [] := by
        rw [heritageOf, Hierarchy.baseClass, hcon, Option.map_none, Option.getD_none, hclass]
        rfl
      rw [hbases, hheritage]
      exact .nil
    | some data =>
      obtain ⟨generic, hgeneric⟩ := Option.isSome_iff_exists.1 (hclosed.named.generic v data hcon)
      have hheritage := heritageOf_of_constructed? hcon hgeneric
      have hrun : directBases v s =
          generic.bases.mapM (instantiateClass (s.substitutionOf v)) s := by
        rw [directBases_of_constructed? hcon hgeneric]
        simp only [substitutionOf, hcon, hgeneric, Option.map_some, Option.getD_some]
      have hknown := hclosed.valueKnown_of_mem_bases hgeneric
      have hsubstitutes :=
        hs.instantiateTo_substitutes (hs.substitutionOf_known v) instantiationDepth
      have hruns : Runs Widens s (generic.bases.mapM (instantiateClass (s.substitutionOf v)))
          fun bases S => List.Forall₂ (fun b e => S.Sound ∧ S.ValueKnown e ∧
            Same (S.structureOf e) (substitute (s.replacementOf v) (s.structureOf b)))
            generic.bases bases := by
        refine .mapM_forall₂ (.refl hs) (fun b e S S' hS he => ?_) fun b hb S hS => ?_
        · refine ⟨hS.sound, hS.keeps.valueKnown e he.2.1, ?_⟩
          rw [structureOf, hS.valueStructure_eq he.1 he.2.1]
          exact he.2.2
        · have hwithin := hshallow b (hheritage ▸ hb)
          refine (hsubstitutes.cls hs (hknown b hb) hwithin hS).weaken fun e S' hS' he => ?_
          exact ⟨hS'.sound, he⟩
      have hall := hruns.2
      rw [← hrun] at hall
      rw [show (directBases v s).2 = s from hsaturated] at hall
      rw [hheritage]
      exact hall.imp fun b e he => he.2

/-! ## One step of the search -/

theorem forall₂_zip {α β γ : Type} {R : β → γ → Prop} {xs : List β} {ys : List γ} (ts : List α)
    (h : List.Forall₂ R xs ys) :
    List.Forall₂ (fun p q => p.1 = q.1 ∧ R p.2 q.2) (ts.zip xs) (ts.zip ys) := by
  induction h generalizing ts with
  | nil =>
    rw [List.zip_nil_right, List.zip_nil_right]
    exact .nil
  | cons hxy _ ih =>
    cases ts with
    | nil => exact .nil
    | cons t ts => exact .cons ⟨rfl, hxy⟩ (ih ts)

theorem rel_find? {α β : Type} {R : α → β → Prop} {P : α → Bool} {Q : β → Bool} {xs : List α}
    {ys : List β} (h : List.Forall₂ R xs ys) (hPQ : ∀ x y, R x y → P x = Q y) :
    Option.Rel R (xs.find? P) (ys.find? Q) := by
  induction h with
  | nil => exact .none
  | @cons x y xs ys hxy _ ih =>
    rw [List.find?_cons, List.find?_cons, hPQ x y hxy]
    cases Q y with
    | true => exact .some hxy
    | false => exact ih

theorem rel_map {α β γ δ : Type} {R : α → β → Prop} {S : γ → δ → Prop} {x : Option α} {y : Option β}
    {f : α → γ} {g : β → δ} (h : Option.Rel R x y) (hstep : ∀ a b, R a b → S (f a) (g b)) :
    Option.Rel S (x.map f) (y.map g) := by
  cases h with
  | none => exact .none
  | some hxy => exact .some (hstep _ _ hxy)

theorem forall₂_join {α β γ : Type} {P : α → β → Prop} {Q : α → γ → Prop} {R : β → γ → Prop}
    {xs : List α} {ys : List β} {zs : List γ} (hP : List.Forall₂ P xs ys)
    (hQ : List.Forall₂ Q xs zs)
    (h : ∀ x ∈ xs, ∀ y z, P x y → Q x z → R y z) : List.Forall₂ R ys zs := by
  induction hP generalizing zs with
  | nil =>
    cases hQ
    exact .nil
  | cons hxy _ ih =>
    cases hQ with
    | cons hxz hQ =>
      apply List.Forall₂.cons (h _ List.mem_cons_self _ _ hxy hxz)
      apply ih hQ
      intro x hx
      exact h x (List.mem_cons_of_mem _ hx)

/-- What a value is carried to is the value itself, or the same class applied to the types that
come out. -/
theorem Carries.cases (h : s.Carries v w e) (hs : s.Sound) (hclosed : s.Closed) :
    (s.values.constructed? w = none ∧ e = w) ∨
      ∃ data data', s.values.constructed? w = some data ∧ s.values.constructed? e = some data' ∧
        data'.generic = data.generic ∧
        List.Forall₂ (fun t u => Same (s.unfold u) (substitute (s.replacementOf v) (s.unfold t)))
          (s.types.list data.arguments) (s.types.list data'.arguments) := by
  have hsame := h.2
  cases hw : s.values.constructed? w with
  | none =>
    rw [structureOf_of_none hw] at hsame
    simp only [substitute] at hsame
    have heq : s.structureOf e = s.structureOf w :=
      (same_value_iff.1 hsame.symm).trans (structureOf_of_none hw).symm
    exact .inl ⟨rfl, hs.eq_of_same_structureOf (heq ▸ .refl _)⟩
  | some data =>
    rw [structureOf_of_constructed? hs hclosed hw] at hsame
    simp only [substitute] at hsame
    cases he : s.values.constructed? e with
    | none =>
      rw [structureOf_of_none he] at hsame
      cases same_value_iff.1 hsame
    | some data' =>
      rw [structureOf_of_constructed? hs hclosed he] at hsame
      obtain ⟨g, xs, heq, hgeneric, hall⟩ := same_applied_iff.1 hsame
      obtain ⟨rfl, rfl⟩ := Structure.applied.inj heq
      refine .inr ⟨data, data', rfl, rfl, ?_, ?_⟩
      · exact (Structure.value.inj (same_value_iff.1 hgeneric)).symm
      · rw [List.map_map, List.forall₂_map_left_iff, List.forall₂_map_right_iff] at hall
        exact hall.flip

theorem Carries.heritageOf_eq (h : s.Carries v w e) (hs : s.Sound) (hclosed : s.Closed) :
    s.heritageOf e = s.heritageOf w := by
  rcases h.cases hs hclosed with ⟨-, rfl⟩ | ⟨data, data', hw, he, hgeneric, -⟩
  · rfl
  · obtain ⟨generic, hclass⟩ := Option.isSome_iff_exists.1 (hclosed.named.generic w data hw)
    rw [heritageOf_of_constructed? hw hclass, heritageOf_of_constructed? he (hgeneric ▸ hclass)]

/-- The types that are put in are carried along. -/
theorem Carries.replacementOf (h : s.Carries v w e) (hs : s.Sound)
    (hclosed : s.Closed) (name : Atom)
    (node : NodeRef) :
    Option.Rel (fun x y => Same y (substitute (s.replacementOf v) x)) (s.replacementOf w name node)
      (s.replacementOf e name node) := by
  rcases h.cases hs hclosed with ⟨hw, rfl⟩ | ⟨data, data', hw, he, hgeneric, hall⟩
  · rw [replacementOf_of_none hw]
    exact .none
  · have hentries := List.forall₂_reverse_iff.2
      (forall₂_zip (((s.values.class? data.generic).map (·.typeParameters)).getD []) hall)
    have hfound :=
      rel_find? hentries (P := fun entry => s.types.key? entry.1 = some (.parameter name node))
      (Q := fun entry => s.types.key? entry.1 = some (.parameter name node)) fun x y hxy => by
        rw [hxy.1]
    simp only [Store.replacementOf, replacement, substitutionOf, hw, he, hgeneric,
      Substitution.ofArguments, Substitution.ofPairs]
    exact rel_map hfound fun x y hxy => hxy.2

/-- Where the one search goes from a value to its bases, the other goes from what the value is
carried to, and the bases are carried along. -/
theorem Carries.forall₂_basesOf (h : s.Carries v w e) (hs : s.Sound) (hclosed : s.Closed)
    (hbinds : s.Binds v w) (hw : s.Saturated w ∧ s.Shallow w) (he : s.Saturated e ∧ s.Shallow e) :
    List.Forall₂ (s.Carries v) (s.basesOf w) (s.basesOf e) := by
  have hupper := Store.forall₂_basesOf hs hclosed hw.1 hw.2
  have hlower := Store.forall₂_basesOf hs hclosed he.1 he.2
  rw [h.heritageOf_eq hs hclosed] at hlower
  apply forall₂_join hupper hlower
  intro b hb c d hc hd
  refine ⟨hd.1, hd.2.trans (Same.trans ?_ (substitute_congr hc.2).symm)⟩
  apply substitute_substitute (hs.normal_replacementOf v) (hs.normal_replacementOf w)
    (hs.normal_valueStructure b)
  rintro ⟨name, node⟩ hp
  have hrel := h.replacementOf hs hclosed name node
  have hbound := hbinds b hb _ hp
  dsimp only at hbound ⊢
  simp only [substitute]
  -- a parameter gets its type from both or from none of them
  generalize s.replacementOf w name node = x at hrel hbound ⊢
  generalize s.replacementOf e name node = y at hrel ⊢
  cases hrel with
  | none =>
    have hkept : s.replacementOf v name node = none := by simpa using hbound
    simp only [Option.getD_none, substitute, hkept]
    exact .refl _
  | some hxy => exact hxy

/-! ## The search -/

/-- The ancestors of a class that is applied to types, if they were listed, and those of the
class itself were too. -/
theorem Listed.inherits (hs : s.Sound) {order : List ValueId} {data : ConstructedData}
    {above inherited : List ValueId} (hv : s.values.constructed? v = some data)
    (habove : s.Listed order data.generic above) (hinherited : s.Listed order v inherited)
    (hbinds : ∀ w ∈ above, s.Binds v w)
    (hshallow : ∀ w, w = v ∨ w ∈ above ∨ w ∈ inherited → s.Shallow w) :
    s.Inherits v above inherited := by
  have hclosed := hinherited.store
  have hfunctional (w e e' : ValueId) (h : s.Carries v w e) (h' : s.Carries v w e') : e = e' :=
    hs.eq_of_same_structureOf (h.2.trans h'.2.symm)
  have hmem {w u : ValueId} {listed : List ValueId} (h : s.Listed order w listed) {k : Nat}
      (hk : k < order.length) (hu : u ∈ tier s.basesOf (s.basesOf w) k) : u ∈ listed := by
    rw [h.eq_tiers]
    exact mem_tiersOnce.2 ⟨k, hk, hu⟩
  -- the class has its declared bases, and they are what the search for the applied class
  -- starts from
  have hstart : List.Forall₂ (s.Carries v) (s.basesOf data.generic) (s.basesOf v) := by
    obtain ⟨generic, hgeneric⟩ := Option.isSome_iff_exists.1 (hclosed.named.generic v data hv)
    have hbases := forall₂_basesOf hs hclosed (hinherited.saturated v (.inl rfl))
      (hshallow v (.inl rfl))
    rw [heritageOf_of_constructed? hv hgeneric] at hbases
    rwa [basesOf, directBases_of_class? hgeneric]
  have hstep : ∀ k < order.length, ∀ w ∈ tier s.basesOf (s.basesOf data.generic) k,
      ∀ e ∈ tier s.basesOf (s.basesOf v) k, s.Carries v w e →
        List.Forall₂ (s.Carries v) (s.basesOf w) (s.basesOf e) := by
    intro k hk w hw e he h
    have hw := hmem habove hk hw
    have he := hmem hinherited hk he
    apply h.forall₂_basesOf hs hclosed (hbinds w hw)
    · exact ⟨habove.saturated w (.inr hw), hshallow w (.inr (.inl hw))⟩
    · exact ⟨hinherited.saturated e (.inr he), hshallow e (.inr (.inr he))⟩
  unfold Inherits
  rw [habove.eq_tiers, hinherited.eq_tiers]
  exact forall₂_tiersOnce hfunctional hstart order.length hstep

/-! ## Bases that are applied to type parameters -/

/-- The keys of the types that a value is applied to. -/
def appliedKeys (s : Store) (v : ValueId) : List (Option TypeKey) :=
  match s.values.constructed? v with
  | some data => (s.types.list data.arguments).map s.types.key?
  | none => []

/-- Whether a key is that of a type parameter. -/
def isParameterKey : Option TypeKey → Bool
  | some (.parameter _ _) => true
  | _ => false

/-- Whether the bases of a value are applied to type parameters, if to anything. -/
def hasPlainBases (s : Store) (v : ValueId) : Bool :=
  (s.heritageOf v).all fun b => (s.appliedKeys b).all isParameterKey

/-- All bases may be looked through by going through the values. -/
theorem hasPlainBases_of_ids
    (h : (s.values.ids.all fun c => (((s.values.class? c).map (·.bases)).getD []).all fun b =>
      (s.appliedKeys b).all isParameterKey) = true) (v : ValueId) : s.hasPlainBases v = true := by
  unfold hasPlainBases heritageOf
  cases hclass : s.values.class? (Hierarchy.baseClass s.values v) with
  | none => rfl
  | some data =>
    have hmem := mem_ids_of_valueKnown
      (valueKnown_of_class? (Option.isSome_iff_exists.2 ⟨data, hclass⟩))
    have hbases := List.all_eq_true.1 h _ hmem
    rwa [hclass] at hbases

theorem Sound.unfold_of_isParameterKey (hs : s.Sound) {t : TypeId}
    (h : isParameterKey (s.types.key? t) = true) :
    ∃ name node, s.types.key? t = some (.parameter name node) ∧
      s.unfold t = .leaf (.parameter name node) := by
  unfold isParameterKey at h
  split at h
  · next name node hkey =>
    refine ⟨name, node, hkey, ?_⟩
    rw [hs.unfold_of_key? hkey]
    rfl
  · cases h

/-- The structure of a value that is applied to type parameters has no others in it, and they lie
next to the surface. -/
theorem structureOf_of_appliedKeys (hs : s.Sound) (hclosed : s.Closed)
    (h : (s.appliedKeys v).all isParameterKey = true) :
    (∀ p ∈ (s.structureOf v).parameters, some (.parameter p.1 p.2) ∈ s.appliedKeys v) ∧
      ∀ f, (s.structureOf v).Followed f (instantiationDepth + 1) := by
  cases hv : s.values.constructed? v with
  | none =>
    rw [structureOf_of_none hv]
    simp [parameters, Followed, Within, NamesNone]
  | some data =>
    have hkeys : s.appliedKeys v = (s.types.list data.arguments).map s.types.key? := by
      rw [appliedKeys, hv]
    rw [hkeys, List.all_map, List.all_eq_true] at h
    rw [structureOf_of_constructed? hs hclosed hv, hkeys]
    simp only [parameters, followed_applied, List.mem_append, List.mem_flatMap, List.mem_map]
    constructor
    · rintro p (hp | ⟨_, ⟨t, ht, rfl⟩, hp⟩)
      · cases hp
      · obtain ⟨name, node, hkey, hunfold⟩ := hs.unfold_of_isParameterKey (h t ht)
        rw [hunfold] at hp
        simp only [parameters, List.mem_singleton] at hp
        exact ⟨t, ht, hp ▸ hkey⟩
    · refine fun f => ⟨by simp [Within], ?_⟩
      rintro _ ⟨t, ht, rfl⟩
      obtain ⟨name, node, -, hunfold⟩ := hs.unfold_of_isParameterKey (h t ht)
      rw [hunfold]
      simp [Followed, Within, NamesNone, instantiationDepth]

theorem shallow_of_hasPlainBases (hs : s.Sound) (hclosed : s.Closed)
    (h : s.hasPlainBases v = true) : s.Shallow v := by
  intro b hb
  exact (structureOf_of_appliedKeys hs hclosed (List.all_eq_true.1 h b hb)).2 _

theorem ownParameters_of_hasPlainBases (hs : s.Sound) (hclosed : s.Closed)
    (h : s.hasPlainBases v = true)
    (hown : ∀ b ∈ s.heritageOf v, ∀ key ∈ s.appliedKeys b,
      ∃ t ∈ s.typeParametersOf v, s.types.key? t = key) : s.OwnParameters v := by
  intro b hb p hp
  have hkeys := (structureOf_of_appliedKeys hs hclosed (List.all_eq_true.1 h b hb)).1 p hp
  exact hown b hb _ hkeys

theorem binds_of_hasPlainBases (hs : s.Sound) (hclosed : s.Closed) (h : s.hasPlainBases w = true)
    (hbinds : ∀ b ∈ s.heritageOf w, ∀ name node, some (.parameter name node) ∈ s.appliedKeys b →
      (s.replacementOf w name node).isSome) : s.Binds v w := by
  intro b hb p hp
  have hkeys := (structureOf_of_appliedKeys hs hclosed (List.all_eq_true.1 h b hb)).1 p hp
  exact .inl (hbinds b hb p.1 p.2 hkeys)

end Store

namespace Analysis

open Relation

/-- A run of the analysis reaches its stores by operations. -/
theorem Leads.reached {x y : Analysis} (h : x.Leads y) (hx : x.store.Reached) :
    y.store.Reached := by
  have hsteps := h.steps
  clear h
  induction hsteps with
  | refl => exact hx
  | tail _ hchange ih =>
    cases hchange with
    | store s h => exact ih.change h
    | _ => exact ih

theorem reached_new (a : Arena) : (new a).store.Reached :=
  (Store.Reached.new _).operation .newUndefined trivial

theorem runPasses_reached (a : Arena) (reportUndefined : Bool) (root : NodeRef) (count : Nat) :
    (runPasses a reportUndefined root count).store.Reached :=
  (runPasses_steps a reportUndefined root count).reached (reached_new a)

/-- **Inherited ancestors.** After any number of passes, let the ancestors of a generic class and
those of the class applied to types be listed. Suppose that a class that is reached from the
generic class along bases mentions in its bases type parameters alone that it is applied to
types for, or that are no parameters of the generic class, and that the parameters to be
replaced lie within the levels that are followed. Then the ancestors of the applied class are
those of the generic class with the types put in, in the same order, without the later
repetitions. -/
theorem runPasses_inherits (a : Arena) (reportUndefined : Bool) (root : NodeRef) (count : Nat)
    (v : ValueId) (data : ConstructedData) (above inherited : List ValueId) :
    let s := (runPasses a reportUndefined root count).store
    s.values.constructed? v = some data →
    s.values.ancestors? data.generic = some above → s.values.ancestors? v = some inherited →
    (∀ w ∈ above, s.Binds v w) →
    (∀ w, w = v ∨ w ∈ above ∨ w ∈ inherited → s.Shallow w) →
    s.Inherits v above inherited := by
  intro s hv habove hinherited hbinds hshallow
  obtain ⟨order, hlisted⟩ := runPasses_listed a reportUndefined root count
  have hsound := (runPasses_reached a reportUndefined root count).sound
  exact Store.Listed.inherits hsound hv (hlisted _ above habove) (hlisted v inherited hinherited)
    hbinds hshallow

/-! ## Classes that share a parameter -/

/-- Two interfaces, of which the second extends the first, and a class `C` that implements the
second one and is applied to numbers. So is a class `A` beside it. It is declared in one statement
with its base `B`, and one comment makes both of them generic and implement the second interface. -/
def sharedTree : Build NodeRef := do
  let node (kind : NodeKind) (text : String) (children : List NodeRef) : Build NodeRef := do
    Builder.place kind .empty .zero (← Builder.intern text) children
  let tag (name : String) (operands : List NodeRef) : Build NodeRef := node .jsDocTag name operands
  let template (name : String) : Build NodeRef := do tag "template" [← node .jsDocName name []]
  let applied (name argument : String) : Build NodeRef := do
    let name ← node .typeName "" [← node .identifier name []]
    let argument ← node .typeName "" [← node .identifier argument []]
    node .typeApplication "" [name, argument]
  let interface (name parameter : String) (bases : List NodeRef) : Build NodeRef := do
    let comment ← node .jsDocDocument "" ([← tag "interface" [], ← template parameter] ++ bases)
    let cls ← node .classDeclaration "" [← node .bindingName name [], none, ← node .classBody "" []]
    node .annotated "" [comment, cls]
  let value (name : String) (extended : NodeRef) : Build NodeRef := do
    let cls ← node .classExpression "" [none, extended, ← node .classBody "" []]
    node .varDeclaration "" [← node .bindingName name [], cls]
  let classes (parameter : String) (declarations : List NodeRef) : Build NodeRef := do
    let comment ← node .jsDocDocument ""
      [← tag "constructor" [], ← template parameter, ← tag "implements" [← applied "I" parameter]]
    node .annotated "" [comment, ← node .varStatement "" declarations]
  let typed (name applied : NodeRef) : Build NodeRef := do
    let comment ← node .jsDocDocument "" [← tag "type" [applied]]
    let declaration ← node .varDeclaration "" [name, none]
    node .annotated "" [comment, ← node .varStatement "" [declaration]]
  node .script ""
    [← interface "J" "V" [], ← interface "I" "U" [← tag "extends" [← applied "J" "U"]],
      ← classes "T" [← value "A" (← node .identifier "B" []), ← value "B" none],
      ← classes "S" [← value "C" none],
      ← typed (← node .bindingName "x" []) (← applied "A" "number"),
      ← typed (← node .bindingName "y" []) (← applied "C" "number")]

/-- The types of these classes. -/
def sharedTypes : Analysis :=
  runPasses (sharedTree Builder.new).2.arena true (sharedTree Builder.new).1 3

theorem sharedTypes_reached : sharedTypes.store.Reached := runPasses_reached _ _ _ _

theorem sharedTypes_closed : sharedTypes.store.Closed := (runPasses_steps _ _ _ _).closed.store

/-- What the search for the ancestors of `A`, of `C` and of the two applied classes looks up. -/
theorem sharedTypes_lookups :
    let s := sharedTypes.store
    (s.values.ids.all fun c => (((s.values.class? c).map (·.bases)).getD []).all fun b =>
        (s.appliedKeys b).all Store.isParameterKey) = true ∧
      (∀ w ∈ [⟨1012⟩, ⟨1014⟩, ⟨1019⟩, ⟨1021⟩], ∀ b ∈ s.heritageOf w, ∀ key ∈ s.appliedKeys b,
        ∃ t ∈ s.typeParametersOf w, s.types.key? t = key) ∧
      s.heritageOf ⟨1020⟩ = [⟨1018⟩] ∧ s.heritageOf ⟨1022⟩ = [] ∧
      s.appliedKeys ⟨1018⟩ = [some (.parameter ⟨39⟩ (some 15))] ∧
      (s.replacementOf ⟨1020⟩ ⟨39⟩ (some 15)).isSome = true ∧
      s.values.constructed? ⟨1023⟩ =
        some ⟨⟨1012⟩, ⟨7⟩, [⟨1014⟩, ⟨1025⟩, ⟨1019⟩, ⟨1026⟩, ⟨1021⟩], true⟩ ∧
      s.values.constructed? ⟨1024⟩ = some ⟨⟨1016⟩, ⟨7⟩, [⟨1025⟩, ⟨1026⟩], true⟩ ∧
      s.values.ancestors? ⟨1012⟩ = some [⟨1014⟩, ⟨1019⟩, ⟨1021⟩] ∧
      s.values.ancestors? ⟨1016⟩ = some [⟨1020⟩, ⟨1022⟩] ∧
      s.values.ancestors? ⟨1023⟩ = some [⟨1014⟩, ⟨1025⟩, ⟨1019⟩, ⟨1026⟩, ⟨1021⟩] ∧
      s.values.ancestors? ⟨1024⟩ = some [⟨1025⟩, ⟨1026⟩] := by
  decide +kernel

theorem sharedTypes_hasPlainBases (w : ValueId) : sharedTypes.store.hasPlainBases w = true :=
  Store.hasPlainBases_of_ids sharedTypes_lookups.1 w

theorem sharedTypes_shallow (w : ValueId) : sharedTypes.store.Shallow w :=
  Store.shallow_of_hasPlainBases sharedTypes_reached.sound sharedTypes_closed
    (sharedTypes_hasPlainBases w)

/-- The class `C` applied to numbers has the ancestors of `C`, with numbers for its parameter. -/
theorem sharedTypes_inherits :
    sharedTypes.store.values.ancestors? ⟨1016⟩ = some [⟨1020⟩, ⟨1022⟩] ∧
      sharedTypes.store.values.ancestors? ⟨1024⟩ = some [⟨1025⟩, ⟨1026⟩] ∧
      sharedTypes.store.Inherits ⟨1024⟩ [⟨1020⟩, ⟨1022⟩] [⟨1025⟩, ⟨1026⟩] := by
  obtain ⟨-, -, hlower, hupper, hkeys, hbound, -, hcls, -, habove, -, hinherited⟩ :=
    sharedTypes_lookups
  refine ⟨habove, hinherited, ?_⟩
  have hbinds : ∀ w ∈ [⟨1020⟩, ⟨1022⟩], sharedTypes.store.Binds ⟨1024⟩ w := by
    intro w hw
    apply Store.binds_of_hasPlainBases sharedTypes_reached.sound sharedTypes_closed
      (sharedTypes_hasPlainBases w)
    intro b hb name node hmem
    rcases List.mem_cons.1 hw with rfl | hw
    · rw [hlower, List.mem_singleton] at hb
      rw [hb, hkeys, List.mem_singleton] at hmem
      cases hmem
      exact hbound
    · rw [List.mem_singleton.1 hw, hupper] at hb
      cases hb
  have hshallow := sharedTypes_shallow
  unfold sharedTypes at hcls habove hinherited hbinds hshallow ⊢
  exact runPasses_inherits _ _ _ _ _ _ _ _ hcls habove hinherited hbinds fun w _ => hshallow w

/-- **A class that shares a parameter.** Every base of the class `A`, and of those above it,
mentions the type parameter of its own class alone. The same parameter belongs to `A` and to its
base `B`, which is no applied class, so `A` applied to numbers has an interface among its
ancestors both with numbers and with the parameter. -/
theorem sharedTypes_inherits_twice :
    let above : List ValueId := [⟨1014⟩, ⟨1019⟩, ⟨1021⟩]
    let inherited : List ValueId := [⟨1014⟩, ⟨1025⟩, ⟨1019⟩, ⟨1026⟩, ⟨1021⟩]
    (sharedTypes.store.values.constructed? ⟨1023⟩).map (·.generic) = some ⟨1012⟩ ∧
      sharedTypes.store.values.ancestors? ⟨1012⟩ = some above ∧
      sharedTypes.store.values.ancestors? ⟨1023⟩ = some inherited ∧
      (∀ w, w = ⟨1012⟩ ∨ w ∈ above → sharedTypes.store.OwnParameters w) ∧
      (∀ w, w = ⟨1023⟩ ∨ w ∈ above ∨ w ∈ inherited → sharedTypes.store.Shallow w) ∧
      ¬sharedTypes.store.Inherits ⟨1023⟩ above inherited := by
  intro above inherited
  obtain ⟨-, hown, -, -, -, -, hcls, -, habove, -, hinherited, -⟩ := sharedTypes_lookups
  refine ⟨?_, habove, hinherited, fun w hw => ?_, fun w _ => sharedTypes_shallow w, ?_⟩
  · rw [hcls, Option.map_some]
  · exact Store.ownParameters_of_hasPlainBases sharedTypes_reached.sound sharedTypes_closed
      (sharedTypes_hasPlainBases w) (hown w (List.mem_cons.2 hw))
  · -- there are more ancestors than entries to come from
    rintro ⟨entries, hentries, heq⟩
    have hlength : entries.length = 3 := hentries.length_eq.symm
    have hle := eraseDups_length_le entries
    rw [← heq, hlength] at hle
    simp [inherited] at hle

end Analysis

end DocTypes
