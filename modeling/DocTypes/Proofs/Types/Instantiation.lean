import DocTypes.Proofs.Handles.Ancestors
import DocTypes.Proofs.Types.Substitution

/-!
# Instantiation is substitution

`Store.instantiate` works on numbers. It goes through a bounded number of levels, makes types,
lists and constructed classes on its way, and brings what it makes into normal form. The type
that it gives unfolds to the structure with the substitution made, provided that every
parameter to be replaced lies within the levels that are followed (`Structure.Within`) and that
none occurs where it does not look, in what a type names (`Structure.NamesNone`). If there is no
parameter to be replaced, it gives the type itself and makes nothing, however deep the type is.

## Main statements

* `Store.Sound.instantiateTo_self`: without a parameter to be replaced, nothing happens.
* `Store.Sound.instantiateTo_substitutes`: the result has the structure of the type with the
  substitution made.
* `Store.Reached.instantiate_substitutes`: both laws, for types and for constructed classes, in
  every store that is reached.
-/

namespace DocTypes

open Structure

/-- Fields in order are their own first fields. -/
theorem TypeStore.sortedFields_eq_self {fields : List (Atom × TypeId)}
    (h : fields.Pairwise (·.1.index < ·.1.index)) : sortedFields fields = fields := by
  have hsorted := (Store.Canonical.sortedFields_spec fields).2
  refine eq_of_mem_iff_of_pairwise (fun field : Atom × TypeId => field.1.index) hsorted h ?_
  rintro ⟨label, t⟩
  rw [← lookup_eq_some_iff_mem hsorted, ← lookup_eq_some_iff_mem h, lookup_sortedFields]

namespace Store

variable {s S : Store} {f : Replacement} {sub : Substitution} {inst : TypeId → StateM Store TypeId}

/-- What a substitution puts in for the type parameters of a store, as structures. -/
def replacement (s : Store) (sub : Substitution) : Replacement := fun name node =>
  (sub.find? fun entry => s.types.key? entry.1 = some (.parameter name node)).map fun entry =>
    s.unfold entry.2

/-- A parameter is looked up in a substitution under its number. -/
theorem Canonical.replacement_of_key? (hs : s.Canonical) (sub : Substitution) {t : TypeId}
    {name : Atom} {node : NodeRef} (hkey : s.types.key? t = some (.parameter name node)) :
    s.replacement sub name node = (sub.get? t).map s.unfold := by
  induction sub with
  | nil => rfl
  | cons entry rest ih =>
    obtain ⟨u, arg⟩ := entry
    have hrest : s.replacement rest name node = (rest.lookup t).map s.unfold := ih
    rw [replacement] at hrest ⊢
    rw [Substitution.get?, List.lookup_cons, List.find?_cons]
    by_cases heq : t = u
    · subst heq
      simp [hkey]
    · have hne : ¬s.types.key? u = some (.parameter name node) :=
        fun hu => heq (hs.eq_of_key?_eq hkey hu)
      have hbeq : (t == u) = false := beq_eq_false_iff_ne.2 heq
      simpa only [hne, decide_false, hbeq] using hrest

/-! ## Nothing to replace -/

/-- The step leaves the types alone in which there is no parameter to be replaced. -/
def Spares (s : Store) (f : Replacement) (inst : TypeId → StateM Store TypeId) : Prop :=
  ∀ t, s.Known t → (s.unfold t).Within f 0 → inst t s = (t, s)

theorem onTypes_eq_of_eq {α : Type} {g : TypeStore → α × TypeStore} {x : α}
    (h : g s.types = (x, s.types)) : onTypes g s = (x, s) := by
  show ((g s.types).1, { s with types := (g s.types).2 }) = (x, s)
  rw [h]

theorem Spares.mapM (hinst : s.Spares f inst) {types : List TypeId}
    (htypes : ∀ t ∈ types, s.Known t) (h : ∀ t ∈ types, (s.unfold t).Within f 0) :
    types.mapM inst s = (types, s) := by
  induction types with
  | nil => rfl
  | cons t rest ih =>
    have hfirst : inst t s = (t, s) :=
      hinst t (htypes t List.mem_cons_self) (h t List.mem_cons_self)
    have hrest : rest.mapM inst s = (rest, s) :=
      ih (fun u hu => htypes u (List.mem_cons_of_mem _ hu)) fun u hu =>
        h u (List.mem_cons_of_mem _ hu)
    rw [List.mapM_cons, run_bind, hfirst, run_bind, hrest]
    rfl

theorem Spares.list (hs : s.Sound) (hinst : s.Spares f inst) {l : ListId} (hl : s.ListKnown l)
    (h : ∀ x ∈ (s.types.list l).map s.unfold, x.Within f 0) :
    instantiateList inst l s = (l, s) := by
  have hmap := hinst.mapM (hs.canonical.lists l) (List.forall_mem_map.1 h)
  rw [instantiateList, run_bind, run_get, run_bind, hmap]
  exact onTypes_eq_of_eq (internList_again hl rfl)

theorem Spares.cls (hs : s.Sound) (hinst : s.Spares f inst) {v : ValueId}
    (h : (s.valueStructure s.unfold v).Within f 0) : instantiateClassWith inst v s = (v, s) := by
  cases hcon : s.values.constructed? v with
  | none => exact instantiateClassWith_of_none hcon
  | some data =>
    have happ : s.values.application? v = some ⟨data.generic, data.arguments⟩ := by
      rw [ValueStore.application?, hcon, Option.map_some]
    rw [hs.valueStructure_of_application? happ] at h
    simp only [Within] at h
    have hlist : instantiateList inst data.arguments s = (data.arguments, s) :=
      hinst.list hs (hs.canonical.applicationsKnown v _ happ).2 h.2
    obtain ⟨node, hrun⟩ := @instantiateClassWith_of_some s inst v data hcon
    rw [hrun, run_bind, hlist]
    exact newConstructedClass_again hs.canonical node happ

theorem Spares.fields (hinst : s.Spares f inst) {types : List TypeId}
    {fields : List (Atom × TypeId)}
    (hkeys : types.map s.types.key? = fields.map fun field => some (.labeled field.1 field.2))
    (hfields : ∀ field ∈ fields, s.Known field.2)
    (h : ∀ field ∈ fields, (s.unfold field.2).Within f 0) :
    instantiateFields inst types s = (fields, s) := by
  induction fields generalizing types with
  | nil =>
    rw [List.map_nil, List.map_eq_nil_iff] at hkeys
    subst hkeys
    rfl
  | cons field rest ih =>
    obtain ⟨label, type⟩ := field
    obtain ⟨t, types, rfl, hkey, hkeys⟩ := List.map_eq_cons_iff.1 hkeys
    have hfirst : inst type s = (type, s) :=
      hinst type (hfields _ List.mem_cons_self) (h _ List.mem_cons_self)
    have hrest : instantiateFields inst types s = (rest, s) :=
      ih hkeys (fun g hg => hfields g (List.mem_cons_of_mem _ hg))
        fun g hg => h g (List.mem_cons_of_mem _ hg)
    unfold instantiateFields
    rw [run_bind, run_get]
    dsimp only
    rw [hkey]
    dsimp only
    rw [run_bind, hfirst, run_bind, hrest]
    rfl

/-- The fields of a stored record, which stand in the order of their labels. -/
theorem Canonical.fields_of_record (hs : s.Canonical) {t : TypeId} {l : ListId}
    (hkey : s.types.key? t = some (.record l)) :
    ∃ fields : List (Atom × TypeId), fields.Pairwise (·.1.index < ·.1.index) ∧
      (s.types.list l).map s.types.key? = (fields.map fun field =>
        some (.labeled field.1 field.2)) ∧
      ∀ field ∈ fields, s.Known field.2 := by
  obtain ⟨fields, hsorted, hkeys⟩ := hs.normal t _ hkey
  refine ⟨fields, hsorted, hkeys, fun field hfield => ?_⟩
  have hpart : field.2 ∈ s.parts (.record l) := mem_parts_of_field hkeys hfield
  exact hs.known_of_mem_parts _ (hs.keyKnown t _ hkey) hpart

theorem Canonical.labelAll_self (hs : s.Canonical) {types : List TypeId}
    {fields : List (Atom × TypeId)}
    (hkeys : types.map s.types.key? = fields.map fun field => some (.labeled field.1 field.2)) :
    s.types.labelAll fields = (types, s.types) := by
  induction fields generalizing types with
  | nil =>
    rw [List.map_nil, List.map_eq_nil_iff] at hkeys
    subst hkeys
    rfl
  | cons field rest ih =>
    obtain ⟨label, type⟩ := field
    obtain ⟨t, types, rfl, hkey, hkeys⟩ := List.map_eq_cons_iff.1 hkeys
    unfold TypeStore.labelAll TypeStore.labeled
    rw [intern_again hs hkey]
    dsimp only
    rw [ih hkeys]

/-- A stored record is the record of its fields. -/
theorem Canonical.record_self (hs : s.Canonical) {t : TypeId} {l : ListId}
    {fields : List (Atom × TypeId)} (hkey : s.types.key? t = some (.record l))
    (hsorted : fields.Pairwise (·.1.index < ·.1.index))
    (hkeys : (s.types.list l).map s.types.key? =
      fields.map fun field => some (.labeled field.1 field.2)) :
    s.types.record fields = (t, s.types) := by
  unfold TypeStore.record
  rw [TypeStore.sortedFields_eq_self hsorted, hs.labelAll_self hkeys]
  dsimp only
  rw [internList_again (hs.keyKnown t _ hkey).1 rfl]
  exact intern_again hs hkey

/-- A stored union is the union of its members. -/
theorem Sound.union_self (hs : s.Sound) {t : TypeId} {l : ListId}
    (hkey : s.types.key? t = some (.union l)) : s.types.union (s.types.list l) = (t, s.types) := by
  have hmembers : s.types.members t = s.types.list l := by
    unfold TypeStore.members
    rw [hkey]
  have hflat : (s.types.list l).flatMap s.types.members = s.types.members t := by
    rw [hmembers]
    conv_rhs => rw [← List.flatMap_singleton' (s.types.list l)]
    refine List.flatMap_congr fun m hm => TypeStore.members_of_not_union ?_
    exact ((hs.flatUnions t l hkey).2 m hm).not_union
  rw [TypeStore.union, hflat]
  exact hs.canonical.normalUnion_members hs.flatUnions t

/-- Without a parameter to be replaced, nothing happens. -/
theorem Sound.instantiateTo_self (hs : s.Sound) (sub : Substitution) (depth : Nat) :
    s.Spares (s.replacement sub) (instantiateTo sub depth) := by
  induction depth with
  | zero => exact fun t _ _ => rfl
  | succ depth ih =>
    intro t ht h
    obtain ⟨key, hkey⟩ := Option.isSome_iff_exists.1 ht
    have hknown := hs.canonical.keyKnown t key hkey
    rw [hs.unfold_of_key? hkey] at h
    unfold instantiateTo
    split
    · rfl
    rw [run_bind, run_get]
    dsimp only
    rw [hkey]
    cases key with
    | parameter name node =>
      have hnone : sub.get? t = none := by
        simpa only [layer, Within, hs.canonical.replacement_of_key? sub hkey, Option.isSome_map,
          Nat.lt_irrefl, imp_false, Bool.not_eq_true, Option.isSome_eq_false_iff,
          Option.isNone_iff_eq_none] using h
      dsimp only
      rw [hnone]
      rfl
    | union l =>
      simp only [layer, Within, List.forall_mem_map] at h
      dsimp only
      rw [run_bind, run_get, run_bind, ih.mapM (hs.canonical.lists l) h]
      exact onTypes_eq_of_eq (hs.union_self hkey)
    | tuple l =>
      simp only [layer, Within, List.forall_mem_map] at h
      dsimp only
      rw [run_bind, run_get, run_bind, ih.mapM (hs.canonical.lists l) h]
      refine onTypes_eq_of_eq ?_
      show TypeStore.tuple s.types _ = _
      unfold TypeStore.tuple
      rw [internList_again hknown rfl]
      exact intern_again hs.canonical hkey
    | record l =>
      obtain ⟨fields, hsorted, hkeys, hfields⟩ := hs.canonical.fields_of_record hkey
      simp only [layer, Within, filterMap_field? hkeys, List.forall_mem_map] at h
      dsimp only
      rw [run_bind, run_get, run_bind, ih.fields hkeys hfields h]
      exact onTypes_eq_of_eq (hs.canonical.record_self hkey hsorted hkeys)
    | labeled label type =>
      simp only [layer, Within] at h
      dsimp only
      rw [run_bind, ih type hknown h]
      exact onTypes_eq_of_eq (intern_again hs.canonical hkey)
    | function shape =>
      obtain ⟨hparameters, hthis, hreturn, -⟩ := hknown
      simp only [layer, Within] at h
      have hlist := ih.list hs hparameters h.1
      rw [instantiateList, run_bind, run_get, run_bind] at hlist
      dsimp only
      rw [run_bind, run_get, run_bind, run_bind, hlist, run_bind, ih _ hthis h.2.1, run_bind,
        ih _ hreturn h.2.2]
      exact onTypes_eq_of_eq (intern_again hs.canonical hkey)
    | constructedInstanceOf v =>
      simp only [layer, Within] at h
      dsimp only
      rw [run_bind, ih.cls hs h]
      exact onTypes_eq_of_eq (intern_again hs.canonical hkey)
    | _ => rfl

/-! ## Parameters replaced -/

/-- The step gives the structure of a type with the substitution made, if the parameters to be
replaced lie under fewer than `n` formers, and does so in every wider store. -/
def Substitutes (s : Store) (f : Replacement) (n : Nat)
    (inst : TypeId → StateM Store TypeId) : Prop :=
  ∀ t, s.Known t → (s.unfold t).Followed f n → ∀ S, s.Widens S →
    Runs Widens S (inst t) fun u S' => S'.Known u ∧ Same (S'.unfold u) (substitute f (s.unfold t))

variable {n : Nat}

theorem Substitutes.mapM (hinst : s.Substitutes f n inst) {types : List TypeId}
    (htypes : ∀ t ∈ types, s.Known t) (h : ∀ x ∈ types.map s.unfold, x.Followed f n)
    (hS : s.Widens S) :
    Runs Widens S (types.mapM inst) fun us S' => (∀ u ∈ us, S'.Known u) ∧
      List.Forall₂ Same (us.map S'.unfold) ((types.map s.unfold).map (substitute f)) := by
  induction types generalizing S with
  | nil =>
    rw [List.mapM_nil]
    exact .pure (.refl hS.sound) ⟨fun u hu => (List.not_mem_nil hu).elim, .nil⟩
  | cons t rest ih =>
    rw [List.map_cons, List.forall_mem_cons] at h
    rw [List.mapM_cons]
    have ht := htypes t List.mem_cons_self
    refine (hinst t ht h.1 S hS).bind fun u S₁ h₁ hu => ?_
    have hrest := ih (fun v hv => htypes v (List.mem_cons_of_mem _ hv)) h.2 (hS.trans h₁)
    refine hrest.bind fun us S₂ h₂ hus => .pure (.refl h₂.sound) ⟨?_, ?_⟩
    · intro v hv
      rcases List.mem_cons.1 hv with rfl | hv
      · exact h₂.known hu.1
      · exact hus.1 v hv
    · rw [List.map_cons, List.map_cons, List.map_cons, h₂.unfold_eq h₁.sound hu.1]
      exact .cons hu.2 hus.2

theorem Substitutes.list (hs : s.Sound) (hinst : s.Substitutes f n inst) {l : ListId}
    (hl : s.ListKnown l) (h : ∀ x ∈ (s.types.list l).map s.unfold, x.Followed f n)
    (hS : s.Widens S) :
    Runs Widens S (instantiateList inst l) fun m S' => S'.ListKnown m ∧
      List.Forall₂ Same ((S'.types.list m).map S'.unfold)
        (((s.types.list l).map s.unfold).map (substitute f)) := by
  unfold instantiateList
  refine .get_bind ?_
  rw [hS.keeps.list l hl]
  refine (hinst.mapM (hs.canonical.lists l) h hS).bind fun us S₁ h₁ hus => ?_
  refine (h₁.sound.internList_widens hus.1).weaken fun m S₂ h₂ hm => ⟨hm.1, ?_⟩
  rw [hm.2, h₂.map_unfold_eq h₁.sound hus.1]
  exact hus.2

theorem Substitutes.cls (hs : s.Sound) (hinst : s.Substitutes f n inst) {v : ValueId}
    (hv : s.ValueKnown v) (h : (s.valueStructure s.unfold v).Followed f (n + 1)) (hS : s.Widens S) :
    Runs Widens S (instantiateClassWith inst v) fun w S' => S'.ValueKnown w ∧
      Same (S'.valueStructure S'.unfold w) (substitute f (s.valueStructure s.unfold v)) := by
  have happS := hS.keeps.application v hv
  cases happ : s.values.application? v with
  | none =>
    rw [happ, ValueStore.application?, Option.map_eq_none_iff] at happS
    have hstructure := hS.valueStructure_eq hs hv
    rw [Sound.valueStructure_of_none happ] at hstructure ⊢
    rw [Runs, instantiateClassWith_of_none happS]
    refine ⟨.refl hS.sound, hS.keeps.valueKnown v hv, ?_⟩
    rw [hstructure]
    simpa only [substitute] using Same.refl (.value v)
  | some x =>
    rw [happ, ValueStore.application?, Option.map_eq_some_iff] at happS
    obtain ⟨data, hcon, rfl⟩ := happS
    obtain ⟨hgeneric, harguments⟩ := hs.canonical.applicationsKnown v _ happ
    rw [hs.valueStructure_of_application? happ] at h ⊢
    rw [followed_applied] at h
    simp only [substitute]
    obtain ⟨node, hrun⟩ := @instantiateClassWith_of_some S inst v data hcon
    refine .of_eq hrun ?_
    refine (hinst.list hs harguments h.2 hS).bind fun l S₁ h₁ hl => ?_
    have hwidens := hS.trans h₁
    have hgeneric₁ : S₁.ValueKnown data.generic := hwidens.keeps.valueKnown _ hgeneric
    refine (h₁.sound.newConstructedClass_widens node hgeneric₁ hl.1).weaken fun w S₂ h₂ hw => ?_
    refine ⟨hw.1, ?_⟩
    rw [hw.2, hwidens.valueStructure_eq hs hgeneric]
    -- no parameter is replaced in the class that is applied
    have hsame := substitute_of_within_zero (hs.normal_valueStructure data.generic) h.1
    exact same_applied_iff.2 ⟨_, _, rfl, hsame.symm, hl.2⟩

theorem Substitutes.fields (hinst : s.Substitutes f n inst) {types : List TypeId}
    {fields : List (Atom × TypeId)}
    (hkeys : types.map s.types.key? = fields.map fun field => some (.labeled field.1 field.2))
    (hfields : ∀ field ∈ fields, s.Known field.2)
    (h : ∀ field ∈ fields, (s.unfold field.2).Followed f n) (hS : s.Widens S) :
    Runs Widens S (instantiateFields inst types) fun entries S' =>
      (∀ entry ∈ entries, S'.Known entry.2) ∧
        List.Forall₂ (fun x y => x.1 = y.1 ∧ Same x.2 y.2)
          (entries.map fun entry => (entry.1, S'.unfold entry.2))
          (fields.map fun field => (field.1, substitute f (s.unfold field.2))) := by
  induction fields generalizing types S with
  | nil =>
    rw [List.map_nil, List.map_eq_nil_iff] at hkeys
    subst hkeys
    exact .pure (.refl hS.sound) ⟨fun entry hentry => (List.not_mem_nil hentry).elim, .nil⟩
  | cons field rest ih =>
    obtain ⟨label, type⟩ := field
    obtain ⟨t, types, rfl, hkey, hkeys⟩ := List.map_eq_cons_iff.1 hkeys
    have hkeyS : S.types.key? t = some (.labeled label type) := hS.keeps.key t _ hkey
    unfold instantiateFields
    refine .get_bind ?_
    rw [hkeyS]
    dsimp only
    have hfirst := hinst type (hfields _ List.mem_cons_self) (h _ List.mem_cons_self) S hS
    refine hfirst.bind fun u S₁ h₁ hu => ?_
    have hrest := ih hkeys (fun g hg => hfields g (List.mem_cons_of_mem _ hg))
      (fun g hg => h g (List.mem_cons_of_mem _ hg)) (hS.trans h₁)
    refine hrest.bind fun entries S₂ h₂ hentries => .pure (.refl h₂.sound) ⟨?_, ?_⟩
    · rintro entry (_ | ⟨_, hentry⟩)
      · exact h₂.known hu.1
      · exact hentries.1 entry hentry
    · rw [List.map_cons, List.map_cons, h₂.unfold_eq h₁.sound hu.1]
      exact .cons ⟨rfl, hu.2⟩ hentries.2

/-- A type in which nothing is to be replaced has the structure with the substitution made. -/
theorem Sound.pure_substitutes (hs : s.Sound) {t : TypeId} (ht : s.Known t)
    (h : (s.unfold t).Within f 0) (hS : s.Widens S) :
    Runs Widens S (pure t) fun u S' =>
      S'.Known u ∧ Same (S'.unfold u) (substitute f (s.unfold t)) := by
  refine .pure (.refl hS.sound) ⟨hS.known ht, ?_⟩
  rw [hS.unfold_eq hs ht]
  exact (substitute_of_within_zero (hs.normal_unfold ht) h).symm

/-- An intrinsic type is no parameter. -/
theorem Sound.within_of_isIntrinsic (hs : s.Sound) {t : TypeId} (ht : s.Known t)
    (hi : t.isIntrinsic = true) : (s.unfold t).Within f 0 := by
  obtain ⟨key, hkey⟩ := Option.isSome_iff_exists.1 ht
  rw [hs.unfold_of_key? hkey]
  rw [TypeStore.key?, if_pos hi] at hkey
  have hsome := isSome_intrinsic? hkey
  cases key <;> simp_all [TypeKey.intrinsic?, layer, Within]

/-- The result has the structure of the type with the substitution made. -/
theorem Sound.instantiateTo_substitutes (hs : s.Sound) (hsub : s.SubstitutionKnown sub)
    (depth : Nat) : s.Substitutes (s.replacement sub) depth (instantiateTo sub depth) := by
  induction depth with
  | zero => exact fun t ht h S hS => hs.pure_substitutes ht (followed_zero.1 h) hS
  | succ depth ih =>
    intro t ht h S hS
    unfold instantiateTo
    refine .ite (fun hstop => hs.pure_substitutes ht ?_ hS) fun _ => .get_bind ?_
    · rcases Bool.or_eq_true_iff.1 hstop with hempty | hintrinsic
      · rw [List.isEmpty_iff] at hempty
        subst hempty
        exact within_of_none (fun _ _ => rfl) 0 _
      · exact hs.within_of_isIntrinsic ht hintrinsic
    obtain ⟨key, hkey⟩ := Option.isSome_iff_exists.1 ht
    have hknown := hs.canonical.keyKnown t key hkey
    have hstays := hs.pure_substitutes (f := s.replacement sub) (S := S) ht
    rw [hS.keeps.key t key hkey]
    rw [hs.unfold_of_key? hkey] at h hstays ⊢
    cases key with
    | parameter name node =>
      dsimp only
      simp only [layer, substitute, hs.canonical.replacement_of_key? sub hkey]
      cases hget : sub.get? t with
      | none =>
        refine .pure (.refl hS.sound) ⟨hS.known ht, ?_⟩
        rw [Option.getD_none, hS.unfold_eq hs ht, hs.unfold_of_key? hkey]
        exact .refl _
      | some u =>
        have hu : s.Known u := hsub (t, u) (mem_of_lookup_eq_some hget)
        refine .pure (.refl hS.sound) ⟨hS.known hu, ?_⟩
        rw [Option.getD_some, hS.unfold_eq hs hu]
        exact .refl _
    | union l =>
      simp only [layer, followed_union] at h
      simp only [layer, substitute]
      refine .get_bind ?_
      rw [hS.keeps.list l hknown]
      refine (ih.mapM (hs.canonical.lists l) h hS).bind fun us S₁ h₁ hus => ?_
      refine (h₁.sound.union_widens hus.1).weaken fun u S₂ h₂ hu => ⟨hu.1, ?_⟩
      exact hu.2.trans (unite_congr (.of_forall₂ hus.2))
    | tuple l =>
      simp only [layer, followed_tuple] at h
      simp only [layer, substitute]
      refine .get_bind ?_
      rw [hS.keeps.list l hknown]
      refine (ih.mapM (hs.canonical.lists l) h hS).bind fun us S₁ h₁ hus => ?_
      refine (h₁.sound.tuple_widens hus.1).weaken fun u S₂ h₂ hu => ⟨hu.1, ?_⟩
      rw [hu.2]
      exact same_tuple_iff.2 ⟨_, rfl, hus.2⟩
    | record l =>
      obtain ⟨fields, -, hkeys, hfields⟩ := hs.canonical.fields_of_record hkey
      simp only [layer, followed_record, filterMap_field? hkeys, List.forall_mem_map] at h
      simp only [layer, substitute, filterMap_field? hkeys, List.map_map]
      refine .get_bind ?_
      rw [hS.keeps.list l hknown.1]
      refine (ih.fields hkeys hfields h hS).bind fun entries S₁ h₁ hentries => ?_
      refine (h₁.sound.record_widens hentries.1).weaken fun u S₂ h₂ hu => ⟨hu.1, hu.2.trans ?_⟩
      exact same_record_iff.2 ⟨_, rfl, sameFields_of_forall₂ hentries.2⟩
    | labeled label type =>
      simp only [layer, followed_labeled] at h
      simp only [layer, substitute]
      refine (ih type hknown h S hS).bind fun u S₁ h₁ hu => ?_
      refine (h₁.sound.labeled_widens label hu.1).weaken fun w S₂ h₂ hw => ⟨hw.1, ?_⟩
      rw [hw.2]
      exact same_labeled_iff.2 ⟨_, rfl, hu.2⟩
    | function shape =>
      obtain ⟨hparameters, hthis, hreturn, htemplates⟩ := hknown
      simp only [layer, followed_function] at h
      simp only [layer, substitute]
      refine .get_bind ?_
      rw [hS.keeps.list _ hparameters]
      refine (ih.mapM (hs.canonical.lists _) h.1 hS).bind fun us S₁ h₁ hus => ?_
      refine (h₁.sound.internList_widens hus.1).bind fun l S₂ h₂ hl => ?_
      have h₂' := hS.trans (h₁.trans h₂)
      refine (ih _ hthis h.2.1 S₂ h₂').bind fun this S₃ h₃ hthis' => ?_
      have h₃' := h₂'.trans h₃
      refine (ih _ hreturn h.2.2 S₃ h₃').bind fun result S₄ h₄ hresult => ?_
      have h₄' := h₃'.trans h₄
      have hl₄ : S₂.Widens S₄ := h₃.trans h₄
      have hshape : S₄.KeyKnown (.function
          { shape with parameters := l, thisType := this, returnType := result }) :=
        ⟨hl₄.keeps.listKnown l hl.1, h₄.known hthis'.1, hresult.1, h₄'.keeps.listKnown _ htemplates⟩
      refine (h₄.sound.function_widens hshape).weaken fun u S₅ h₅ hu => ⟨hu.1, ?_⟩
      rw [hu.2]
      refine same_function_iff.2 ⟨_, _, _, _, rfl, ?_, ?_, hresult.2, ?_⟩
      · rw [hl₄.keeps.list l hl.1, hl.2, (h₂.trans hl₄).map_unfold_eq h₁.sound hus.1]
        exact hus.2
      · rw [h₄.unfold_eq h₃.sound hthis'.1]
        exact hthis'.2
      · rw [h₄'.keeps.list _ htemplates, h₄'.map_unfold_eq hs (hs.canonical.lists _)]
        exact List.forall₂_same.2 fun x _ => .refl x
    | constructedInstanceOf v =>
      simp only [layer, followed_constructedInstanceOf] at h
      simp only [layer, substitute]
      refine (ih.cls hs hknown h hS).bind fun w S₁ h₁ hw => ?_
      refine (h₁.sound.constructedInstanceOf_widens hw.1).weaken fun u S₂ h₂ hu => ⟨hu.1, ?_⟩
      rw [hu.2]
      exact same_constructedInstanceOf_iff.2 ⟨_, rfl, hw.2⟩
    | instanceOf v =>
      simp only [layer, Within, followed_instanceOf] at h hstays
      exact hstays h hS
    | reference v =>
      simp only [layer, Within, followed_reference] at h hstays
      exact hstays h hS
    | _ =>
      simp only [layer, Within] at hstays
      exact hstays trivial hS

/-- **Instantiation is simultaneous substitution.** Take a store that is reached, and put known
types in for type parameters. Where every parameter to be replaced lies under fewer formers than
levels are followed, and none occurs in what a type of plain instances, a reference or an
application names, the type that comes out unfolds to the structure with the substitution made.
Where there is none, the type itself comes out, and nothing is made. The same holds of the
classes that are applied to types. -/
theorem Reached.instantiate_substitutes (h : s.Reached) (hsub : s.SubstitutionKnown sub) :
    let f := s.replacement sub
    (∀ t, s.Known t →
      ((s.unfold t).Within f instantiationDepth → (s.unfold t).NamesNone f →
        Runs Widens s (instantiate sub t) fun u s' =>
          s'.Known u ∧ Same (s'.unfold u) (substitute f (s.unfold t))) ∧
      ((s.unfold t).Within f 0 → instantiate sub t s = (t, s))) ∧
    ∀ v, s.ValueKnown v →
      ((s.valueStructure s.unfold v).Within f (instantiationDepth + 1) →
        (s.valueStructure s.unfold v).NamesNone f →
        Runs Widens s (instantiateClass sub v) fun w s' => s'.ValueKnown w ∧
          Same (s'.valueStructure s'.unfold w) (substitute f (s.valueStructure s.unfold v))) ∧
      ((s.valueStructure s.unfold v).Within f 0 → instantiateClass sub v s = (v, s)) := by
  intro f
  have hs := h.sound
  have hsubstitutes := hs.instantiateTo_substitutes hsub instantiationDepth
  have hspares := hs.instantiateTo_self sub instantiationDepth
  refine ⟨fun t ht => ⟨fun hwithin hnames => ?_, fun hwithin => ?_⟩,
    fun v hv => ⟨fun hwithin hnames => ?_, fun hwithin => ?_⟩⟩
  · exact hsubstitutes t ht ⟨hwithin, hnames⟩ s (.refl hs)
  · exact hspares t ht hwithin
  · exact hsubstitutes.cls hs hv ⟨hwithin, hnames⟩ (.refl hs)
  · exact hspares.cls hs hwithin

/-- A type parameter, its union with the numbers, and a class applied to the parameter. -/
def optionOperations : List Operation :=
  [.parameter ⟨1⟩ (some 3), .union [⟨1000⟩, .number], .newClass none .ordinary "Box" [⟨1000⟩],
    .internList [⟨1000⟩], .newConstructedClass none ⟨1000⟩ ⟨2⟩]

/-- With numbers for the parameter the union collapses and the class is applied to numbers, and
with something for another parameter the union is left as it is. -/
theorem option_instantiate_substitutes :
    let s := Operation.runAll (Store.new ⟨0⟩) optionOperations
    let numbers : Substitution := [(⟨1000⟩, .number)]
    s.Reached ∧
      (Runs Widens s (instantiate numbers ⟨1001⟩) fun u s' =>
        s'.Known u ∧ Same (s'.unfold u) (.leaf (.primitive .number))) ∧
      (Runs Widens s (instantiateClass numbers ⟨1002⟩) fun v s' => s'.ValueKnown v ∧
        Same (s'.valueStructure s'.unfold v)
          (.applied (.value ⟨1000⟩) [.leaf (.primitive .number)])) ∧
      instantiate [(⟨1003⟩, .number)] ⟨1001⟩ s = (⟨1001⟩, s) := by
  intro s numbers
  have hops : Operation.AllAdmissible (Store.new ⟨0⟩) optionOperations := by
    refine ⟨trivial, ?_, ?_, ?_, ⟨rfl, rfl⟩, trivial⟩ <;> intro t ht
    · simp only [List.mem_cons, List.not_mem_nil, or_false] at ht
      rcases ht with rfl | rfl <;> rfl
    · rw [List.mem_singleton.1 ht]
      rfl
    · rw [List.mem_singleton.1 ht]
      rfl
  have hreached : s.Reached := (Reached.new ⟨0⟩).runAll hops
  have hknown (t : TypeId) : s.SubstitutionKnown [(t, .number)] := by
    intro entry hentry
    exact List.mem_singleton.1 hentry ▸ rfl
  have hunion : s.unfold ⟨1001⟩ =
      .union [.leaf (.primitive .number), .leaf (.parameter ⟨1⟩ (some 3))] := rfl
  have hclass : s.valueStructure s.unfold ⟨1002⟩ =
      .applied (.value ⟨1000⟩) [.leaf (.parameter ⟨1⟩ (some 3))] := rfl
  have hnumber : s.replacement [(⟨1000⟩, .number)] ⟨1⟩ (some 3) =
      some (.leaf (.primitive .number)) := rfl
  have hother : s.replacement [(⟨1003⟩, .number)] ⟨1⟩ (some 3) = none := rfl
  obtain ⟨htypes, hclasses⟩ := hreached.instantiate_substitutes (hknown ⟨1000⟩)
  refine ⟨hreached, ?_, ?_, ?_⟩
  · refine ((htypes ⟨1001⟩ rfl).1 ?_ ?_).weaken fun u s' _ h => ⟨h.1, h.2.trans ?_⟩
    · simp [hunion, Within, instantiationDepth]
    · simp [hunion, NamesNone]
    · rw [hunion]
      simp only [substitute, List.map_cons, List.map_nil, hnumber, Option.getD_some]
      refine normalUnite_of_sole (x := .leaf (.primitive .number)) ?_ ?_ ?_
      all_goals simp [members, mem_kept, same_leaf_iff]
  · refine ((hclasses ⟨1002⟩ rfl).1 ?_ ?_).weaken fun v s' _ h => ⟨h.1, ?_⟩
    · simp [hclass, Within, instantiationDepth]
    · simp [hclass, NamesNone, Within]
    · simpa [hclass, substitute, hnumber] using h.2
  · refine ((hreached.instantiate_substitutes (hknown ⟨1003⟩)).1 ⟨1001⟩ rfl).2 ?_
    simp [hunion, Within, hother]

/-- A type parameter, a class applied to it, and the type of plain instances of what
comes of that. -/
def plainInstanceOperations : List Operation :=
  [.parameter ⟨1⟩ (some 3), .newClass none .ordinary "Box" [⟨1000⟩], .internList [⟨1000⟩],
    .newConstructedClass none ⟨1000⟩ ⟨1⟩, .instanceOf ⟨1002⟩]

/-- The last type mentions the parameter, not far from the surface, in what it names. With numbers
for the parameter it is left as it is, and nothing is made. -/
theorem plainInstance_not_substituted :
    let s := Operation.runAll (Store.new ⟨0⟩) plainInstanceOperations
    let numbers : Substitution := [(⟨1000⟩, .number)]
    let f := s.replacement numbers
    s.Reached ∧ s.SubstitutionKnown numbers ∧ s.Known ⟨1001⟩ ∧
      (s.unfold ⟨1001⟩).Within f instantiationDepth ∧
      instantiate numbers ⟨1001⟩ s = (⟨1001⟩, s) ∧
      ¬Same (s.unfold ⟨1001⟩) (substitute f (s.unfold ⟨1001⟩)) := by
  intro s numbers f
  have hops : Operation.AllAdmissible (Store.new ⟨0⟩) plainInstanceOperations := by
    refine ⟨trivial, ?_, ?_, ⟨rfl, rfl⟩, rfl, trivial⟩ <;> intro t ht
    · rw [List.mem_singleton.1 ht]
      rfl
    · rw [List.mem_singleton.1 ht]
      rfl
  have hsub : s.SubstitutionKnown numbers := by
    intro entry hentry
    exact List.mem_singleton.1 hentry ▸ rfl
  have htype : s.unfold ⟨1001⟩ =
      .instanceOf (.applied (.value ⟨1000⟩) [.leaf (.parameter ⟨1⟩ (some 3))]) := rfl
  have hnumber : f ⟨1⟩ (some 3) = some (.leaf (.primitive .number)) := rfl
  refine ⟨(Reached.new ⟨0⟩).runAll hops, hsub, rfl, ?_, rfl, ?_⟩
  · simp [htype, Within, instantiationDepth]
  · rw [htype]
    simp [substitute, hnumber, same_instanceOf_iff, same_applied_iff, same_leaf_iff]

end Store

end DocTypes
