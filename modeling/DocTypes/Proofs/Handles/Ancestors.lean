import DocTypes.Hierarchy.Bases
import DocTypes.Hierarchy.Linearize
import DocTypes.Proofs.Handles.Lasting

/-!
# Handles in ancestor lists

Putting types in for type parameters and listing ancestors lead from closed stores to closed
stores. The types that come out are known, and so are the values that are listed.

Putting types in and looking up direct bases lasts: in any later store it gives the same types
and the same bases, and makes nothing.

## Main statements

* `Store.instantiateTo_lasts`: a type with types put in for its parameters is known.
* `Store.directBases_lasts`: the direct bases of a value are known, and the classes behind them
  are those on which the class behind the value is built.
* `Store.linearize_runs`: the ancestors that are listed are known.
* `Store.finalizeAllConstructed_runs`: listing the ancestors of constructed classes leads to a
  closed store.
-/

namespace DocTypes

namespace Store

variable {s : Store}

/-! ## The class behind a value -/

theorem baseClass_eq (values : ValueStore) (v : ValueId) :
    Hierarchy.baseClass values v = ((values.application? v).map (·.generic)).getD v := by
  rw [Hierarchy.baseClass, ValueStore.application?, Option.map_map]
  rfl

/-- The class behind a known value stays the same. -/
theorem Extends.baseClass_eq {S : Store} (h : s.Extends S) {v : ValueId} (hv : s.ValueKnown v) :
    Hierarchy.baseClass S.values v = Hierarchy.baseClass s.values v := by
  rw [Store.baseClass_eq, Store.baseClass_eq, h.application v hv]

/-! ## Putting types in for parameters -/

/-- Everything that is put in is known. -/
def SubstitutionKnown (s : Store) (sub : Substitution) : Prop := ∀ entry ∈ sub, s.Known entry.2

theorem SubstitutionKnown.mono {s' : Store} (h : s.Builds s') {sub : Substitution}
    (hsub : s.SubstitutionKnown sub) : s'.SubstitutionKnown sub :=
  fun entry hentry => h.known (hsub entry hentry)

/-- The step gives a known type for a known type, and lasts. -/
def Instantiates (inst : TypeId → StateM Store TypeId) (s : Store) : Prop :=
  ∀ s' t, s.Builds s' → s'.Known t → Lasts s' (inst t) fun u s'' => s''.Known u

theorem mapM_instantiates {inst : TypeId → StateM Store TypeId} (hs : s.Closed)
    (hinst : Instantiates inst s) {types : List TypeId} (htypes : ∀ t ∈ types, s.Known t) :
    Lasts s (types.mapM inst) fun us s' => ∀ u ∈ us, s'.Known u :=
  .mapM hs (fun _ _ _ h hu => h.known hu) fun t ht s' hs' =>
    hinst s' t hs' (hs'.known (htypes t ht))

theorem Instantiates.mono {inst : TypeId → StateM Store TypeId} {s' : Store} (h : s.Builds s')
    (hinst : Instantiates inst s) : Instantiates inst s' :=
fun s'' t hs'' => hinst s'' t (h.trans hs'')

/-- What becomes of the list of types that a class is applied to. -/
def instantiateList (inst : TypeId → StateM Store TypeId) (l : ListId) : StateM Store ListId := do
  let types ← ((← get).types.list l).mapM inst
  onTypes (·.internList types)

theorem instantiateList_lasts {inst : TypeId → StateM Store TypeId} (hs : s.Closed)
    (hinst : Instantiates inst s) {l : ListId} (hl : s.ListKnown l) :
    Lasts s (instantiateList inst l) fun m s' => s'.ListKnown m := by
  refine .get_bind ?_ fun S hS => by rw [hS.keeps.list l hl]
  refine (mapM_instantiates hs hinst (hs.canonical.lists l)).bind fun us t ht hus => ?_
  exact internList_lasts ht.closed hus

theorem instantiateClassWith_of_none {inst : TypeId → StateM Store TypeId} {cls : ValueId}
    (h : s.values.constructed? cls = none) : instantiateClassWith inst cls s = (cls, s) := by
  unfold instantiateClassWith
  rw [run_bind, run_get]
  cases hget : s.values.get? cls with
  | none => rfl
  | some value =>
    obtain ⟨node, members, data⟩ := value
    cases data with
    | constructedClass data =>
      rw [ValueStore.constructed?, hget] at h
      cases h
    | _ => rfl

theorem instantiateClassWith_of_some {inst : TypeId → StateM Store TypeId} {cls : ValueId}
    {data : ConstructedData} (h : s.values.constructed? cls = some data) :
    ∃ node, instantiateClassWith inst cls s = (instantiateList inst data.arguments >>= fun l =>
      onValues (·.newConstructedClass node data.generic l)) s := by
  obtain ⟨⟨node, members, value⟩, hget, hdata⟩ := Option.bind_eq_some_iff.1 h
  cases value with
  | constructedClass data =>
    cases hdata
    refine ⟨node, ?_⟩
    unfold instantiateClassWith
    rw [run_bind, run_get]
    dsimp only
    rw [hget]
    rfl
  | _ => cases hdata

/-- A class that is applied to other types is another constructed class of the same class. -/
theorem instantiateClassWith_lasts {inst : TypeId → StateM Store TypeId} (hs : s.Closed)
    (hinst : Instantiates inst s) {cls : ValueId} (hcls : s.ValueKnown cls) :
    Lasts s (instantiateClassWith inst cls) fun v s' =>
      s'.ValueKnown v ∧ ((s.values.constructed? cls).isSome → (s'.values.constructed? v).isSome) ∧
        Hierarchy.baseClass s'.values v = Hierarchy.baseClass s.values cls := by
  cases hcon : s.values.constructed? cls with
  | none =>
    have hpure := @instantiateClassWith_of_none s inst cls hcon
    refine ⟨?_, fun S hS => ?_⟩
    · rw [Runs, hpure]
      exact ⟨.refl hs, hcls, by simp, rfl⟩
    · rw [hpure] at hS ⊢
      exact instantiateClassWith_of_none (hS.constructed?_eq_none hcls hcon)
  | some data =>
    have hgeneric := hs.named.generic cls data hcon
    have harguments := (hs.canonical.applicationsKnown cls ⟨data.generic, data.arguments⟩ (by
      rw [ValueStore.application?, hcon, Option.map_some])).2
    obtain ⟨node, hrun⟩ := @instantiateClassWith_of_some s inst cls data hcon
    have hlist := instantiateList_lasts hs hinst harguments
    have happly := newConstructedClass_builds hlist.runs.1.closed node
      (hlist.runs.1.class? hgeneric) hlist.runs.2
    have hruns : Runs Builds s (instantiateClassWith inst cls) fun v s' =>
        s'.values.application? v =
          some ⟨data.generic, (instantiateList inst data.arguments s).1⟩ := by
      rw [Runs, hrun]
      exact ⟨hlist.runs.1.trans happly.1, happly.2⟩
    refine ⟨hruns.weaken fun v t ht hv => ⟨valueKnown_of_application? hv, fun _ => ?_, ?_⟩,
      fun S hS => ?_⟩
    · rw [← isSome_application?, hv]
      rfl
    · rw [baseClass_eq, hv, Hierarchy.baseClass, hcon]
      rfl
    · -- the same list is applied, and the constructed class is found
      obtain ⟨old, hold, heq⟩ := (hruns.1.ripens.trans hS).constructed?_eq hcon
      obtain ⟨hgen, hargs⟩ := Application.mk.inj heq
      obtain ⟨node', hagain⟩ := @instantiateClassWith_of_some S inst cls old hold
      have hlater : (instantiateList inst data.arguments s).2.Ripens S := by
        rw [hrun] at hS
        exact happly.1.ripens.trans hS
      rw [hagain, hgen, hargs, run_bind, hlist.again S hlater]
      exact newConstructedClass_again hS.closed.canonical node'
        ((hS.keeps.application _ (valueKnown_of_application? hruns.2)).trans hruns.2)

theorem instantiateFields_lasts {inst : TypeId → StateM Store TypeId} (hs : s.Closed)
    (hinst : Instantiates inst s) {fields : List TypeId} (hfields : ∀ t ∈ fields, s.Known t) :
    Lasts s (instantiateFields inst fields) fun entries s' =>
      ∀ entry ∈ entries, s'.Known entry.2 := by
  induction fields generalizing s with
  | nil => exact .pure hs fun entry hentry => (List.not_mem_nil hentry).elim
  | cons field rest ih =>
    have hrest {s' : Store} (h : s.Builds s') := ih h.closed (hinst.mono h) fun t ht =>
      h.known (hfields t (List.mem_cons_of_mem _ ht))
    unfold instantiateFields
    refine .get_bind ?_ fun S hS => by rw [hS.keeps.key?_eq (hfields field List.mem_cons_self)]
    split
    · next label type hkey =>
      have htype : s.Known type := hs.canonical.keyKnown field _ hkey
      refine (hinst s type (.refl hs) htype).bind fun u s₁ h₁ hu => ?_
      refine (hrest h₁).bind fun entries s₂ h₂ hentries => .pure h₂.closed ?_
      rintro entry (_ | ⟨_, hentry⟩)
      · exact h₂.known hu
      · exact hentries entry hentry
    · exact hrest (.refl hs)

/-- A type with types put in for its parameters is known. -/
theorem instantiateTo_lasts (hs : s.Closed) {sub : Substitution} (hsub : s.SubstitutionKnown sub)
    (depth : Nat) {t : TypeId} (ht : s.Known t) :
    Lasts s (instantiateTo sub depth t) fun u s' => s'.Known u := by
  induction depth generalizing s t with
  | zero => exact .pure hs ht
  | succ depth ih =>
    have hinst : Instantiates (instantiateTo sub depth) s :=
      fun s' u h hu => ih h.closed (hsub.mono h) hu
    unfold instantiateTo
    refine .ite (fun _ => .pure hs ht) fun _ => .get_bind ?_ fun S hS => by rw [hS.keeps.key?_eq ht]
    split
    · -- what is put in for a parameter is known, and so is a parameter that is left
      refine .pure hs ?_
      cases hget : sub.get? t with
      | none => exact ht
      | some u => exact hsub (t, u) (mem_of_lookup_eq_some hget)
    · next l hkey =>
      refine .get_bind ?_ fun S hS => by rw [hS.keeps.list l (hs.canonical.keyKnown t _ hkey)]
      refine (mapM_instantiates hs hinst (hs.canonical.lists _)).bind fun us s₁ h₁ hus => ?_
      exact union_lasts h₁.closed hus
    · next l hkey =>
      refine .get_bind ?_ fun S hS => by rw [hS.keeps.list l (hs.canonical.keyKnown t _ hkey)]
      refine (mapM_instantiates hs hinst (hs.canonical.lists _)).bind fun us s₁ h₁ hus => ?_
      exact tuple_lasts h₁.closed hus
    · next l hkey =>
      refine .get_bind ?_ fun S hS => by rw [hS.keeps.list l (hs.canonical.keyKnown t _ hkey).1]
      refine (instantiateFields_lasts hs hinst (hs.canonical.lists _)).bind ?_
      exact fun entries s₁ h₁ hentries => record_lasts h₁.closed hentries
    · next label type hkey =>
      have htype : s.Known type := hs.canonical.keyKnown t _ hkey
      exact (hinst s type (.refl hs) htype).bind fun u s₁ h₁ hu => labeled_lasts h₁.closed label hu
    · next shape hkey =>
      obtain ⟨hparameters, hthis, hreturn, htemplates⟩ := hs.canonical.keyKnown t _ hkey
      refine .get_bind ?_ fun S hS => by rw [hS.keeps.list _ hparameters]
      refine (mapM_instantiates hs hinst (hs.canonical.lists _)).bind fun us s₁ h₁ hus => ?_
      refine (internList_lasts h₁.closed hus).bind fun l s₂ h₂ hl => ?_
      have h₂' := h₁.trans h₂
      refine (hinst s₂ _ h₂' (h₂'.known hthis)).bind fun this s₃ h₃ hthis' => ?_
      have h₃' := h₂'.trans h₃
      refine (hinst s₃ _ h₃' (h₃'.known hreturn)).bind fun result s₄ h₄ hreturn' => ?_
      refine function_lasts h₄.closed ⟨?_, h₄.known hthis', hreturn', ?_⟩
      · exact h₄.listKnown (h₃.listKnown hl)
      · exact (h₃'.trans h₄).listKnown htemplates
    · next cls hkey =>
      have hcls := hs.named.constructedInstanceOf t cls hkey
      refine (instantiateClassWith_lasts hs hinst (valueKnown_of_constructed? hcls)).bind ?_
      exact fun v s₁ h₁ hv => constructedInstanceOf_lasts h₁.closed (hv.2.1 hcls)
    · exact .pure hs ht

/-- A base with types put in for its parameters is a constructed class of the same class. -/
theorem instantiateClass_lasts (hs : s.Closed) {sub : Substitution} (hsub : s.SubstitutionKnown sub)
    {cls : ValueId} (hcls : s.ValueKnown cls) :
    Lasts s (instantiateClass sub cls) fun v s' =>
      s'.ValueKnown v ∧ Hierarchy.baseClass s'.values v = Hierarchy.baseClass s.values cls :=
  (instantiateClassWith_lasts hs (fun _ _ h hu => instantiateTo_lasts h.closed (hsub.mono h) _ hu)
    hcls).weaken fun _ _ _ h => ⟨h.1, h.2.2⟩

theorem substitutionKnown_ofArguments {parameters arguments : List TypeId}
    (h : ∀ t ∈ arguments, s.Known t) :
    s.SubstitutionKnown (Substitution.ofArguments parameters arguments) := by
  intro entry hentry
  have hzip : entry ∈ parameters.zip arguments := List.mem_reverse.1 hentry
  exact h _ (List.of_mem_zip hzip).2

/-! ## Direct bases -/

theorem directBases_of_class? {v : ValueId} {data : ClassData} (h : s.values.class? v = some data) :
    directBases v s = (data.bases, s) := by
  obtain ⟨⟨node, members, value⟩, hget, hdata⟩ := Option.bind_eq_some_iff.1 h
  cases value with
  | classValue data =>
    cases hdata
    unfold directBases
    rw [run_bind, run_get]
    dsimp only
    rw [hget]
    rfl
  | _ => cases hdata

theorem directBases_of_constructed? {v : ValueId} {data : ConstructedData} {generic : ClassData}
    (h : s.values.constructed? v = some data)
    (hgeneric : s.values.class? data.generic = some generic) :
    directBases v s = generic.bases.mapM (instantiateClass
      (Substitution.ofArguments generic.typeParameters (s.types.list data.arguments))) s := by
  obtain ⟨⟨node, members, value⟩, hget, hdata⟩ := Option.bind_eq_some_iff.1 h
  cases value with
  | constructedClass data =>
    cases hdata
    unfold directBases
    rw [run_bind, run_get]
    dsimp only
    rw [hget]
    dsimp only
    rw [hgeneric]
  | _ => cases hdata

theorem directBases_of_none {v : ValueId} (hclass : s.values.class? v = none)
    (hcon : s.values.constructed? v = none) : directBases v s = ([], s) := by
  unfold directBases
  rw [run_bind, run_get]
  cases hget : s.values.get? v with
  | none => rfl
  | some value =>
    obtain ⟨node, members, data⟩ := value
    cases data with
    | classValue data =>
      rw [ValueStore.class?, hget] at hclass
      cases hclass
    | constructedClass data =>
      rw [ValueStore.constructed?, hget] at hcon
      cases hcon
    | _ => rfl

/-- A class is no constructed class. -/
theorem constructed?_of_class? {v : ValueId} {data : ClassData}
    (h : s.values.class? v = some data) :
    s.values.constructed? v = none := by
  obtain ⟨⟨node, members, value⟩, hget, hdata⟩ := Option.bind_eq_some_iff.1 h
  cases value with
  | classValue =>
    rw [ValueStore.constructed?, hget]
    rfl
  | _ => cases hdata

/-- The class behind a class is the class itself. -/
theorem baseClass_of_class? {v : ValueId} {data : ClassData} (h : s.values.class? v = some data) :
    Hierarchy.baseClass s.values v = v := by
  rw [Hierarchy.baseClass, constructed?_of_class? h]
  rfl

theorem mem_baseClasses {v b : ValueId} {data : ClassData} (h : s.values.class? v = some data)
    (hb : b ∈ data.bases) :
    Hierarchy.baseClass s.values b ∈ Hierarchy.baseClasses s.values v := by
  rw [Hierarchy.baseClasses, h]
  exact List.mem_map_of_mem hb

/-- The bases of a class are known. -/
theorem Closed.valueKnown_of_mem_bases (hs : s.Closed) {v : ValueId} {data : ClassData}
    (h : s.values.class? v = some data) : ∀ b ∈ data.bases, s.ValueKnown b := by
  obtain ⟨value, hvalue, hclass⟩ := Option.bind_eq_some_iff.1 h
  exact (hs.values v value hvalue).bases hclass

/-- The direct bases of a known value are known, and the classes behind them are those on which
the class behind the value is built. -/
theorem directBases_lasts (hs : s.Closed) {v : ValueId} (hv : s.ValueKnown v) :
    Lasts s (directBases v) fun bases s' => ∀ b ∈ bases, s'.ValueKnown b ∧
      Hierarchy.baseClass s'.values b ∈
        Hierarchy.baseClasses s.values (Hierarchy.baseClass s.values v) := by
  cases hclass : s.values.class? v with
  | some data =>
    have hrun := directBases_of_class? hclass
    refine ⟨?_, fun S hS => ?_⟩
    · rw [Runs, hrun]
      refine ⟨.refl hs, fun b hb => ⟨hs.valueKnown_of_mem_bases hclass b hb, ?_⟩⟩
      rw [baseClass_of_class? hclass]
      exact mem_baseClasses hclass hb
    · rw [hrun] at hS ⊢
      obtain ⟨data', hclass', hsame⟩ := hS.class?_eq hclass
      rw [directBases_of_class? hclass', (Prod.mk.inj hsame).2]
  | none =>
    cases hcon : s.values.constructed? v with
    | none =>
      have hrun := directBases_of_none hclass hcon
      refine ⟨?_, fun S hS => ?_⟩
      · rw [Runs, hrun]
        exact ⟨.refl hs, fun b hb => (List.not_mem_nil hb).elim⟩
      · rw [hrun] at hS ⊢
        exact directBases_of_none (hS.class?_eq_none hclass) (hS.constructed?_eq_none hv hcon)
    | some data =>
      obtain ⟨generic, hgeneric⟩ := Option.isSome_iff_exists.1 (hs.named.generic v data hcon)
      have harguments := (hs.canonical.applicationsKnown v ⟨data.generic, data.arguments⟩ (by
        rw [ValueStore.application?, hcon, Option.map_some])).2
      have hrun := directBases_of_constructed? hcon hgeneric
      have hbases := hs.valueKnown_of_mem_bases hgeneric
      have hsub : s.SubstitutionKnown (Substitution.ofArguments generic.typeParameters
        (s.types.list data.arguments)) := substitutionKnown_ofArguments (hs.canonical.lists _)
      have hlasts : Lasts s (generic.bases.mapM (instantiateClass
          (Substitution.ofArguments generic.typeParameters (s.types.list data.arguments))))
          fun bases s' => ∀ b ∈ bases, s'.ValueKnown b ∧
            Hierarchy.baseClass s'.values b ∈ Hierarchy.baseClasses s.values data.generic := by
        refine .mapM hs (fun b t u h hb => ⟨h.valueKnown hb.1, ?_⟩) fun b hb t ht => ?_
        · rw [h.retains.keeps.baseClass_eq hb.1]
          exact hb.2
        · refine (instantiateClass_lasts ht.closed (hsub.mono ht)
            (ht.valueKnown (hbases b hb))).weaken ?_
          intro w u _ hw
          refine ⟨hw.1, ?_⟩
          rw [hw.2, ht.retains.keeps.baseClass_eq (hbases b hb)]
          exact mem_baseClasses hgeneric hb
      have hbehind : Hierarchy.baseClass s.values v = data.generic := by
        rw [Hierarchy.baseClass, hcon]
        rfl
      refine ⟨?_, fun S hS => ?_⟩
      · rw [Runs, hrun, hbehind]
        exact hlasts.runs
      · rw [hrun] at hS ⊢
        have hripens := hlasts.runs.1.ripens.trans hS
        obtain ⟨data', hcon', hsame⟩ := hripens.constructed?_eq hcon
        obtain ⟨hgen, hargs⟩ := Application.mk.inj hsame
        obtain ⟨generic', hgeneric', hheritage⟩ := hripens.class?_eq hgeneric
        rw [← hgen] at hgeneric'
        rw [directBases_of_constructed? hcon' hgeneric', (Prod.mk.inj hheritage).1,
          (Prod.mk.inj hheritage).2, hargs, hripens.keeps.list _ harguments]
        exact hlasts.again S hS

/-! ## Ancestors -/

/-- Every value of a registry is known. -/
def RegistryKnown (s : Store) (values : Registry ValueId) : Prop :=
  ∀ v ∈ values.toList, s.ValueKnown v

theorem listLevel_lasts (hs : s.Closed) {level : List ValueId} {ancestors : Registry ValueId}
    {next : Array ValueId} (hancestors : s.RegistryKnown ancestors)
    (hnext : ∀ v ∈ next, s.ValueKnown v) (hlevel : ∀ v ∈ level, s.ValueKnown v) :
    Lasts s (listLevel ancestors next level) fun found s' =>
      s'.RegistryKnown found.1 ∧ ∀ v ∈ found.2, s'.ValueKnown v := by
  induction level generalizing s ancestors next with
  | nil => exact .pure hs ⟨hancestors, hnext⟩
  | cons v level ih =>
    have hrest : ∀ w ∈ level, s.ValueKnown w := fun w hw => hlevel w (List.mem_cons_of_mem _ hw)
    unfold listLevel
    refine .ite (fun _ => ih hs hancestors hnext hrest) fun _ => ?_
    have hv : s.ValueKnown v := hlevel v List.mem_cons_self
    refine (directBases_lasts hs hv).bind fun bases s₁ h₁ hbases => ih h₁.closed ?_ ?_ ?_
    · intro w hw
      rw [Registry.mem_toList_insert] at hw
      rcases hw with hw | rfl
      · exact h₁.valueKnown (hancestors w hw)
      · exact h₁.valueKnown (hlevel _ List.mem_cons_self)
    · intro w hw
      rw [← Array.mem_toList_iff, Array.toList_appendList, List.mem_append] at hw
      rcases hw with hw | hw
      · exact h₁.valueKnown (hnext w (Array.mem_toList_iff.1 hw))
      · exact (hbases w hw).1
    · exact fun w hw => h₁.valueKnown (hrest w hw)

theorem listLevels_lasts (hs : s.Closed) (levels : Nat) {ancestors : Registry ValueId}
    {level : List ValueId} (hancestors : s.RegistryKnown ancestors)
    (hlevel : ∀ v ∈ level, s.ValueKnown v) :
    Lasts s (listLevels levels ancestors level) fun found s' => s'.RegistryKnown found := by
  induction levels generalizing s ancestors level with
  | zero => exact .pure hs hancestors
  | succ levels ih =>
    cases level with
    | nil => exact .pure hs hancestors
    | cons v level =>
      unfold listLevels
      refine (listLevel_lasts hs hancestors (fun w hw =>
        (Array.not_mem_empty w hw).elim) hlevel).bind ?_
      exact fun found s₁ h₁ hfound => ih h₁.closed hfound.1 fun w hw =>
        hfound.2 w (by simpa using hw)

/-- The ancestors that are listed are known. -/
theorem linearize_runs (hs : s.Closed) {bases : List ValueId}
    (hbases : ∀ b ∈ bases, s.ValueKnown b) :
    Runs Builds s (linearize bases) fun ancestors s' => ∀ v ∈ ancestors, s'.ValueKnown v := by
  refine .get_bind ((listLevels_lasts hs _ ?_ hbases).runs.bind fun found s₁ h₁ hfound => ?_)
  · exact fun v hv => (List.not_mem_nil hv).elim
  · exact .pure (.refl h₁.closed) hfound

theorem finalizeConstructed_runs (hs : s.Closed) {v : ValueId}
    (hv : (s.values.constructed? v).isSome) :
    Runs Leads s (finalizeConstructed v) fun _ _ => True := by
  have hdirect := (directBases_lasts hs (valueKnown_of_constructed? hv)).runs
  refine (Builds.runs_leads hdirect).bind fun bases s₁ h₁ hbases => ?_
  have hlinear := linearize_runs h₁.closed fun b hb => (hbases b hb).1
  refine (Builds.runs_leads hlinear).bind fun ancestors s₂ h₂ hancestors => ?_
  have hcls := h₂.constructed? (h₁.constructed? hv)
  exact ⟨.change h₂.closed (.noteConstructedAncestors v ancestors hcls hancestors), trivial⟩

theorem isSome_of_isPending {values : ValueStore} {v : ValueId} (h : isPending values v = true) :
    (values.constructed? v).isSome := by
  obtain ⟨cls, hcls, -⟩ := (Option.any_eq_true _ _).1 h
  exact Option.isSome_iff_exists.2 ⟨cls, hcls⟩

theorem finalizeRounds_runs (hs : s.Closed) (rounds : Nat) :
    Runs Leads s (finalizeRounds rounds) fun _ _ => True := by
  induction rounds generalizing s with
  | zero => exact .pure (.refl hs) trivial
  | succ rounds ih =>
    refine .get_bind ?_
    dsimp only
    split
    · exact .pure (.refl hs) trivial
    · refine (Runs.forM (.refl hs) fun v hv s₁ h₁ => ?_).bind fun _ s₁ h₁ _ => ih h₁.closed
      have hpending := (List.mem_filter.1 hv).2
      exact finalizeConstructed_runs h₁.closed (h₁.constructed? (isSome_of_isPending hpending))

theorem finalizeAllConstructed_runs (hs : s.Closed) :
    Runs Leads s finalizeAllConstructed fun _ _ => True :=
  .get_bind (finalizeRounds_runs hs _)

end Store

end DocTypes
