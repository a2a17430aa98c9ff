import DocTypes.Proofs.Handles.Ancestors
import Mathlib.Logic.Relation

/-!
# The classes that bases mention

Looking up the bases of an applied class makes constructed classes: the bases with the types put
in, and what is applied inside their arguments. All of these apply classes that the declared
bases mention (`Store.MentionedBy`), since whatever is put in for a parameter was there before.

## Main statements

* `Store.instantiateTo_makes`: putting types in applies the classes that the type applies.
* `Store.directBases_makes`: looking up bases applies the classes that the bases mention.
-/

namespace DocTypes

namespace Store

variable {s s' s'' : Store} {α : Type}

/-- Somewhere inside a type, a generic class is applied to types. -/
inductive AppliedIn (s : Store) (generic : ValueId) : TypeId → Prop
  | here {t : TypeId} {v : ValueId} {data : ConstructedData}
      (hkey : s.types.key? t = some (.constructedInstanceOf v))
      (hdata : s.values.constructed? v = some data) (hgeneric : data.generic = generic) :
    AppliedIn s generic t
  | inside {t part : TypeId} {key : TypeKey} (hkey : s.types.key? t = some key)
      (hpart : part ∈ s.parts key) (h : AppliedIn s generic part) : AppliedIn s generic t

/-- A base mentions a generic class: the base applies it, or an argument of the base does. -/
def MentionedBy (s : Store) (base generic : ValueId) : Prop :=
  ∃ data, s.values.constructed? base = some data ∧
    (data.generic = generic ∨ ∃ t ∈ s.types.list data.arguments, s.AppliedIn generic t)

/-- Some base of a finalized class mentions a generic class. -/
def Mentions (s : Store) (cls generic : ValueId) : Prop :=
  ∃ data, s.values.class? cls = some data ∧ data.finalized = true ∧
    ∃ base ∈ data.bases, s.MentionedBy base generic

/-! ## Later stores -/

/-- Nothing comes to be applied inside a known type. -/
theorem AppliedIn.of_extends {generic : ValueId} {t : TypeId} (h : s'.AppliedIn generic t)
    (hs : s.Closed) (hext : s.Extends s') (ht : s.Known t) : s.AppliedIn generic t := by
  induction h with
  | @here t v data hkey hdata hgeneric =>
    rw [hext.key?_eq ht] at hkey
    have hv : s.ValueKnown v := hs.canonical.keyKnown t _ hkey
    have happ := hext.application v hv
    rw [ValueStore.application?, hdata, Option.map_some] at happ
    obtain ⟨old, hold, heq⟩ := Option.map_eq_some_iff.1 happ.symm
    exact .here hkey hold ((Application.mk.inj heq).1.trans hgeneric)
  | @inside t part key hkey hpart _ ih =>
    rw [hext.key?_eq ht] at hkey
    have hknown := hs.canonical.keyKnown t key hkey
    rw [hext.parts_eq hs.canonical.applicationsKnown hknown] at hpart
    exact .inside hkey hpart (ih (hs.canonical.known_of_mem_parts key hknown hpart))

/-- A known base does not come to mention a class. -/
theorem MentionedBy.of_extends {base generic : ValueId} (h : s'.MentionedBy base generic)
    (hs : s.Closed) (hext : s.Extends s') (hbase : s.ValueKnown base) :
    s.MentionedBy base generic := by
  obtain ⟨data, hdata, h⟩ := h
  have happ := hext.application base hbase
  rw [ValueStore.application?, hdata, Option.map_some] at happ
  obtain ⟨old, hold, heq⟩ := Option.map_eq_some_iff.1 happ.symm
  obtain ⟨hgeneric, harguments⟩ := Application.mk.inj heq
  have hknown := (hs.canonical.applicationsKnown base ⟨old.generic, old.arguments⟩ (by
    rw [ValueStore.application?, hold, Option.map_some])).2
  refine ⟨old, hold, h.imp hgeneric.trans ?_⟩
  rintro ⟨t, ht, happlied⟩
  rw [← harguments, hext.list _ hknown] at ht
  exact ⟨t, ht, happlied.of_extends hs hext (hs.canonical.lists _ t ht)⟩

/-! ## What is made -/

/-- Changes that build, and make constructed classes of some classes alone. -/
structure Makes (K : ValueId → Prop) (s s' : Store) : Prop extends s.Builds s' where
  made : ∀ v data, s'.values.constructed? v = some data →
    s.values.constructed? v = some data ∨ K data.generic

namespace Makes

variable {K K' : ValueId → Prop}

theorem refl (hs : s.Closed) : Makes K s s := ⟨.refl hs, fun _ _ => .inl⟩

theorem mono (h : Makes K s s') (hK : ∀ c, K c → K' c) : Makes K' s s' :=
  ⟨h.toBuilds, fun v data hv => (h.made v data hv).imp_right (hK _)⟩

instance : IsTrans Store (Makes K) := ⟨fun _ _ _ h h' => ⟨h.toBuilds.trans h'.toBuilds,
  fun v data hv => (h'.made v data hv).elim (h.made v data) .inr⟩⟩

instance : Anchored (Makes K) := ⟨fun h => .refl h.closed⟩

/-- Steps that make nothing but types. -/
theorem onTypes {f : TypeStore → α × TypeStore} {P : α → Store → Prop}
    (h : Lasts s (Store.onTypes f) P) : Runs (Makes K) s (Store.onTypes f) P :=
  ⟨⟨h.runs.1, fun _ _ => .inl⟩, h.runs.2⟩

end Makes

/-- From a store on, the step gives a known type for a known type, and makes constructed classes
of the classes that are applied inside it. -/
def Reapplies (inst : TypeId → StateM Store TypeId) (s : Store) : Prop :=
  ∀ s' t, s.Builds s' → s'.Known t →
    Runs (Makes (s'.AppliedIn · t)) s' (inst t) fun u s'' => s''.Known u

section Instantiation

variable {inst : TypeId → StateM Store TypeId} {K : ValueId → Prop}

/-- One type, of which everything applied inside it may be made. -/
theorem Reapplies.type (hinst : Reapplies inst s) (hs : s.Closed) {t : TypeId} (ht : s.Known t)
    (hK : ∀ c, s.AppliedIn c t → K c) (hs' : s.Builds s') :
    Runs (Makes K) s' (inst t) fun u s'' => s''.Known u := by
  have hext := hs'.retains.keeps
  have hruns := hinst s' t hs' (hext.known ht)
  exact ⟨hruns.1.mono fun c hc => hK c (hc.of_extends hs hext ht), hruns.2⟩

theorem Reapplies.mapM (hinst : Reapplies inst s) (hs : s.Closed) {types : List TypeId}
    (htypes : ∀ t ∈ types, s.Known t) (hK : ∀ t ∈ types, ∀ c, s.AppliedIn c t → K c)
    (hs' : s.Builds s') :
    Runs (Makes K) s' (types.mapM inst) fun us s'' => ∀ u ∈ us, s''.Known u :=
  .mapM (.refl hs'.closed) (fun _ _ _ h hu => h.known hu) fun t ht _ h =>
    hinst.type hs (htypes t ht) (hK t ht) (hs'.trans h.toBuilds)

theorem Reapplies.list (hinst : Reapplies inst s) (hs : s.Closed) {l : ListId}
    (hK : ∀ t ∈ s.types.list l, ∀ c, s.AppliedIn c t → K c) :
    Runs (Makes K) s (instantiateList inst l) fun m s' => s'.ListKnown m :=
  .get_bind ((hinst.mapM hs (hs.canonical.lists l) hK (.refl hs)).bind fun _ _ h hus =>
    Makes.onTypes (internList_lasts h.closed hus))

/-- Applying a class again, to what its arguments are changed to. -/
theorem Reapplies.cls (hinst : Reapplies inst s) (hs : s.Closed) {cls : ValueId}
    (hK : ∀ c, s.MentionedBy cls c → K c) :
    Makes K s (instantiateClassWith inst cls s).2 := by
  cases hcon : s.values.constructed? cls with
  | none =>
    rw [instantiateClassWith_of_none hcon]
    exact .refl hs
  | some data =>
    obtain ⟨node, hrun⟩ := @instantiateClassWith_of_some s inst cls data hcon
    have hlist : Runs (Makes K) s (instantiateList inst data.arguments) fun m s' =>
        s'.ListKnown m :=
      hinst.list hs fun t ht c hc => hK c ⟨data, hcon, .inr ⟨t, ht, hc⟩⟩
    have hbuilds := newConstructedClass_builds hlist.1.closed node
      (hlist.1.class? (hs.named.generic cls data hcon)) hlist.2
    rw [hrun]
    refine IsTrans.trans _ _ _ hlist.1 ⟨hbuilds.1, fun v made hv => ?_⟩
    rcases ValueStore.constructed?_newConstructedClass _ node data.generic _ v with heq | ⟨-, heq⟩
    · exact .inl (heq.symm.trans hv)
    · obtain rfl := Option.some.inj (heq.symm.trans hv)
      exact .inr (hK _ ⟨data, hcon, .inl rfl⟩)

theorem Reapplies.fields (hinst : Reapplies inst s) (hs : s.Closed) {fields : List TypeId}
    (hfields : ∀ t ∈ fields, s.Known t)
    (hK : ∀ t ∈ fields, ∀ part ∈ s.labeledPart t, ∀ c, s.AppliedIn c part → K c)
    (hs' : s.Builds s') :
    Runs (Makes K) s' (instantiateFields inst fields) fun entries s'' =>
      ∀ entry ∈ entries, s''.Known entry.2 := by
  induction fields generalizing s' with
  | nil => exact .pure (.refl hs'.closed) fun entry hentry => (List.not_mem_nil hentry).elim
  | cons field rest ih =>
    have hrest {s' : Store} (h : s.Builds s') :=
      ih (fun t ht => hfields t (List.mem_cons_of_mem _ ht))
      (fun t ht => hK t (List.mem_cons_of_mem _ ht)) h
    unfold instantiateFields
    refine .get_bind ?_
    rw [hs'.retains.keeps.key?_eq (hfields field List.mem_cons_self)]
    split
    · next label type hkey =>
      have hpart : type ∈ s.labeledPart field := by
        rw [labeledPart, hkey]
        exact List.mem_singleton_self _
      have htype : s.Known type := hs.canonical.keyKnown field _ hkey
      refine (hinst.type hs htype (hK field List.mem_cons_self type hpart) hs').bind ?_
      intro u s₁ h₁ hu
      refine (hrest (hs'.trans h₁.toBuilds)).bind fun entries s₂ h₂ hentries => ?_
      refine .pure (.refl h₂.closed) ?_
      rintro entry (_ | ⟨_, hentry⟩)
      · exact h₂.known hu
      · exact hentries entry hentry
    · exact hrest hs'

end Instantiation

/-- Putting types in for the parameters of a type makes constructed classes of the classes that
are applied inside it. -/
theorem instantiateTo_makes (hs : s.Closed) {sub : Substitution} (hsub : s.SubstitutionKnown sub)
    (depth : Nat) {t : TypeId} (ht : s.Known t) :
    Runs (Makes (s.AppliedIn · t)) s (instantiateTo sub depth t) fun u s' => s'.Known u := by
  induction depth generalizing s t with
  | zero => exact .pure (.refl hs) ht
  | succ depth ih =>
    have hinst : Reapplies (instantiateTo sub depth) s :=
      fun s' u h hu => ih h.closed (hsub.mono h) hu
    have hpart {key : TypeKey} (hkey : s.types.key? t = some key) {u : TypeId}
        (hu : u ∈ s.parts key) :
        s.Known u ∧ ∀ c, s.AppliedIn c u → s.AppliedIn c t :=
      ⟨hs.canonical.known_of_mem_parts key (hs.canonical.keyKnown t key hkey) hu,
        fun c hc => .inside hkey hu hc⟩
    unfold instantiateTo
    refine .ite (fun _ => .pure (.refl hs) ht) fun _ => .get_bind ?_
    split
    · refine .pure (.refl hs) ?_
      cases hget : sub.get? t with
      | none => exact ht
      | some u => exact hsub (t, u) (mem_of_lookup_eq_some hget)
    · next l hkey =>
      refine .get_bind ((hinst.mapM hs (hs.canonical.lists l) (fun u hu => (hpart hkey hu).2)
        (.refl hs)).bind fun us s₁ h₁ hus => ?_)
      exact Makes.onTypes (union_lasts h₁.closed hus)
    · next l hkey =>
      refine .get_bind ((hinst.mapM hs (hs.canonical.lists l) (fun u hu => (hpart hkey hu).2)
        (.refl hs)).bind fun us s₁ h₁ hus => ?_)
      exact Makes.onTypes (tuple_lasts h₁.closed hus)
    · next l hkey =>
      have hfields : ∀ u ∈ s.types.list l, ∀ part ∈ s.labeledPart u, part ∈ s.parts (.record l) :=
        fun u hu part hmem => List.mem_append_right _ (List.mem_flatMap.2 ⟨u, hu, hmem⟩)
      refine .get_bind ((hinst.fields hs (hs.canonical.lists l)
        (fun u hu part hmem => (hpart hkey (hfields u hu part hmem)).2) (.refl hs)).bind ?_)
      exact fun entries s₁ h₁ hentries => Makes.onTypes (record_lasts h₁.closed hentries)
    · next label type hkey =>
      have htype := hpart hkey (List.mem_singleton_self type)
      refine (hinst.type hs htype.1 htype.2 (.refl hs)).bind fun u s₁ h₁ hu => ?_
      exact Makes.onTypes (labeled_lasts h₁.closed label hu)
    · next shape hkey =>
      obtain ⟨hparameters, -, -, htemplates⟩ := hs.canonical.keyKnown t _ hkey
      have hthis := hpart hkey (List.mem_cons_self (a := shape.thisType))
      have hreturn := hpart hkey (List.mem_cons_of_mem shape.thisType List.mem_cons_self)
      have hlist : ∀ u ∈ s.types.list shape.parameters, u ∈ s.parts (.function shape) := fun u hu =>
        List.mem_cons_of_mem _ (List.mem_cons_of_mem _ (List.mem_append_left _ hu))
      refine .get_bind ((hinst.mapM hs (hs.canonical.lists _)
        (fun u hu => (hpart hkey (hlist u hu)).2) (.refl hs)).bind fun us s₁ h₁ hus => ?_)
      refine (Makes.onTypes (internList_lasts h₁.closed hus)).bind fun l s₂ h₂ hl => ?_
      have h₂' := h₁.toBuilds.trans h₂.toBuilds
      refine (hinst.type hs hthis.1 hthis.2 h₂').bind fun this s₃ h₃ hthis' => ?_
      have h₃' := h₂'.trans h₃.toBuilds
      refine (hinst.type hs hreturn.1 hreturn.2 h₃').bind fun result s₄ h₄ hreturn' => ?_
      refine Makes.onTypes (function_lasts h₄.closed ⟨?_, h₄.known hthis', hreturn', ?_⟩)
      · exact h₄.listKnown (h₃.listKnown hl)
      · exact (h₃'.trans h₄.toBuilds).listKnown htemplates
    · next cls hkey =>
      have hcls := hs.named.constructedInstanceOf t cls hkey
      have hknown := valueKnown_of_constructed? hcls
      have hinstantiates : Instantiates (instantiateTo sub depth) s :=
        fun s' u h hu => instantiateTo_lasts h.closed (hsub.mono h) depth hu
      have hresult := (instantiateClassWith_lasts hs hinstantiates hknown).runs.2.2.1 hcls
      have hmakes :
          Makes (s.AppliedIn · t) s (instantiateClassWith (instantiateTo sub depth) cls s).2 := by
        refine hinst.cls hs fun c ⟨data, hdata, hc⟩ => ?_
        rcases hc with hc | ⟨u, hu, hc⟩
        · exact .here hkey hdata hc
        · refine (hpart hkey ?_).2 c hc
          show u ∈ s.valueParts (cls.index + 1) cls
          rw [valueParts, ValueStore.application?, hdata]
          exact List.mem_append_left _ hu
      have hruns : Runs (Makes (s.AppliedIn · t)) s
        (instantiateClassWith (instantiateTo sub depth) cls)
          fun v s' => (s'.values.constructed? v).isSome := ⟨hmakes, hresult⟩
      refine hruns.bind fun v s₁ h₁ hv => ?_
      exact Makes.onTypes (constructedInstanceOf_lasts h₁.closed hv)
    · exact .pure (.refl hs) ht

/-- Looking up direct bases makes constructed classes of the classes that the declared bases of
an applied class mention. -/
theorem directBases_makes (hs : s.Closed) (v : ValueId) :
    Makes (fun c => ∃ data, s.values.constructed? v = some data ∧
      ∃ generic, s.values.class? data.generic = some generic ∧
        ∃ base ∈ generic.bases, s.MentionedBy base c) s (directBases v s).2 := by
  cases hclass : s.values.class? v with
  | some data =>
    rw [directBases_of_class? hclass]
    exact .refl hs
  | none =>
    cases hcon : s.values.constructed? v with
    | none =>
      rw [directBases_of_none hclass hcon]
      exact .refl hs
    | some data =>
      obtain ⟨generic, hgeneric⟩ := Option.isSome_iff_exists.1 (hs.named.generic v data hcon)
      have hbases := hs.valueKnown_of_mem_bases hgeneric
      have hsub : s.SubstitutionKnown (Substitution.ofArguments generic.typeParameters
        (s.types.list data.arguments)) := substitutionKnown_ofArguments (hs.canonical.lists _)
      rw [directBases_of_constructed? hcon hgeneric]
      refine (Runs.mapM (Q := fun _ _ => True) (.refl hs) (fun _ _ _ _ _ => trivial)
        fun b hb t ht => ⟨?_, trivial⟩).1
      have hinst : Reapplies (instantiateTo (Substitution.ofArguments generic.typeParameters
          (s.types.list data.arguments)) instantiationDepth) t :=
        fun s' u h hu => instantiateTo_makes h.closed (hsub.mono (ht.toBuilds.trans h)) _ hu
      refine hinst.cls ht.closed fun c hc => ?_
      exact ⟨data, rfl, generic, hgeneric, b, hb,
        hc.of_extends hs ht.retains.keeps (hbases b hb)⟩

end Store

end DocTypes
