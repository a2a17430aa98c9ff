import DocTypes.Proofs.Binding.Reading
import DocTypes.Proofs.Hierarchy.Rounds
import DocTypes.Proofs.Nodes.Types

/-!
# Classes and interfaces

A base of a class is taken only if it is of the right sort, and a class names one base at most
that it extends. So the bases of an interface are interfaces, and one base of a class at most is
none (`Store.Fits`). That is checked for each base by itself, before any ancestors are listed.
It is true of the bases of constructed classes, too, because the class behind a base stays the
same when types are put in.

Hence the ancestors of an interface are interfaces. Those of a class that are none stand one above
the other: one is a direct base of the class, one is a direct base of that, and so on (`Line`).

## Main statements

* `Hierarchy.resolutions_fits`: the bases that are filled in are of the right sort.
* `Store.forall₂_basesOf_kinds`: the sorts of the bases stay when types are put in.
* `Analysis.runPasses_disciplined`: sorts of classes and ancestors, whenever these are listed.
-/

namespace DocTypes

/-! ## One base to extend -/

/-- The bases that a class says it extends. -/
def ClassDecl.extended (decl : ClassDecl) : List BaseRef :=
  decl.bases.filter (·.relation = .extending)

/-- A class extends what its first `@extends` names, or else what its body does. -/
theorem Binder.filter_baseRefs_length (a : Arena) (doc : Option DocComment) (heritage : NodeRef) :
    ((baseRefs a doc heritage).filter (·.relation = .extending)).length ≤ 1 := by
  unfold baseRefs
  dsimp only
  generalize ((doc.bind (·.extendsTags.head?)).bind fun tag => a.typeOperand (some tag)).orElse
    (fun _ => heritage) = base
  rw [List.filter_append]
  have himplemented (tags : List Nat) : (tags.filterMap fun tag =>
      (a.typeOperand (some tag)).map fun n => (⟨some n, .implementing⟩ : BaseRef)).filter
        (·.relation = .extending) = [] := by
    refine List.filter_eq_nil_iff.2 fun base hbase => ?_
    obtain ⟨tag, -, htag⟩ := List.mem_filterMap.1 hbase
    obtain ⟨n, -, rfl⟩ := Option.map_eq_some_iff.1 htag
    simp
  rw [himplemented, List.append_nil]
  exact Nat.le_trans (List.length_filter_le _ _) Option.length_toList_le

namespace Analysis

/-- No class that the first pass declares extends two bases. -/
theorem bindNames_extended (a : Arena) (reportUndefined : Bool) (root : NodeRef) :
    ∀ decl ∈ (bindNames a reportUndefined root (new a)).2.classes, decl.extended.length ≤ 1 := by
  obtain ⟨acts, hrun, hsound, -⟩ := bindNames_acts a reportUndefined root 0
  rw [hrun]
  refine Binder.doAll_induction
    (I := fun b => ∀ decl ∈ b.analysis.classes, decl.extended.length ≤ 1) hsound ?_ ?_
  · exact fun decl hdecl => (List.not_mem_nil hdecl).elim
  · intro act _ b hb decl hdecl
    rcases Binder.act_notes a reportUndefined act b with
      hsame | ⟨_, _, _, hkept⟩ | ⟨_, _, doc, heritage, node, cls, _, _, hmade⟩
    · exact hb decl (hsame.classes ▸ hdecl)
    · rw [hkept] at hdecl
      exact hb decl hdecl
    · rw [hmade] at hdecl
      rcases List.mem_append.1 hdecl with hdecl | hdecl
      · exact hb decl hdecl
      · obtain rfl := List.mem_singleton.1 hdecl
        exact Binder.filter_baseRefs_length a doc heritage

end Analysis

/-! ## The sort of a class -/

namespace ValueStore

variable {s : ValueStore} {v : ValueId}

/-- The sort of a class is that of the class behind it. -/
theorem classKind?_eq (s : ValueStore) (v : ValueId) :
    s.classKind? v = (s.class? (Hierarchy.baseClass s v)).map (·.kind) := by
  unfold classKind? Hierarchy.baseClass constructed?
  cases hv : s.get? v with
  | none => simp [class?, hv]
  | some value =>
    obtain ⟨node, members, data⟩ := value
    cases data <;> simp [class?, hv, Value.class?, Value.constructed?]

/-- Classes stay of the same sort, and constructed classes stay built on the same class. -/
structure SameKinds (s t : ValueStore) : Prop where
  kinds : ∀ v, (t.class? v).map (·.kind) = (s.class? v).map (·.kind)
  generic : ∀ v data, s.constructed? v = some data →
    ∃ later, t.constructed? v = some later ∧ later.generic = data.generic

namespace SameKinds

variable {t : ValueStore}

theorem isSome_class? (h : s.SameKinds t) (v : ValueId) :
    (t.class? v).isSome = (s.class? v).isSome := by
  have hkind := congrArg Option.isSome (h.kinds v)
  rwa [Option.isSome_map, Option.isSome_map] at hkind

theorem isClassLike (h : s.SameKinds t) (hv : s.isClassLike v = true) : t.isClassLike v = true := by
  rw [isClassLike_iff] at hv ⊢
  rw [h.isSome_class?]
  refine hv.imp_right fun hcon => ?_
  obtain ⟨data, hdata⟩ := Option.isSome_iff_exists.1 hcon
  obtain ⟨later, hlater, -⟩ := h.generic v data hdata
  exact Option.isSome_iff_exists.2 ⟨later, hlater⟩

theorem baseClass_eq (h : s.SameKinds t) (hv : s.isClassLike v = true) :
    Hierarchy.baseClass t v = Hierarchy.baseClass s v := by
  unfold Hierarchy.baseClass
  cases hcon : s.constructed? v with
  | some data =>
    obtain ⟨later, hlater, hgeneric⟩ := h.generic v data hcon
    rw [hlater, Option.map_some, Option.map_some, hgeneric]
  | none =>
    have hclass : (t.class? v).isSome := by
      rw [h.isSome_class?]
      exact (isClassLike_iff.1 hv).resolve_right (by simp [hcon])
    obtain ⟨data, hdata⟩ := Option.isSome_iff_exists.1 hclass
    have hnone : t.constructed? v = none := Store.constructed?_of_class? (s := ⟨.new, t⟩) hdata
    rw [hnone]

/-- A class that was there is of the sort that it was of. -/
theorem isInterface_eq (h : s.SameKinds t) (hv : s.isClassLike v = true) :
    t.isInterface v = s.isInterface v := by
  rw [isInterface, isInterface, classKind?_eq, classKind?_eq, h.baseClass_eq hv, h.kinds]

end SameKinds

/-- The bases of a class are of the right sort: those of an interface are interfaces, and one
base at most is none. -/
structure Fits (s : ValueStore) (data : ClassData) : Prop where
  classLike : ∀ b ∈ data.bases, s.isClassLike b = true
  interfaces : data.kind.isInterface = true → ∀ b ∈ data.bases, s.isInterface b = true
  one : (data.bases.filter (!s.isInterface ·)).length ≤ 1

theorem Fits.mono {s t : ValueStore} {data later : ClassData} (hdata : s.Fits data)
    (h : s.SameKinds t) (hkind : later.kind = data.kind) (hbases : later.bases = data.bases) :
    t.Fits later := by
  have hsame : ∀ b ∈ data.bases, t.isInterface b = s.isInterface b := fun b hb =>
    h.isInterface_eq (hdata.classLike b hb)
  refine ⟨fun b hb => ?_, fun hlater b hb => ?_, ?_⟩
  · rw [hbases] at hb
    exact h.isClassLike (hdata.classLike b hb)
  · rw [hkind] at hlater
    rw [hbases] at hb
    rw [hsame b hb]
    exact hdata.interfaces hlater b hb
  · rw [hbases, List.filter_congr fun b hb => congrArg Bool.not (hsame b hb)]
    exact hdata.one

/-- If there is a class at the number, its bases are of the right sort. -/
def FitsAt (s : ValueStore) (v : ValueId) : Prop := ∀ data, s.class? v = some data → s.Fits data

end ValueStore

/-- What stays as it is stays of the same sort. -/
theorem Store.Still.sameKinds {s t : Store} (h : s.Still t) : s.values.SameKinds t.values where
  kinds v := by rw [h.classes v]
  generic v data hv := ⟨data, h.constructed v data hv, rfl⟩

/-! ## What bases come to -/

namespace Hierarchy

/-- A class that a base comes to is of the sort that is wanted. -/
theorem isInterface_resolveBase (a : Arena) (cls : ValueId) (base : BaseRef) (x : Analysis)
    {v : ValueId} (hv : (resolveBase a cls base x).1 = .cls v) :
    (resolveBase a cls base x).2.store.values.isInterface v = wantsInterface x cls base := by
  revert hv
  unfold resolveBase
  rw [run_bind, run_get, run_bind]
  dsimp only
  generalize heritage a base.node x = found
  obtain ⟨found, y⟩ := found
  cases found with
  | unresolved => intro hv; cases hv
  | other => intro hv; cases hv
  | cls w =>
    dsimp only
    rw [run_bind, run_get]
    dsimp only
    split
    · next hsort =>
      intro hv
      cases hv
      exact hsort
    · intro hv
      cases hv

/-- A base came to no class, or to one of the sort that is wanted. -/
def ComesTo (x : Analysis) (cls : ValueId) (base : BaseRef) (found : Heritage) : Prop :=
  ∀ v, found = .cls v → x.store.values.isClassLike v = true ∧
    x.store.values.isInterface v = wantsInterface x cls base

theorem ComesTo.still {x y : Analysis} {cls : ValueId} {base : BaseRef} {found : Heritage}
    (h : ComesTo x cls base found) (hcls : x.store.values.isClassLike cls = true)
    (hy : x.store.Still y.store) : ComesTo y cls base found := by
  intro v hv
  obtain ⟨hlike, hsort⟩ := h v hv
  have hsame := hy.sameKinds
  refine ⟨hsame.isClassLike hlike, ?_⟩
  rw [wantsInterface, hsame.isInterface_eq hlike, hsame.isInterface_eq hcls]
  exact hsort

theorem heritages_comesTo (a : Arena) (cls : ValueId) (bases : List BaseRef) {x : Analysis}
    (hnamed : x.store.Named) (hcls : x.store.values.isClassLike cls = true) :
    let y := bases.mapM (resolveBase a cls) x
    List.Forall₂ (ComesTo y.2 cls) bases y.1 := by
  induction bases generalizing x with
  | nil =>
    rw [List.mapM_nil]
    exact .nil
  | cons base rest ih =>
    rw [List.mapM_cons]
    obtain ⟨hfirst, hclass⟩ := resolveBase_findsClass a cls base x
    have hlater := hfirst.store.toStill.sameKinds.isClassLike hcls
    have hrest := (heritages_steady a cls rest (resolveBase a cls base x).2).1
    refine .cons ?_ (ih (hfirst.store.named hnamed) hlater)
    refine ComesTo.still (fun v hv => ⟨hclass v hv hnamed, ?_⟩) hlater hrest.store.toStill
    rw [isInterface_resolveBase a cls base x hv, wantsInterface, wantsInterface,
      hfirst.store.toStill.sameKinds.isInterface_eq hcls]

/-- The class that a base came to. -/
def Heritage.cls? : Heritage → Option ValueId
  | .cls v => some v
  | _ => none

/-- The bases of a class are the classes that its bases came to, in their order. -/
theorem sublist_foldl_push (heritages : List Heritage) (r : Resolved) :
    (heritages.foldl Resolved.push r).bases.Sublist
      (r.bases ++ heritages.filterMap Heritage.cls?) := by
  induction heritages generalizing r with
  | nil => simp
  | cons found rest ih =>
    rw [List.foldl_cons]
    cases found with
    | cls v =>
      have hrest : (Heritage.cls v :: rest).filterMap Heritage.cls? =
          v :: rest.filterMap Heritage.cls? := rfl
      refine (ih _).trans ?_
      rw [hrest, List.append_cons]
      refine List.Sublist.append_right ?_ _
      simp only [Resolved.push]
      split
      · exact List.sublist_append_left _ _
      · exact List.Sublist.refl _
    | other => exact ih r
    | unresolved => exact ih _

/-- Every class that a base came to is what some base wants. -/
theorem exists_comesTo {x : Analysis} {cls v : ValueId} {bases : List BaseRef}
    {heritages : List Heritage} (h : List.Forall₂ (ComesTo x cls) bases heritages)
    (hv : .cls v ∈ heritages) : ∃ base, ComesTo x cls base (.cls v) := by
  induction h with
  | nil => cases hv
  | cons hbase _ ih =>
    rcases List.mem_cons.1 hv with rfl | hv
    · exact ⟨_, hbase⟩
    · exact ih hv

/-- Bases came to no more classes that are no interfaces than there are bases to extend. -/
theorem filter_heritages_length_le {x : Analysis} {cls : ValueId} {bases : List BaseRef}
    {heritages : List Heritage} (h : List.Forall₂ (ComesTo x cls) bases heritages) :
    ((heritages.filterMap Heritage.cls?).filter (!x.store.values.isInterface ·)).length ≤
      (bases.filter (·.relation = .extending)).length := by
  induction h with
  | nil => exact Nat.le_refl 0
  | @cons base found bases heritages hbase _ ih =>
    have hskip := ((List.sublist_cons_self base bases).filter (·.relation = .extending)).length_le
    cases found with
    | cls v =>
      have hrest : (Heritage.cls v :: heritages).filterMap Heritage.cls? =
          v :: heritages.filterMap Heritage.cls? := rfl
      rw [hrest]
      cases hinterface : x.store.values.isInterface v with
      | true =>
        rw [List.filter_cons_of_neg (by simp [hinterface])]
        exact Nat.le_trans ih hskip
      | false =>
        have hwants := (hbase v rfl).2
        have hextends : base.relation = .extending := by
          rw [hinterface, wantsInterface] at hwants
          cases hrelation : base.relation with
          | extending => rfl
          | implementing => simp [hrelation] at hwants
        rw [List.filter_cons_of_pos (by simp [hinterface]),
          List.filter_cons_of_pos (by simp [hextends])]
        exact Nat.succ_le_succ ih
    | other => exact Nat.le_trans ih hskip
    | unresolved => exact Nat.le_trans ih hskip

/-- The bases that a class gets are of the right sort. -/
theorem fits_ofHeritages {x : Analysis} {decl : ClassDecl} {heritages : List Heritage}
    (h : List.Forall₂ (ComesTo x decl.cls) decl.bases heritages) (hone : decl.extended.length ≤ 1)
    {data : ClassData} (hdata : x.store.values.class? decl.cls = some data) :
    x.store.values.Fits { data with bases := (Resolved.ofHeritages heritages).bases } := by
  have hkind : x.store.values.isInterface decl.cls = data.kind.isInterface := by
    rw [ValueStore.isInterface, ValueStore.classKind?_eq, Store.baseClass_of_class? hdata, hdata]
    rfl
  have hmem : ∀ b ∈ (Resolved.ofHeritages heritages).bases, ∃ base, ComesTo x decl.cls base
      (.cls b) := by
    intro b hb
    rw [Resolved.ofHeritages, mem_bases_foldl_push] at hb
    exact exists_comesTo h (hb.resolve_left (by simp))
  refine ⟨fun b hb => ?_, fun hinterface b hb => ?_, ?_⟩
  · obtain ⟨base, hbase⟩ := hmem b hb
    exact (hbase b rfl).1
  · obtain ⟨base, hbase⟩ := hmem b hb
    rw [(hbase b rfl).2, wantsInterface, hkind]
    simp [show data.kind.isInterface = true from hinterface]
  · have hsublist := sublist_foldl_push heritages {}
    rw [List.nil_append] at hsublist
    exact Nat.le_trans (hsublist.filter _).length_le
      (Nat.le_trans (filter_heritages_length_le h) hone)

theorem fitsAt_of_still {s t : Store} {v : ValueId} (h : s.values.FitsAt v) (ht : s.Still t) :
    t.values.FitsAt v := by
  intro data hdata
  rw [ht.classes] at hdata
  exact (h data hdata).mono ht.sameKinds rfl rfl

theorem setBases_sameKinds (cls : ValueId) (bases : List ValueId) (x : Analysis) :
    x.store.values.SameKinds (setBases cls bases x).2.store.values where
  kinds v := by
    show ((x.store.values.updateClass cls _).class? v).map _ = _
    rw [ValueStore.class?_updateClass]
    split
    · rw [Option.map_map]
      rfl
    · rfl
  generic v data hv := ⟨data, (ValueStore.constructed?_updateClass _ _ _ _).trans hv, rfl⟩

/-- A class gets the bases that its own came to, and the other classes keep theirs. -/
theorem setBases_fitsAt {x : Analysis} {decl : ClassDecl} {heritages : List Heritage}
    (h : List.Forall₂ (ComesTo x decl.cls) decl.bases heritages) (hone : decl.extended.length ≤ 1)
    {v : ValueId} (hv : decl.cls = v ∨ x.store.values.FitsAt v) :
    (setBases decl.cls (Resolved.ofHeritages heritages).bases x).2.store.values.FitsAt v := by
  have hkinds := setBases_sameKinds decl.cls (Resolved.ofHeritages heritages).bases x
  intro data hdata
  have hget : (x.store.values.updateClass decl.cls _).class? v = some data := hdata
  rw [ValueStore.class?_updateClass] at hget
  split at hget
  · next heq =>
    obtain ⟨old, hold, rfl⟩ := Option.map_eq_some_iff.1 hget
    exact (fits_ofHeritages h hone (heq ▸ hold)).mono hkinds rfl rfl
  · next hne => exact (hv.resolve_left hne data hget).mono hkinds rfl rfl

/-- The bases of all classes that were declared are of the right sort. -/
theorem resolutions_fitsAt (a : Arena) {decls : List ClassDecl} {x : Analysis} (hx : x.Ready)
    (hdecls : ∀ decl ∈ decls, (x.store.values.class? decl.cls).isSome ∧ decl.extended.length ≤ 1)
    {v : ValueId} (hv : (∃ decl ∈ decls, decl.cls = v) ∨ x.store.values.FitsAt v) :
    (resolutions a decls x).2.store.values.FitsAt v := by
  induction decls generalizing x with
  | nil =>
    rcases hv with ⟨decl, hdecl, -⟩ | hv
    · cases hdecl
    · exact hv
  | cons decl rest ih =>
    obtain ⟨hclass, hone⟩ := hdecls decl List.mem_cons_self
    obtain ⟨hsteady, hcomes⟩ := heritages_steady a decl.cls decl.bases x
    have hfound := heritages_comesTo a decl.cls decl.bases hx.named
      (ValueStore.isClassLike_iff.2 (.inl hclass))
    let y := (decl.bases.mapM (resolveBase a decl.cls) x).2
    let bases := (Resolved.ofHeritages (decl.bases.mapM (resolveBase a decl.cls) x).1).bases
    let z := (setBases decl.cls bases y).2
    have hz : z.Ready := by
      refine setBases_ready (Analysis.ready_of_steady hsteady.store hsteady.classes hx) decl.cls
        fun b hb => ?_
      obtain ⟨base, hbase⟩ := exists_comesTo hfound
        (((mem_bases_foldl_push _ _ b).1 hb).resolve_left (by simp))
      exact (hbase b rfl).1
    have hkinds := setBases_sameKinds decl.cls bases y
    refine @ih z hz (fun other hother => ?_) ?_
    · obtain ⟨hclass, hone⟩ := hdecls other (List.mem_cons_of_mem _ hother)
      rw [← hsteady.store.toStill.sameKinds.isSome_class?] at hclass
      exact ⟨(hkinds.isSome_class? other.cls).trans hclass, hone⟩
    · rcases hv with ⟨other, hother, rfl⟩ | hv
      · rcases List.mem_cons.1 hother with rfl | hother
        · exact .inr (setBases_fitsAt hfound hone (.inl rfl))
        · exact .inl ⟨other, hother, rfl⟩
      · exact .inr (setBases_fitsAt hfound hone (.inr (fitsAt_of_still hv hsteady.store.toStill)))

/-- The bases of all classes are of the right sort when they were resolved. -/
theorem resolutions_fits (a : Arena) {x : Analysis} (hx : x.Ready) (hclosed : x.Closed)
    (hone : ∀ decl ∈ x.classes, decl.extended.length ≤ 1) (v : ValueId) :
    (resolvedStore a x).values.FitsAt v := by
  intro data hdata
  have hsame := (resolutions_resolves a x.classes x).finalized v
  have hclass : (x.store.values.class? v).isSome := by
    have hsome := congrArg Option.isSome hsame
    rw [Option.isSome_map, Option.isSome_map] at hsome
    rw [← hsome]
    exact Option.isSome_iff_exists.2 ⟨data, hdata⟩
  exact resolutions_fitsAt a hx (fun decl hdecl => ⟨hclosed.classes decl hdecl, hone decl hdecl⟩)
    (.inl (hx.declared v hclass)) data hdata

end Hierarchy

/-! ## Bases with types put in -/

namespace Store

variable {s t : Store} {order : List ValueId} {v : ValueId}

/-- The classes behind the direct bases are those behind the bases that are declared. -/
theorem forall₂_basesOf_baseClass (hs : s.Closed) (v : ValueId) :
    List.Forall₂ (fun b w => Hierarchy.baseClass (directBases v s).2.values w =
      Hierarchy.baseClass s.values b) (s.heritageOf v) (s.basesOf v) := by
  cases hclass : s.values.class? v with
  | some data =>
    rw [heritageOf_of_class? hclass, basesOf, directBases_of_class? hclass]
    exact List.forall₂_same.2 fun b _ => rfl
  | none =>
    cases hcon : s.values.constructed? v with
    | none =>
      have hheritage : s.heritageOf v = [] := by
        rw [heritageOf, Hierarchy.baseClass, hcon, Option.map_none, Option.getD_none, hclass]
        rfl
      rw [hheritage, basesOf, directBases_of_none hclass hcon]
      exact .nil
    | some data =>
      obtain ⟨generic, hgeneric⟩ := Option.isSome_iff_exists.1 (hs.named.generic v data hcon)
      have hknown := hs.valueKnown_of_mem_bases hgeneric
      have hsub : s.SubstitutionKnown (Substitution.ofArguments generic.typeParameters
        (s.types.list data.arguments)) := substitutionKnown_ofArguments (hs.canonical.lists _)
      rw [heritageOf_of_constructed? hcon hgeneric, basesOf,
        directBases_of_constructed? hcon hgeneric]
      refine (Runs.mapM_forall₂ (R := Builds) (Q := fun b w u => u.ValueKnown w ∧
        Hierarchy.baseClass u.values w = Hierarchy.baseClass s.values b) (.refl hs)
        (fun b w t u hu hw => ⟨hu.valueKnown hw.1, ?_⟩) fun b hb t ht => ?_).2.imp fun _ _ h => h.2
      · rw [hu.retains.keeps.baseClass_eq hw.1]
        exact hw.2
      · refine (instantiateClass_lasts ht.closed (hsub.mono ht)
          (ht.valueKnown (hknown b hb))).runs.weaken ?_
        intro w u _ hw
        exact ⟨hw.1, hw.2.trans (ht.retains.keeps.baseClass_eq (hknown b hb))⟩

/-- A direct base is an interface if the base that it is made from is one. -/
theorem forall₂_basesOf_kinds (hs : s.Closed) (v : ValueId) :
    List.Forall₂ (fun b w => (directBases v s).2.values.isInterface w = s.values.isInterface b)
      (s.heritageOf v) (s.basesOf v) := by
  have hclasses : s.SameClasses (directBases v s).2 := directBases_applies v s
  refine (forall₂_basesOf_baseClass hs v).imp fun b w h => ?_
  rw [ValueStore.isInterface, ValueStore.isInterface, ValueStore.classKind?_eq,
    ValueStore.classKind?_eq, h, hclasses]

/-! ## Ancestors -/

/-- The bases of a class are of the right sort later on. -/
theorem Ripens.fitsAt (h : s.Ripens t)
    (hkinds : ∀ v, (t.values.class? v).map (·.kind) = (s.values.class? v).map (·.kind))
    (hv : s.values.FitsAt v) : t.values.FitsAt v := by
  intro later hlater
  have hsame : s.values.SameKinds t.values := by
    refine ⟨hkinds, fun w data hw => ?_⟩
    obtain ⟨later, hlater, heq⟩ := h.constructed?_eq hw
    exact ⟨later, hlater, (Application.mk.inj heq).1⟩
  cases hclass : s.values.class? v with
  | none => cases (h.class?_eq_none hclass).symm.trans hlater
  | some data =>
    obtain ⟨later', hlater', hheritage⟩ := h.class?_eq hclass
    obtain rfl : later' = later := Option.some.inj (hlater'.symm.trans hlater)
    have hkind := hkinds v
    rw [hlater, hclass] at hkind
    exact (hv data hclass).mono hsame (Option.some.inj hkind) (Prod.mk.inj hheritage).2

/-- How sorts of classes go along with bases and ancestors: interfaces have interfaces above them
only, a class has one direct base at most that is no interface, and its ancestors that are none
are that one, the one of that, and so on. -/
structure Disciplined (s : Store) : Prop where
  interfaceBases : ∀ v, s.values.isInterface v = true →
    ∀ b ∈ s.basesOf v, (directBases v s).2.values.isInterface b = true
  interfaceAncestors : ∀ v ancestors, s.values.isInterface v = true →
    s.values.ancestors? v = some ancestors → ∀ w ∈ ancestors, s.values.isInterface w = true
  oneSuperclass : ∀ v,
    ((s.basesOf v).filter (!(directBases v s).2.values.isInterface ·)).length ≤ 1
  superclasses : ∀ v ancestors, s.values.ancestors? v = some ancestors →
    Line s.basesOf (!s.values.isInterface ·) (s.basesOf v)
      (ancestors.filter (!s.values.isInterface ·))

/-- The bases that the class behind a value declares are of the right sort. -/
theorem heritageOf_fits (hfits : ∀ v, s.values.FitsAt v) (v : ValueId) :
    (s.values.isInterface v = true → ∀ b ∈ s.heritageOf v, s.values.isInterface b = true) ∧
      ((s.heritageOf v).filter (!s.values.isInterface ·)).length ≤ 1 := by
  have hkind : s.values.isInterface v = ((s.values.class? (Hierarchy.baseClass s.values v)).map
      (·.kind)).any ClassKind.isInterface := by
    rw [ValueStore.isInterface, ValueStore.classKind?_eq]
  rw [heritageOf, hkind]
  cases hclass : s.values.class? (Hierarchy.baseClass s.values v) with
  | none => exact ⟨fun _ b hb => (List.not_mem_nil hb).elim, Nat.zero_le 1⟩
  | some data =>
    have hdata := hfits _ data hclass
    exact ⟨hdata.interfaces, hdata.one⟩

theorem length_filter_of_forall₂ {α β : Type} {p : α → Bool} {q : β → Bool}
    {xs : List α} {ys : List β}
    (h : List.Forall₂ (fun x y => q y = p x) xs ys) :
    (ys.filter q).length = (xs.filter p).length := by
  induction h with
  | nil => rfl
  | cons h _ ih =>
    rw [List.filter_cons, List.filter_cons, h]
    split
    · exact congrArg Nat.succ ih
    · exact ih

/-- The direct bases of a value are of the right sort. -/
theorem basesOf_fits (hs : s.Closed) (hfits : ∀ v, s.values.FitsAt v) (v : ValueId) :
    (s.values.isInterface v = true →
      (s.basesOf v).filter (!(directBases v s).2.values.isInterface ·) = []) ∧
      ((s.basesOf v).filter (!(directBases v s).2.values.isInterface ·)).length ≤ 1 := by
  obtain ⟨hinterfaces, hone⟩ := heritageOf_fits hfits v
  have hkinds := forall₂_basesOf_kinds hs v
  have hlength := length_filter_of_forall₂ (p := (!s.values.isInterface ·))
    (q := (!(directBases v s).2.values.isInterface ·)) (hkinds.imp fun _ _ h => congrArg Bool.not h)
  refine ⟨fun hv => ?_, hlength ▸ hone⟩
  have hnone : (s.heritageOf v).filter (!s.values.isInterface ·) = [] :=
    List.filter_eq_nil_iff.2 fun b hb => by simp [hinterfaces hv b hb]
  exact List.length_eq_zero_iff.1 (hlength.trans (by rw [hnone]; rfl))

/-- If ancestors were listed, and the bases of classes are of the right sort, so are
the ancestors. -/
theorem Traced.disciplined (h : Traced order s) (hfits : ∀ v, s.values.FitsAt v) :
    s.Disciplined := by
  have hline (v : ValueId) (ancestors : List ValueId) (hv : s.values.ancestors? v =
    some ancestors) :
      Line s.basesOf (!s.values.isInterface ·) (s.basesOf v)
        (ancestors.filter (!s.values.isInterface ·)) := by
    have hlisted := (h.noted v ancestors hv).listed
    have hat (w : ValueId) (hw : w = v ∨ w ∈ ancestors) := by
      have hbases := basesOf_fits h.store hfits w
      rwa [show (directBases w s).2 = s from hlisted.saturated w hw] at hbases
    have hmem := hlisted.eq_tiers
    rw [hmem] at hat ⊢
    refine line_tiersOnce hlisted.last (hat v (.inl rfl)).2 (fun w hw => (hat w (.inr hw)).2) ?_
    exact fun w hw hinterface => (hat w (.inr hw)).1 (by simpa using hinterface)
  refine ⟨fun v hv b hb => ?_, fun v ancestors hv hnoted w hw => ?_,
    fun v => (basesOf_fits h.store hfits v).2, hline⟩
  · have hnone := (basesOf_fits h.store hfits v).1 hv
    simpa using List.filter_eq_nil_iff.1 hnone b hb
  · have hbases := (basesOf_fits h.store hfits v).1 hv
    have hlisted := (h.noted v ancestors hnoted).listed
    rw [show (directBases v s).2 = s from hlisted.saturated v (.inl rfl)] at hbases
    have hnone := (hline v ancestors hnoted).eq (.nil hbases)
    simpa using List.filter_eq_nil_iff.1 hnone w hw

/-! ## Later stores -/

theorem Follows.ripens (h : s.Follows t) (hs : s.Closed) : s.Ripens t := by
  refine .ofSameClasses ?_ h.sameClasses
  induction h with
  | refl => exact .refl hs
  | still _ hkept _ ih => exact ih.trans hkept
  | finalize _ ih => exact ih.trans (finalizeAllConstructed_runs ih.closed).1.retains

theorem SameSites.kinds (h : s.SameSites t) (v : ValueId) :
    (t.values.class? v).map (·.kind) = (s.values.class? v).map (·.kind) := by
  have hkind (values : ValueStore) :
      (values.class? v).map (·.kind) = (values.classSite? v).map (·.2) := by
    unfold ValueStore.class? ValueStore.classSite?
    cases values.get? v with
    | none => rfl
    | some value => rw [Option.bind_some, Option.bind_some, Option.map_map]; rfl
  rw [hkind, hkind, h.classes v]

end Store

namespace Hierarchy

/-- Building the hierarchy leaves every class of its sort. -/
theorem build_sameSites (a : Arena) (x : Analysis) :
    (resolvedStore a x).SameSites (build a x).2.store := by
  rw [build_store]
  refine IsTrans.trans _ _ _ ?_ (Store.finalizeAllConstructed_sameSites _)
  rw [resolvedStore]
  generalize (resolutions a x.classes x).2.store = s
  unfold finalizeAll
  induction finalizedInOrder a x generalizing s with
  | nil => exact Std.Refl.refl s
  | cons cls rest ih => exact IsTrans.trans _ _ _ (finalizeClass_sameSites cls s) (ih _)

/-- The sorts of classes and ancestors go along whenever ancestors are listed. -/
theorem build_disciplined (a : Arena) {x : Analysis} (hx : x.Ready) (hclosed : x.Closed)
    (hlisted : x.store.Unlisted) (hone : ∀ decl ∈ x.classes, decl.extended.length ≤ 1) {s : Store}
    (hs : (build a x).2.store.Follows s) : s.Disciplined := by
  have htraces := build_traces a hx hclosed hlisted
  refine (htraces.traced.follows hs).disciplined fun v => ?_
  refine (htraces.ripens.trans (hs.ripens htraces.traced.store)).fitsAt (fun w => ?_)
    (resolutions_fits a hx hclosed hone v)
  rw [hs.sameClasses, (build_sameSites a x).kinds]

end Hierarchy

/-! ## Runs -/

namespace Analysis

/-- **Sorts of classes and their ancestors.** After the hierarchy is built, and whenever later the
ancestors of constructed classes are listed, as they are at the end of the third pass: the bases and
the ancestors of an interface, or of a constructed class of one, are interfaces. A class has one
direct base at most that is no interface. Its ancestors that are none, in the order in which they
are listed, are that one, then the one of that, and so on, until there is none. -/
theorem runPasses_disciplined (a : Arena) (reportUndefined : Bool) (root : NodeRef) :
    (∀ s, (runPasses a reportUndefined root 2).store.Follows s → s.Disciplined) ∧
      (runPasses a reportUndefined root 2).store.Follows
        (runPasses a reportUndefined root 3).store := by
  have hx : (runPasses a reportUndefined root 1).Ready := bindNames_ready a reportUndefined root
  have hclosed : (runPasses a reportUndefined root 1).Closed :=
    (bindNames_leads (closed_new a) a reportUndefined root).closed
  have hlisted : (runPasses a reportUndefined root 1).store.Unlisted :=
    bindNames_unlisted a reportUndefined root
  refine ⟨fun s hs => ?_, ?_⟩
  · rw [runPasses_two] at hs
    exact Hierarchy.build_disciplined a hx hclosed hlisted
      (bindNames_extended a reportUndefined root) hs
  · rw [runPasses_three, runPasses_two]
    exact Typing.run_follows (Hierarchy.build_runs hclosed a).1.closed a root

/-- In the shared tree, the class `A` applied to numbers has the class `B` and four interfaces above
it. -/
theorem sharedTypes_disciplined :
    (runPasses (sharedTree Builder.new).2.arena true (sharedTree Builder.new).1 2).store.Follows
        sharedTypes.store ∧
      sharedTypes.store.Disciplined ∧
      sharedTypes.store.values.ancestors? ⟨1023⟩ = some [⟨1014⟩, ⟨1025⟩, ⟨1019⟩, ⟨1026⟩, ⟨1021⟩] ∧
      [⟨1014⟩, ⟨1025⟩, ⟨1019⟩, ⟨1026⟩, ⟨1021⟩].filter (!sharedTypes.store.values.isInterface ·) =
        [⟨1014⟩] := by
  obtain ⟨hall, hfollows⟩ := runPasses_disciplined (sharedTree Builder.new).2.arena true
    (sharedTree Builder.new).1
  exact ⟨hfollows, hall sharedTypes.store hfollows, by decide +kernel⟩

end Analysis

end DocTypes
