import DocTypes.Proofs.Hierarchy.Frame

/-!
# Resolved bases

`resolutions` resolves the bases of the declared classes one by one, as `resolveBases` does,
and also tells what each base came to. A class is blocked if one of its bases came to
nothing.

`Analysis.Ready` says what holds between the declarations and the hierarchy: every class is
declared, none is finalized, and whatever a type or a base refers to as a class is one.

## Main statements

* `resolveBases_eq`: what is given back as blocked are the classes with an unresolved base.
* `resolutions_ready`: resolving bases keeps an analysis ready.
-/

namespace DocTypes

namespace Hierarchy

/-! ## What each base came to -/

/-- Add what one base came to. -/
def Resolved.push (r : Resolved) : Heritage → Resolved
  | .cls v => if v ∈ r.bases then r else { r with bases := r.bases ++ [v] }
  | .other => r
  | .unresolved => { r with complete := false }

/-- The direct bases of a class, from what each of its bases came to. -/
def Resolved.ofHeritages (heritages : List Heritage) : Resolved := heritages.foldl Resolved.push {}

/-- Fill in the bases of a class. -/
def setBases (cls : ValueId) (bases : List ValueId) : Analyze Unit :=
  Analysis.modifyValues (·.updateClass cls fun data => { data with bases })

/-- Resolve the bases of the declared classes, and tell what each came to. -/
def resolutions (a : Arena) : List ClassDecl → Analyze (List (ClassDecl × List Heritage))
  | [] => return []
  | decl :: rest => do
    let heritages ← decl.bases.mapM (resolveBase a decl.cls)
    setBases decl.cls (Resolved.ofHeritages heritages).bases
    let more ← resolutions a rest
    return (decl, heritages) :: more

/-- The classes with a base that came to nothing. -/
def blockedClasses (entries : List (ClassDecl × List Heritage)) : List ValueId :=
  (entries.filter (.unresolved ∈ ·.2)).map (·.1.cls)

theorem complete_foldl_push (heritages : List Heritage) (r : Resolved) :
    (heritages.foldl Resolved.push r).complete = true ↔
      r.complete = true ∧ .unresolved ∉ heritages := by
  induction heritages generalizing r with
  | nil => simp
  | cons h rest ih =>
    rw [List.foldl_cons, ih]
    cases h with
    | cls v =>
      simp only [Resolved.push]
      split <;> simp
    | other => simp [Resolved.push]
    | unresolved => simp [Resolved.push]

theorem mem_bases_foldl_push (heritages : List Heritage) (r : Resolved) (v : ValueId) :
    v ∈ (heritages.foldl Resolved.push r).bases ↔ v ∈ r.bases ∨ .cls v ∈ heritages := by
  induction heritages generalizing r with
  | nil => simp
  | cons h rest ih =>
    rw [List.foldl_cons, ih]
    cases h with
    | cls w =>
      simp only [Resolved.push]
      split
      · next hw =>
        simp only [List.mem_cons, Heritage.cls.injEq]
        constructor
        · exact fun h => h.imp_right .inr
        · rintro (h | rfl | h)
          · exact .inl h
          · exact .inl hw
          · exact .inr h
      · simp only [List.mem_append, List.mem_cons, List.not_mem_nil, or_false, Heritage.cls.injEq,
          or_assoc]
    | other => simp [Resolved.push]
    | unresolved => simp [Resolved.push]

theorem foldlM_pushBase (a : Arena) (cls : ValueId) (bases : List BaseRef) (r : Resolved) :
    bases.foldlM (pushBase a cls) r
      = (fun heritages => heritages.foldl Resolved.push r) <$> bases.mapM (resolveBase a cls) := by
  induction bases generalizing r with
  | nil => simp
  | cons base rest ih =>
    have hpush : pushBase a cls r base = r.push <$> resolveBase a cls base := by
      unfold pushBase
      rw [map_eq_pure_bind]
      congr 1
      funext h
      cases h with
      | cls v => simp only [Resolved.push]
      | other => rfl
      | unresolved => rfl
    rw [List.foldlM_cons, hpush, List.mapM_cons]
    simp [ih]

/-- The blocked classes are those with a base that came to nothing. -/
theorem resolveBases_eq (a : Arena) (decls : List ClassDecl) :
    resolveBases a decls = blockedClasses <$> resolutions a decls := by
  induction decls with
  | nil => simp [resolveBases, resolutions, blockedClasses]
  | cons decl rest ih =>
    have hcomplete (heritages : List Heritage) := complete_foldl_push heritages {}
    simp only [resolveBases, resolutions, foldlM_pushBase, ih, bind_map_left, map_bind, map_pure,
      Resolved.ofHeritages, setBases]
    congr 1
    funext heritages
    congr 1
    funext _
    congr 1
    funext more
    by_cases h : Heritage.unresolved ∈ heritages
    · have hnot : ¬(heritages.foldl Resolved.push {}).complete = true := fun hc =>
        ((hcomplete heritages).1 hc).2 h
      simp [blockedClasses, h, hnot]
    · have hc : (heritages.foldl Resolved.push {}).complete = true :=
        (hcomplete heritages).2 ⟨rfl, h⟩
      simp [blockedClasses, h, hc]

end Hierarchy

/-! ## Ready analyses -/

/-- Every class is declared and not finalized, and what types and bases refer to as a class
is one. -/
structure Analysis.Ready (x : Analysis) : Prop where
  declared : ∀ v, (x.store.values.class? v).isSome → ∃ decl ∈ x.classes, decl.cls = v
  fresh : ∀ v cls, x.store.values.class? v = some cls → cls.finalized = false
  named : x.store.Named
  bases : ∀ v cls, x.store.values.class? v = some cls → ∀ b ∈ cls.bases,
    x.store.values.isClassLike b = true

namespace Analysis

/-- Bases are filled in: the declarations, the classes and what is finalized stay, and no
cycle is reported. -/
structure Resolves (x y : Analysis) : Prop where
  classes : y.classes = x.classes
  cycles : y.cycleReports = x.cycleReports
  finalized : ∀ v, (y.store.values.class? v).map (·.finalized)
    = (x.store.values.class? v).map (·.finalized)
  unlisted : x.store.Unlisted → y.store.Unlisted

instance : Std.Refl Resolves := ⟨fun _ => ⟨rfl, rfl, fun _ => rfl, id⟩⟩

instance : IsTrans Analysis Resolves :=
  ⟨fun _ _ _ h h' => ⟨h'.classes.trans h.classes, h'.cycles.trans h.cycles,
    fun v => (h'.finalized v).trans (h.finalized v), fun hx => h'.unlisted (h.unlisted hx)⟩⟩

theorem isClassLike_of_steady {x y : Analysis} (h : x.store.Steady y.store) {v : ValueId}
    (hv : x.store.values.isClassLike v = true) : y.store.values.isClassLike v = true := by
  rw [ValueStore.isClassLike_iff] at hv ⊢
  rw [h.classes v]
  exact hv.imp_right h.isSome_constructed?

theorem Steady.resolves {x y : Analysis} (h : Steady x y) : Resolves x y :=
  ⟨h.classes, h.cycles, fun v => by rw [h.store.classes v], h.store.keepsUnlisted⟩

/-- An analysis stays ready if its store stays steady and no class is declared. -/
theorem ready_of_steady {x y : Analysis} (h : x.store.Steady y.store)
    (hclasses : y.classes = x.classes) (hx : x.Ready) : y.Ready := by
  refine ⟨fun v hv => ?_, fun v cls hv => ?_, h.named hx.named, fun v cls hv b hb => ?_⟩
  · rw [h.classes v] at hv
    exact hclasses ▸ hx.declared v hv
  · rw [h.classes v] at hv
    exact hx.fresh v cls hv
  · rw [h.classes v] at hv
    exact isClassLike_of_steady h (hx.bases v cls hv b hb)

end Analysis

namespace Hierarchy

open Analysis

/-! ## Resolving keeps an analysis ready -/

theorem setBases_resolves (cls : ValueId) (bases : List ValueId) :
    Moves Resolves (setBases cls bases) := by
  refine fun x => ⟨rfl, rfl, fun v => ?_, fun hx v data hv => ?_⟩
  · show ((x.store.values.updateClass cls _).class? v).map _ = _
    rw [ValueStore.class?_updateClass]
    split
    · rw [Option.map_map]
      rfl
    · rfl
  · exact hx v data ((ValueStore.constructed?_updateClass _ _ _ _).symm.trans hv)

/-- Bases that are classes or constructed classes keep an analysis ready. -/
theorem setBases_ready {x : Analysis} (hx : x.Ready) (cls : ValueId) {bases : List ValueId}
    (h : ∀ b ∈ bases, x.store.values.isClassLike b = true) : (setBases cls bases x).2.Ready := by
  have hclass {v : ValueId} {data : ClassData}
      (hv : (x.store.values.updateClass cls fun data => { data with bases }).class? v = some data) :
      ∃ old, x.store.values.class? v = some old ∧ data.finalized = old.finalized ∧
        (data.bases = bases ∨ data.bases = old.bases) := by
    rw [ValueStore.class?_updateClass] at hv
    split at hv
    · obtain ⟨old, hold, rfl⟩ := Option.map_eq_some_iff.1 hv
      exact ⟨old, hold, rfl, .inl rfl⟩
    · exact ⟨data, hv, rfl, .inr rfl⟩
  refine ⟨fun v hv => ?_, fun v data hv => ?_, ⟨fun t v hk => ?_, fun t v hk => ?_,
    fun v data hv => ?_, fun y v hy => ?_⟩, fun v data hv b hb => ?_⟩
  · exact hx.declared v (by rwa [← ValueStore.isSome_class?_updateClass])
  · obtain ⟨old, hold, hfinalized, _⟩ := hclass hv
    exact hfinalized.trans (hx.fresh v old hold)
  · exact (ValueStore.isSome_class?_updateClass _ _ _ _).trans (hx.named.instanceOf t v hk)
  · exact (congrArg Option.isSome (ValueStore.constructed?_updateClass _ _ _ _)).trans
      (hx.named.constructedInstanceOf t v hk)
  · refine (ValueStore.isSome_class?_updateClass _ _ _ _).trans (hx.named.generic v data ?_)
    exact (ValueStore.constructed?_updateClass _ _ _ _).symm.trans hv
  · refine (congrArg Option.isSome (ValueStore.constructed?_updateClass _ _ _ _)).trans ?_
    refine hx.named.applied y v ?_
    rw [← hy]
    exact congrArg (·[y]?) (ValueStore.applications_updateClass _ _ _).symm
  · refine ValueStore.isClassLike_updateClass.2 ?_
    obtain ⟨old, hold, _, hbases⟩ := hclass hv
    rcases hbases with hbases | hbases
    · exact h b (hbases ▸ hb)
    · exact hx.bases v old hold b (hbases ▸ hb)

/-- The step is steady, and if it comes to a class, that is one. -/
def FindsClass (x : Analysis) (m : Analyze Heritage) : Prop :=
  Steady x (m x).2 ∧ ∀ v, (m x).1 = .cls v → x.store.Named →
    (m x).2.store.values.isClassLike v = true

namespace FindsClass

variable {x : Analysis}

theorem bind {α : Type} {m : Analyze α} {f : α → Analyze Heritage} (hm : MovesFrom Steady x m)
    (hf : FindsClass (m x).2 (f (m x).1)) : FindsClass x (m >>= f) :=
  ⟨IsTrans.trans _ _ _ hm hf.1, fun v hv hx => hf.2 v hv (hm.store.named hx)⟩

theorem get_bind {f : Analysis → Analyze Heritage} (h : FindsClass x (f x)) :
    FindsClass x (get >>= f) := h

theorem other : FindsClass x (pure .other) := ⟨Std.Refl.refl x, by intro v hv; cases hv⟩

theorem unresolved : FindsClass x (pure .unresolved) := ⟨Std.Refl.refl x, by intro v hv; cases hv⟩

theorem cls {v : ValueId} (h : x.store.Named → x.store.values.isClassLike v = true) :
    FindsClass x (pure (.cls v)) := by
  refine ⟨Std.Refl.refl x, ?_⟩
  intro w hw hx
  cases hw
  exact h hx

end FindsClass

theorem heritageOfType_findsClass (x : Analysis) (t : TypeId) :
    FindsClass x (heritageOfType t) := by
  unfold heritageOfType
  split
  · exact .unresolved
  · refine .bind (onTypes_steady (fun types => .removeMember types _ _) x) (.get_bind ?_)
    split
    · next v hkey =>
      exact .cls fun hx => ValueStore.isClassLike_iff.2 (.inl (hx.instanceOf _ v hkey))
    · next v hkey =>
      exact .cls fun hx => ValueStore.isClassLike_iff.2 (.inr (hx.constructedInstanceOf _ v hkey))
    · exact .other

theorem valueHeritage_findsClass (node : NodeRef) (x : Analysis) :
    FindsClass x (match x.valueOf? node with
      | none => return .unresolved
      | some v => return ((x.classOf? v).map Heritage.cls).getD .other) := by
  split
  · exact .unresolved
  · next v _ =>
    cases hclass : x.classOf? v with
    | none => exact .other
    | some w =>
      refine .cls fun _ => ?_
      unfold classOf? at hclass
      split at hclass
      · next hlike => exact Option.some.inj hclass ▸ hlike
      · simp at hclass

theorem heritage_findsClass (a : Arena) (node : NodeRef) (x : Analysis) :
    FindsClass x (heritage a node) := by
  unfold heritage
  split
  · exact .unresolved
  · next kind _ =>
    split
    · exact .bind (TypeExpr.transform_steady a node .plain x) (heritageOfType_findsClass _ _)
    · refine .get_bind ?_
      split
      · exact valueHeritage_findsClass node x
      · exact valueHeritage_findsClass node x
      · exact .other

/-- A base of the wrong sort is no cycle. -/
theorem sortProblem_ne_inheritanceCycle (interface : Bool) :
    sortProblem interface ≠ .inheritanceCycle := by
  cases interface <;> decide

theorem resolveBase_steady (a : Arena) (cls : ValueId) (base : BaseRef) :
    Moves Steady (resolveBase a cls base) := by
  have hheritage : Moves Steady (heritage a base.node) := fun x =>
    (heritage_findsClass a base.node x).1
  refine .bind .get fun x => .bind hheritage fun h => ?_
  split
  · exact .bind (reportAt_steady a _ (by decide)) fun _ => .pure _
  · exact .bind (reportAt_steady a _ (sortProblem_ne_inheritanceCycle _)) fun _ => .pure _
  · exact .bind .get fun _ => .ite (fun _ => .pure _) fun _ =>
      .bind (reportAt_steady a _ (sortProblem_ne_inheritanceCycle _)) fun _ => .pure _

theorem resolveBase_findsClass (a : Arena) (cls : ValueId) (base : BaseRef) (x : Analysis) :
    FindsClass x (resolveBase a cls base) := by
  refine ⟨resolveBase_steady a cls base x, fun w hw hx => ?_⟩
  obtain ⟨hsteady, hclass⟩ := heritage_findsClass a base.node x
  suffices h : FindsClass x (resolveBase a cls base) from h.2 w hw hx
  refine .get_bind (.bind hsteady ?_)
  split
  · exact .bind (reportAt_steady a _ (by decide) _) .unresolved
  · exact .bind (reportAt_steady a _ (sortProblem_ne_inheritanceCycle _) _) .other
  · next v hv =>
    refine .get_bind ?_
    split
    · exact .cls fun _ => hclass v hv hx
    · exact .bind (reportAt_steady a _ (sortProblem_ne_inheritanceCycle _) _) .other

/-- What the bases of one class came to. -/
theorem heritages_steady (a : Arena) (cls : ValueId) (bases : List BaseRef) (x : Analysis) :
    let y := bases.mapM (resolveBase a cls) x
    Steady x y.2 ∧ ∀ v, .cls v ∈ y.1 → x.store.Named → y.2.store.values.isClassLike v = true := by
  induction bases generalizing x with
  | nil =>
    rw [List.mapM_nil]
    exact ⟨Std.Refl.refl x, fun v hv => (List.not_mem_nil hv).elim⟩
  | cons base rest ih =>
    rw [List.mapM_cons]
    obtain ⟨hfirst, hclass⟩ := resolveBase_findsClass a cls base x
    obtain ⟨hrest, hclasses⟩ := ih (resolveBase a cls base x).2
    refine ⟨IsTrans.trans _ _ _ hfirst hrest, fun v hv hnamed => ?_⟩
    rcases List.mem_cons.1 hv with hv | hv
    · exact isClassLike_of_steady hrest.store (hclass v hv.symm hnamed)
    · exact hclasses v hv (hfirst.store.named hnamed)

theorem resolutions_resolves (a : Arena) (decls : List ClassDecl) :
    Moves Resolves (resolutions a decls) := by
  induction decls with
  | nil => exact .pure []
  | cons decl rest ih =>
    have hbases : Moves Resolves (decl.bases.mapM (resolveBase a decl.cls)) :=
      .mapM fun base _ x => (resolveBase_steady a decl.cls base x).resolves
    exact .bind hbases fun _ => .bind (setBases_resolves _ _) fun _ => .bind ih fun _ => .pure _

/-- Resolving bases keeps an analysis ready. -/
theorem resolutions_ready (a : Arena) (decls : List ClassDecl) {x : Analysis} (hx : x.Ready) :
    (resolutions a decls x).2.Ready := by
  induction decls generalizing x with
  | nil => exact hx
  | cons decl rest ih =>
    obtain ⟨hsteady, hclass⟩ := heritages_steady a decl.cls decl.bases x
    refine ih (setBases_ready (ready_of_steady hsteady.store hsteady.classes hx) decl.cls
      fun b hb => ?_)
    rw [Resolved.ofHeritages, mem_bases_foldl_push] at hb
    exact hclass b (hb.resolve_left (by simp)) hx.named

end Hierarchy

end DocTypes
