import DocTypes.Hierarchy.Build
import DocTypes.Proofs.Handles.Ancestors
import DocTypes.Proofs.Handles.TypeExpr

/-!
# Handles in the class hierarchy

Resolving the bases of the declared classes, listing their ancestors and reporting their
cycles leads from a closed state to a closed one. The classes that are declared are there, so
their bases and ancestors have a place to be noted in.

## Main statements

* `Hierarchy.resolveBases_runs`: the bases that are noted are known.
* `Hierarchy.build_runs`: the whole pass leads to a closed state.
-/

namespace DocTypes

namespace Hierarchy

open Analysis

variable {x : Analysis}

/-! ## Bases -/

/-- The class that a base refers to is known. -/
def HeritageKnown (x : Analysis) (h : Heritage) : Prop := ∀ v, h = .cls v → x.store.ValueKnown v

theorem heritageKnown_other (x : Analysis) : HeritageKnown x .other := by
  intro v hv
  cases hv

theorem heritageKnown_unresolved (x : Analysis) : HeritageKnown x .unresolved := by
  intro v hv
  cases hv

theorem heritageKnown_cls {v : ValueId} (hv : x.store.ValueKnown v) : HeritageKnown x (.cls v) := by
  rintro w ⟨⟩
  exact hv

theorem heritageOfType_runs (hx : x.Closed) {t : TypeId} (ht : x.store.Known t) :
    Runs Leads x (heritageOfType t) fun h y => HeritageKnown y h := by
  refine .ite (fun _ => pure_runs hx (heritageKnown_unresolved x)) fun _ => ?_
  have hnull : x.store.Known .null := x.store.known_of_lt (by decide)
  refine (onStore_runs hx (Store.removeMember_runs hx.store ht hnull)).bind
    fun u y hy hu => .get_bind ?_
  split
  · next v hkey =>
      exact pure_runs hy.closed (heritageKnown_cls (hy.closed.store.canonical.keyKnown u _ hkey))
  · next v hkey =>
      exact pure_runs hy.closed (heritageKnown_cls (hy.closed.store.canonical.keyKnown u _ hkey))
  · exact pure_runs hy.closed (heritageKnown_other y)

theorem valueHeritage_runs (hx : x.Closed) (node : NodeRef) :
    Runs Leads x
      (match x.valueOf? node with
        | none => pure .unresolved
        | some v => pure (((x.classOf? v).map Heritage.cls).getD .other) : Analyze Heritage)
      fun h y => HeritageKnown y h := by
  split
  · exact pure_runs hx (heritageKnown_unresolved x)
  · next v hv =>
    refine pure_runs hx ?_
    cases hcls : x.classOf? v with
    | none => exact heritageKnown_other x
    | some cls => exact heritageKnown_cls (valueKnown_of_classOf? hcls)

theorem heritage_runs (hx : x.Closed) (a : Arena) (node : NodeRef) :
    Runs Leads x (heritage a node) fun h y => HeritageKnown y h := by
  unfold heritage
  split
  · exact pure_runs hx (heritageKnown_unresolved x)
  · refine .ite (fun _ => ?_) fun _ => .get_bind ?_
    · exact (TypeExpr.transform_runs hx a node .plain).bind fun t y hy ht =>
        heritageOfType_runs hy.closed ht
    · split
      · exact valueHeritage_runs hx node
      · exact valueHeritage_runs hx node
      · exact pure_runs hx (heritageKnown_other x)

theorem resolveBase_runs (hx : x.Closed) (a : Arena) (cls : ValueId) (base : BaseRef) :
    Runs Leads x (resolveBase a cls base) fun h y => HeritageKnown y h := by
  have hreported {y : Analysis} (hy : y.Closed) (problem : Problem) {h : Heritage}
      (hh : ∀ z, HeritageKnown z h) :
      Runs Leads y (do Analysis.reportAt a problem base.node; return h) fun h y =>
        HeritageKnown y h :=
    (reportAt_runs hy a _ _).bind fun _ z hz _ => pure_runs hz.closed (hh z)
  refine .get_bind ((heritage_runs hx a base.node).bind fun h y hy hh => ?_)
  cases h with
  | unresolved => exact hreported hy.closed _ heritageKnown_unresolved
  | other => exact hreported hy.closed _ heritageKnown_other
  | cls v =>
    refine .get_bind (.ite (fun _ => pure_runs hy.closed hh) fun _ => ?_)
    exact hreported hy.closed _ heritageKnown_other

/-- The bases that have been resolved are known. -/
def ResolvedKnown (r : Resolved) (x : Analysis) : Prop := ∀ b ∈ r.bases, x.store.ValueKnown b

theorem pushBase_runs (hx : x.Closed) (a : Arena) (cls : ValueId) {r : Resolved} (base : BaseRef)
    (hr : ResolvedKnown r x) : Runs Leads x (pushBase a cls r base) ResolvedKnown := by
  refine (resolveBase_runs hx a cls base).bind fun h y hy hh => ?_
  have hkept : ResolvedKnown r y := fun b hb => hy.valueKnown (hr b hb)
  cases h with
  | cls v =>
    refine pure_runs hy.closed ?_
    split
    · exact hkept
    · intro b hb
      rcases List.mem_append.1 hb with hb | hb
      · exact hkept b hb
      · exact List.mem_singleton.1 hb ▸ hh v rfl
  | other | unresolved => exact pure_runs hy.closed hkept

/-- Noting the bases of a declared class leads to a closed state. -/
theorem noteBases_runs (hx : x.Closed) (a : Arena) {decl : ClassDecl}
    (hdecl : (x.store.values.class? decl.cls).isSome) :
    Runs Leads x (noteBases a decl) fun _ _ => True := by
  have hstart : ResolvedKnown {} x := fun b hb => (List.not_mem_nil hb).elim
  refine (Runs.foldlM (.refl hx) hstart fun r base _ y hy hr =>
    pushBase_runs hy.closed a decl.cls base hr).bind fun resolved y hy hbases => ?_
  exact ⟨.onStore hy.closed (.change hy.closed.store
    (.noteBases decl.cls resolved.bases (hy.class? hdecl) hbases)), trivial⟩

/-- Resolving the bases of declared classes leads to a closed state. -/
theorem resolveBases_runs (hx : x.Closed) (a : Arena) {decls : List ClassDecl}
    (hdecls : ∀ decl ∈ decls, (x.store.values.class? decl.cls).isSome) :
    Runs Leads x (resolveBases a decls) fun _ _ => True := by
  induction decls generalizing x with
  | nil => exact pure_runs hx trivial
  | cons decl rest ih =>
    have hnoted := (noteBases_runs hx a (hdecls decl List.mem_cons_self)).1
    have hrest := (ih hnoted.closed fun d hd =>
      hnoted.class? (hdecls d (List.mem_cons_of_mem _ hd))).1
    exact ⟨hnoted.trans hrest, trivial⟩

/-! ## The pass -/

/-- Listing the ancestors of a class leads to a closed store. -/
theorem finalizeClass_runs {s : Store} (hs : s.Closed) (cls : ValueId) :
    Runs Store.Leads s (finalizeClass cls) fun _ _ => True := by
  refine .get_bind ?_
  split
  · next data hdata =>
    have hlinear := Store.linearize_runs hs (hs.valueKnown_of_mem_bases hdata)
    refine (Store.Builds.runs_leads hlinear).bind fun ancestors t ht hancestors => ?_
    have hcls := ht.class? (Option.isSome_iff_exists.2 ⟨data, hdata⟩)
    exact ⟨.change ht.closed (.noteAncestors cls ancestors hcls hancestors), trivial⟩
  · exact .pure (.refl hs) trivial

/-- Reporting cycles leads to a closed state. -/
theorem reportCycles_runs (hx : x.Closed) (a : Arena) (decls : List ClassDecl) :
    Runs Leads x (reportCycles a decls) fun _ _ => True := by
  refine .get_bind (Runs.forM (.refl hx) fun pair _ y hy => ?_)
  exact reportRelated_runs hy.closed a _ _ _

/-- Building the class hierarchy leads to a closed state. -/
theorem build_runs (hx : x.Closed) (a : Arena) : Runs Leads x (build a) fun _ _ => True := by
  refine .get_bind ((resolveBases_runs hx a hx.classes).bind fun blocked y hy _ => .get_bind ?_)
  refine (Runs.forM (.refl hy.closed) fun cls _ z hz =>
    onStore_runs hz.closed (finalizeClass_runs hz.closed.store cls)).bind fun _ z hz _ => ?_
  refine (reportCycles_runs hz.closed a _).bind fun _ w hw _ => ?_
  exact onStore_runs hw.closed (Store.finalizeAllConstructed_runs hw.closed.store)

end Hierarchy

end DocTypes
