import DocTypes.Proofs.Hierarchy.Connection
import DocTypes.Proofs.Hierarchy.Finalization
import DocTypes.Proofs.Occurrences

/-!
# Which cycles are reported

The classes that are left over after the others were finalized form a graph, in which each
class leads to the classes it is built on. A cycle of classes lies inside this graph, because
no class on a cycle is finalized. So the edges inside the components of the graph are the edges
that lie on a cycle, and the pairs of classes at their ends are reported, each once.

Finalizing classes makes constructed classes and fills in ancestor lists. It changes neither
the bases of a class nor the class behind a base (`Store.SameGenerics`), so the graph is the
one that the resolved bases gave.

## Main statement

* `build_reportsCycles`: which cycles are reported, and how.
-/

namespace DocTypes

/-! ## The graph stays -/

namespace Store

/-- What is a class or a constructed class stays one, with the same class behind it. -/
def SameGenerics (s s' : Store) : Prop :=
  ∀ v, s.values.isClassLike v = true → s'.values.isClassLike v = true ∧
    Hierarchy.baseClass s'.values v = Hierarchy.baseClass s.values v

instance : Std.Refl SameGenerics := ⟨fun _ _ h => ⟨h, rfl⟩⟩

instance : IsTrans Store SameGenerics :=
  ⟨fun _ _ _ h h' v hv =>
    ⟨(h' v (h v hv).1).1, ((h' v (h v hv).1).2).trans (h v hv).2⟩⟩

instance : Applies SameGenerics where
  types _ _ _ h := ⟨h, rfl⟩
  constructed s node generic arguments v hv := by
    rcases s.values.get?_newConstructedClass node generic arguments v with h | ⟨hnone, _⟩
    · simp only [Hierarchy.baseClass, ValueStore.constructed?, ValueStore.isClassLike, h]
      exact ⟨hv, trivial⟩
    · simp [ValueStore.isClassLike, hnone] at hv

end Store

namespace Hierarchy

open Relation

theorem finalizeClass_sameGenerics (c : ValueId) : Moves Store.SameGenerics (finalizeClass c) := by
  refine .bind .get fun s => ?_
  split
  · refine .bind (Store.linearize_applies _) fun ancestors s v hv => ⟨?_, ?_⟩
    · exact ValueStore.isClassLike_updateClass.2 hv
    · unfold baseClass
      exact congrArg (fun data => (Option.map (·.generic) data).getD v)
        (ValueStore.constructed?_updateClass s.values c v _)
  · exact .pure ()

/-- Finalizing leaves the bases of a class as they are. -/
theorem bases_finalizeClass (c v : ValueId) (s : Store) :
    ((finalizeClass c s).2.values.class? v).map (·.bases) = (s.values.class? v).map (·.bases) := by
  obtain ⟨ancestors, h⟩ := class?_finalizeClass c v s
  rw [h]
  split
  · rw [Option.map_map]
    rfl
  · rfl

/-- Finalizing leaves the classes that a class is built on as they are. -/
theorem baseClasses_finalizeAll {s : Store}
    (h : ∀ v cls, s.values.class? v = some cls → ∀ b ∈ cls.bases, s.values.isClassLike b = true)
    (order : List ValueId) (c : ValueId) :
    baseClasses (finalizeAll order s).values c = baseClasses s.values c := by
  have hkept : Store.SameGenerics s (finalizeAll order s) ∧
      ((finalizeAll order s).values.class? c).map (·.bases) =
        (s.values.class? c).map (·.bases) := by
    clear h
    induction order generalizing s with
    | nil => exact ⟨Std.Refl.refl s, rfl⟩
    | cons d order ih =>
      obtain ⟨hgenerics, hbases⟩ := @ih (finalizeClass d s).2
      exact ⟨IsTrans.trans _ _ _ (finalizeClass_sameGenerics d s) hgenerics,
        hbases.trans (bases_finalizeClass d c s)⟩
  unfold baseClasses
  rw [hkept.2]
  cases hc : s.values.class? c with
  | none => rfl
  | some cls => exact List.map_congr_left fun b hb => (hkept.1 b (h c cls hc b hb)).2

/-! ## The graph of the classes that are left over -/

section Pairs

variable {values : ValueStore} {classes : Registry ValueId}

theorem get?_eq_some_iff_toList {i : Nat} {c : ValueId} :
    classes.get? i = some c ↔ classes.toList[i]? = some c := by
  simp [Registry.get?, Registry.toList]

theorem exists_get?_of_mem {c : ValueId} (h : c ∈ classes.toList) :
    ∃ i, classes.get? i = some c := by
  obtain ⟨i, hi⟩ := List.mem_iff_getElem?.1 h
  exact ⟨i, get?_eq_some_iff_toList.2 hi⟩

/-- An edge of the graph leads from a class to one that it is built on. -/
theorem edge_baseGraph {i j : Nat} :
    (baseGraph values classes).Edge i j ↔
      ∃ c d, classes.get? i = some c ∧ classes.get? j = some d ∧ BuiltOn values c d := by
  have hsize : (baseGraph values classes).size = classes.toList.length := by
    simp [baseGraph, Graph.size]
  have htargets (c : ValueId) (hc : classes.get? i = some c) :
      (baseGraph values classes).targets i = (baseClasses values c).filterMap classes.find? := by
    rw [get?_eq_some_iff_toList] at hc
    simp [baseGraph, Graph.targets, hc]
  simp only [Graph.Edge, hsize]
  constructor
  · rintro ⟨hi, hj, hmem⟩
    have hc : classes.get? i = some classes.toList[i] :=
      get?_eq_some_iff_toList.2 (List.getElem?_eq_getElem hi)
    rw [htargets _ hc, List.mem_filterMap] at hmem
    obtain ⟨d, hd, hfind⟩ := hmem
    exact ⟨_, d, hc, Registry.find?_eq_some_iff.1 hfind, hd⟩
  · rintro ⟨c, d, hc, hd, hbuilt⟩
    have hi := get?_eq_some_iff_toList.1 hc
    have hj := get?_eq_some_iff_toList.1 hd
    refine ⟨(List.getElem?_eq_some_iff.1 hi).1, (List.getElem?_eq_some_iff.1 hj).1, ?_⟩
    rw [htargets c hc, List.mem_filterMap]
    exact ⟨d, hbuilt, Registry.find?_eq_some_iff.2 hd⟩

/-- A path of the graph is a path of classes. -/
theorem reaches_of_baseGraph {i j : Nat} {c d : ValueId} (hc : classes.get? i = some c)
    (hd : classes.get? j = some d) (h : ReflTransGen (baseGraph values classes).Edge i j) :
    ReflTransGen (BuiltOn values) c d := by
  induction h generalizing d with
  | refl =>
    rw [hc] at hd
    exact Option.some.inj hd ▸ .refl
  | tail _ hedge ih =>
    obtain ⟨e, f, he, hf, hbuilt⟩ := edge_baseGraph.1 hedge
    rw [hd] at hf
    exact .tail (ih he) (Option.some.inj hf ▸ hbuilt)

/-- A path that leads back to where it is reached from stays among the classes that are left
over, if these include all classes on cycles. -/
theorem reaches_baseGraph (hcycles : ∀ c, TransGen (BuiltOn values) c c → c ∈ classes.toList)
    {i j : Nat} {c d : ValueId} (hc : classes.get? i = some c) (hd : classes.get? j = some d)
    (hback : TransGen (BuiltOn values) d c) (h : ReflTransGen (BuiltOn values) c d) :
    ReflTransGen (baseGraph values classes).Edge i j := by
  induction h generalizing j with
  | refl => exact (Registry.eq_of_get?_eq hc hd) ▸ .refl
  | @tail e d hpath hbuilt ih =>
    have hreturn : TransGen (BuiltOn values) e c := .head hbuilt hback
    obtain ⟨k, hk⟩ := exists_get?_of_mem (hcycles e (hreturn.trans_left hpath))
    exact .tail (ih hk hreturn) (edge_baseGraph.2 ⟨e, d, hk, hd, hbuilt⟩)

/-- The pairs of classes that are joined by an edge of a cycle. -/
theorem mem_cyclePairs_iff (hcycles : ∀ c, TransGen (BuiltOn values) c c → c ∈ classes.toList)
    {v w : ValueId} :
    (v, w) ∈ cyclePairs values classes ↔ v.index ≤ w.index ∧
      ((BuiltOn values v w ∧ ReflTransGen (BuiltOn values) w v) ∨
        (BuiltOn values w v ∧ ReflTransGen (BuiltOn values) v w)) := by
  have hpair (c d : ValueId) : orderedPair c d = (v, w) ↔
      v.index ≤ w.index ∧ ((c = v ∧ d = w) ∨ (c = w ∧ d = v)) := by
    obtain ⟨i⟩ := c
    obtain ⟨j⟩ := d
    obtain ⟨k⟩ := v
    obtain ⟨l⟩ := w
    simp only [orderedPair]
    split <;> simp only [Prod.mk.injEq, ValueId.mk.injEq] <;> omega
  have hmem : (v, w) ∈ cyclePairs values classes ↔ ∃ c d, orderedPair c d = (v, w) ∧
      BuiltOn values c d ∧ ReflTransGen (BuiltOn values) d c := by
    simp only [cyclePairs, List.mem_eraseDups, List.mem_filterMap, Prod.exists,
      Graph.mem_innerEdges_iff]
    constructor
    · rintro ⟨i, j, ⟨hedge, hpath⟩, heq⟩
      obtain ⟨c, d, hc, hd, hbuilt⟩ := edge_baseGraph.1 hedge
      simp only [hc, hd, Option.bind_eq_bind, Option.bind_some, Option.pure_def,
        Option.some.injEq] at heq
      exact ⟨c, d, heq, hbuilt, reaches_of_baseGraph hd hc hpath⟩
    · rintro ⟨c, d, heq, hbuilt, hpath⟩
      obtain ⟨i, hi⟩ := exists_get?_of_mem (hcycles c (.head' hbuilt hpath))
      obtain ⟨j, hj⟩ := exists_get?_of_mem (hcycles d (.tail' hpath hbuilt))
      refine ⟨i, j, ⟨edge_baseGraph.2 ⟨c, d, hi, hj, hbuilt⟩,
        reaches_baseGraph hcycles hj hi (.single hbuilt) hpath⟩, ?_⟩
      simp only [hi, hj, Option.bind_eq_bind, Option.bind_some, Option.pure_def, heq]
  rw [hmem]
  constructor
  · rintro ⟨c, d, heq, hbuilt, hpath⟩
    obtain ⟨hle, ⟨rfl, rfl⟩ | ⟨rfl, rfl⟩⟩ := (hpair c d).1 heq
    · exact ⟨hle, .inl ⟨hbuilt, hpath⟩⟩
    · exact ⟨hle, .inr ⟨hbuilt, hpath⟩⟩
  · rintro ⟨hle, ⟨hbuilt, hpath⟩ | ⟨hbuilt, hpath⟩⟩
    · exact ⟨v, w, (hpair v w).2 ⟨hle, .inl ⟨rfl, rfl⟩⟩, hbuilt, hpath⟩
    · exact ⟨w, v, (hpair w v).2 ⟨hle, .inr ⟨rfl, rfl⟩⟩, hbuilt, hpath⟩

theorem cyclePairs_nodup : (cyclePairs values classes).Nodup := nodup_eraseDups _

theorem mem_leftOver {decls : List ClassDecl} {c : ValueId} :
    c ∈ (leftOver values decls).toList ↔
      (∃ decl ∈ decls, decl.cls = c) ∧ values.isFinalized c = false := by
  have hfold (xs : List ValueId) (classes : Registry ValueId) :
      c ∈ (xs.foldl Registry.insert classes).toList ↔ c ∈ classes.toList ∨ c ∈ xs := by
    induction xs generalizing classes with
    | nil => simp
    | cons x xs ih => rw [List.foldl_cons, ih, Registry.mem_toList_insert, List.mem_cons, or_assoc]
  rw [leftOver, hfold, List.mem_filter, mem_declared]
  simp [Registry.toList, Registry.empty]

end Pairs

/-! ## The reports -/

/-- The report of a pair of classes next to each other on a cycle. -/
def cycleReport (a : Arena) (decls : List ClassDecl) (pair : ValueId × ValueId) : Diagnostic :=
  { problem := .inheritanceCycle, span := a.span (reportNode decls pair.1)
    related := some (a.span (reportNode decls pair.2)) }

theorem cycleReports_onStore {α : Type} (m : StateM Store α) (x : Analysis) :
    (Analyze.onStore m x).2.cycleReports = x.cycleReports := rfl

theorem cycleReports_forM (a : Arena) (decls : List ClassDecl) (pairs : List (ValueId × ValueId))
    (x : Analysis) :
    ((pairs.forM fun (v, w) => Analysis.reportRelated a .inheritanceCycle
      (reportNode decls v) (reportNode decls w) : Analyze Unit) x).2.cycleReports
      = x.cycleReports ++ pairs.map (cycleReport a decls) := by
  induction pairs generalizing x with
  | nil => exact (List.append_nil _).symm
  | cons pair pairs ih =>
    refine (ih _).trans ?_
    have hone : (Analysis.reportRelated a .inheritanceCycle (reportNode decls pair.1)
        (reportNode decls pair.2) x).2.cycleReports
          = x.cycleReports ++ [cycleReport a decls pair] := by
      show (x.diagnostics.push _).toList.filter _ = x.diagnostics.toList.filter _ ++ _
      simp [cycleReport]
    exact (congrArg (· ++ _) hone).trans (by simp)

theorem cycleReports_reportCycles (a : Arena) (decls : List ClassDecl) (x : Analysis) :
    (reportCycles a decls x).2.cycleReports = x.cycleReports ++
      (cyclePairs x.store.values (leftOver x.store.values decls)).map (cycleReport a decls) :=
  cycleReports_forM a decls _ x

section Build

variable (a : Arena) (x : Analysis)

/-- The analysis when cycles are reported: the classes that settle are finalized. -/
def finalizedAnalysis : Analysis :=
  { (resolutions a x.classes x).2 with
    store := finalizeAll (finalizedInOrder a x) (resolutions a x.classes x).2.store }

/-- The cycles that the second pass reports are those it finds once the classes that settle are
finalized. -/
theorem cycleReports_build :
    (build a x).2.cycleReports = x.cycleReports ++
      (cyclePairs (finalizedAnalysis a x).store.values
        (leftOver (finalizedAnalysis a x).store.values x.classes)).map (cycleReport a
          x.classes) := by
  have hresolve : resolveBases a x.classes x
      = (blockedClasses (resolutions a x.classes x).1, (resolutions a x.classes x).2) := by
    rw [resolveBases_eq]
    rfl
  have hcycles : (finalizedAnalysis a x).cycleReports = x.cycleReports :=
    (resolutions_resolves a x.classes x).cycles
  unfold build
  -- the bound on the rounds of the last step is too large to be looked at
  generalize Store.finalizeAllConstructed = last
  rw [run_bind, run_get, run_bind, hresolve, run_bind, run_get, run_bind, run_bind]
  rw [cycleReports_onStore, cycleReports_reportCycles, forM_finalizeClass]
  exact congrArg (· ++ _) hcycles

/-- A class on a cycle is declared, and left over. -/
theorem mem_leftOver_of_cycle (hx : x.Ready) {c : ValueId}
    (hc : TransGen (BuiltOn (resolvedValues a x)) c c) :
    c ∈ (leftOver (finalizedAnalysis a x).store.values x.classes).toList := by
  have hsome : ((resolvedValues a x).class? c).isSome := by
    obtain ⟨d, hd, _⟩ := TransGen.head'_iff.1 hc
    by_contra hnone
    simp only [Bool.not_eq_true, Option.isSome_eq_false_iff, Option.isNone_iff_eq_none] at hnone
    simp [BuiltOn, baseClasses, hnone] at hd
  refine mem_leftOver.2 ⟨exists_decl_of_reachable a x hx hsome .refl, ?_⟩
  have hold : ¬Finalized (resolutions a x.classes x).2.store c := by
    rintro ⟨cls, hcls, hfinalized⟩
    simp [(resolutions_ready a x.classes hx).fresh c cls hcls] at hfinalized
  have hkept : ((finalizedAnalysis a x).store.values.class? c).isSome :=
    (isSome_class?_finalizeAll _ c _).trans hsome
  rw [Bool.eq_false_iff, ne_eq, isFinalized_iff hkept]
  intro hfinalized
  rcases finalized_finalizeAll.1 hfinalized with h | ⟨horder, _⟩
  · exact hold h
  · rw [finalizedInOrder, mem_finalizationOrder_iff (schedule_nodup _ _ _),
      settles_schedule_iff] at horder
    exact (horder c .refl).2.2 hc

/-- **Which cycles are reported.** Let an analysis be ready, and let the classes be built on
each other as their resolved bases say. Building the hierarchy reports a cycle for two classes,
which may be the same, if and only if one is built on the other and a path leads back. It is
reported once for the pair, at the class that was made first, with the other one as the related
place. So a cycle is reported whenever there is one, and for no class that is not on one. -/
theorem build_reportsCycles (hx : x.Ready) :
    let E := BuiltOn (resolvedValues a x)
    ∃ pairs : List (ValueId × ValueId),
      (build a x).2.cycleReports = x.cycleReports ++ pairs.map (cycleReport a x.classes) ∧
      pairs.Nodup ∧
      (∀ v w, (v, w) ∈ pairs ↔ v.index ≤ w.index ∧
        ((E v w ∧ ReflTransGen E w v) ∨ (E w v ∧ ReflTransGen E v w))) ∧
      ((∃ c, TransGen E c c) → pairs ≠ []) ∧
      ∀ v w, (v, w) ∈ pairs → TransGen E v v ∧ TransGen E w w := by
  intro E
  have hgraph : BuiltOn (finalizedAnalysis a x).store.values = E := by
    funext c d
    exact congrArg (d ∈ ·)
      (baseClasses_finalizeAll (resolutions_ready a x.classes hx).bases (finalizedInOrder a x) c)
  have hcycles : ∀ c, TransGen (BuiltOn (finalizedAnalysis a x).store.values) c c →
      c ∈ (leftOver (finalizedAnalysis a x).store.values x.classes).toList := by
    rw [hgraph]
    exact fun c hc => mem_leftOver_of_cycle a x hx hc
  have hpairs {v w : ValueId} := @mem_cyclePairs_iff _ _ hcycles v w
  rw [hgraph] at hpairs
  refine ⟨_, cycleReports_build a x, cyclePairs_nodup, fun v w => hpairs, ?_, fun v w hvw => ?_⟩
  · rintro ⟨c, hc⟩ hnil
    obtain ⟨d, hd, hback⟩ := TransGen.head'_iff.1 hc
    rcases Nat.le_total c.index d.index with hle | hle
    · have hmem := hpairs.2 ⟨hle, .inl ⟨hd, hback⟩⟩
      simp [hnil] at hmem
    · have hmem := hpairs.2 ⟨hle, .inr ⟨hd, hback⟩⟩
      simp [hnil] at hmem
  · obtain ⟨_, ⟨hbuilt, hback⟩ | ⟨hbuilt, hback⟩⟩ := hpairs.1 hvw
    · exact ⟨.head' hbuilt hback, .tail' hback hbuilt⟩
    · exact ⟨.tail' hback hbuilt, .head' hbuilt hback⟩

end Build

/-- The cycle of a class that extends itself is reported. -/
theorem build_selfExtending_reports :
    selfExtending.Ready ∧ ∃ pairs : List (ValueId × ValueId),
      (firstClass, firstClass) ∈ pairs ∧ (secondClass, secondClass) ∉ pairs ∧
      (build loneName selfExtending).2.cycleReports
        = pairs.map (cycleReport loneName selfExtending.classes) := by
  obtain ⟨hfirst, hsecond⟩ := builtOn_selfExtending
  obtain ⟨pairs, hreports, -, hpairs, -⟩ :=
    build_reportsCycles loneName selfExtending selfExtending_ready
  refine ⟨selfExtending_ready, pairs, ?_, fun hmem => ?_, hreports⟩
  · have hself : BuiltOn (resolvedValues loneName selfExtending) firstClass firstClass := by
      simp [BuiltOn, hfirst]
    exact (hpairs _ _).2 ⟨Nat.le_refl _, .inl ⟨hself, .refl⟩⟩
  · obtain ⟨-, ⟨hself, -⟩ | ⟨hself, -⟩⟩ := (hpairs _ _).1 hmem
    · simp [BuiltOn, hsecond] at hself
    · simp [BuiltOn, hsecond] at hself

end Hierarchy

end DocTypes
