import DocTypes.Hierarchy.Order
import Mathlib.Data.Finite.Defs
import Mathlib.Data.Fintype.Card
import Mathlib.Data.Fintype.EquivFin
import Mathlib.Data.List.Basic
import Mathlib.Logic.Relation

/-!
# Which classes are taken, and in which order

A class settles if every class it waits for settles (`Settles`). Those are the classes that
`finalizationOrder` takes: each once, and each after all that it waits for.

The proof follows `takeReady`. `Progress` says where the loop stands: which classes are done,
which are ready, and that the others still wait for what is not done. `Progress.release` is
one turn of the loop and `Progress.takeReady` the whole of it.

Seen as a graph, with an edge from a class to every class it waits for, a class settles if
and only if all classes it reaches are among those to be taken and none of them lies on a
cycle (`settles_iff_reachable`).

## Main statements

* `finalizationOrder_nodup`, `finalizationOrder_ordered`: no class is taken twice, or before a
  class it waits for.
* `mem_finalizationOrder_iff`: the classes that are taken are those that settle.
* `settles_iff_reachable`: they are those from which no cycle and no foreign class is reached.
-/

namespace DocTypes

namespace Hierarchy

/-! ## Settled classes -/

/-- A class that can be done: one of those given, all of whose classes before it can be. -/
inductive Settles (classes : List Waiting) : ValueId → Prop where
  | intro (w : Waiting) (mem : w ∈ classes) (before : ∀ d ∈ w.before, Settles classes d) :
      Settles classes w.cls

/-- Every class in the list stands behind those that have to be done before it. -/
def Ordered (classes : List Waiting) (order : List ValueId) : Prop :=
  ∀ (earlier : List ValueId) (c : ValueId) (later : List ValueId),
    order = earlier ++ c :: later → ∃ w ∈ classes, w.cls = c ∧ w.before ⊆ earlier

namespace Ordered

variable {classes : List Waiting} {order : List ValueId}

theorem nil (classes : List Waiting) : Ordered classes [] := by
  intro earlier c later h
  simp at h

/-- One more class comes last, if all before it are there. -/
theorem concat (h : Ordered classes order) {w : Waiting} (hw : w ∈ classes)
    (hbefore : w.before ⊆ order) : Ordered classes (order ++ [w.cls]) := by
  intro earlier c later heq
  rcases List.eq_nil_or_concat later with rfl | ⟨later, last, rfl⟩
  · obtain ⟨rfl, hc⟩ := List.append_inj_left' heq rfl, List.append_inj_right' heq rfl
    exact ⟨w, hw, by simpa using hc, hbefore⟩
  · have heq' : order ++ [w.cls] = (earlier ++ c :: later) ++ [last] := by simpa using heq
    exact h earlier c later (List.append_inj_left' heq' rfl)

/-- The classes of an ordered list settle. -/
theorem settles (h : Ordered classes order) {c : ValueId} (hc : c ∈ order) : Settles classes c := by
  -- the classes before one are in a shorter list
  induction hn : order.length using Nat.strong_induction_on generalizing order c with
  | _ n ih =>
    obtain ⟨earlier, later, rfl⟩ := List.append_of_mem hc
    obtain ⟨w, hw, rfl, hbefore⟩ := h earlier c later rfl
    refine .intro w hw fun d hd => ?_
    have hearlier : Ordered classes earlier := fun earlier' c' later' heq =>
      h earlier' c' (later' ++ w.cls :: later) (by simp [heq])
    refine ih earlier.length ?_ hearlier (hbefore hd) rfl
    simp only [← hn, List.length_append, List.length_cons]
    omega

end Ordered

/-! ## The loop -/

/-- The class without all that are done. -/
def Waiting.withoutAll (done : List ValueId) (w : Waiting) : Waiting :=
  { w with before := w.before.filter (· ∉ done) }

/-- The loop stands at a point where some classes are done, some are ready, and the others
wait for what is not done. -/
structure Progress (classes : List Waiting) (done ready : List ValueId) (waiting : List Waiting) :
    Prop where
  nodup : (done ++ ready).Nodup
  ordered : Ordered classes done
  ready_before : ∀ c ∈ ready, ∃ w ∈ classes, w.cls = c ∧ w.before ⊆ done
  waiting_eq : waiting = (classes.filter (·.cls ∉ done ++ ready)).map (Waiting.withoutAll done)
  complete : ∀ w ∈ classes, w.before ⊆ done → w.cls ∈ done ++ ready

theorem isReady_withoutAll {done : List ValueId} {w : Waiting} :
    (w.withoutAll done).isReady = true ↔ w.before ⊆ done := by
  simp only [Waiting.isReady, Waiting.withoutAll, List.isEmpty_iff, List.filter_eq_nil_iff,
    decide_not, Bool.not_eq_true', decide_eq_false_iff_not, not_not]
  rfl

theorem without_withoutAll (done : List ValueId) (c : ValueId) (w : Waiting) :
    (w.withoutAll done).without c = w.withoutAll (done ++ [c]) := by
  simp only [Waiting.without, Waiting.withoutAll, List.filter_filter, Waiting.mk.injEq, true_and]
  refine List.filter_congr fun d _ => ?_
  by_cases hd : d = c
  · simp [hd]
  · simp [hd]

namespace Progress

variable {classes : List Waiting} {done ready : List ValueId} {waiting : List Waiting}
  {c : ValueId}

/-- What a turn of the loop releases and keeps, told from the classes as they were given. -/
theorem release_eq (h : Progress classes done (c :: ready) waiting) :
    let others := classes.filter (·.cls ∉ done ++ c :: ready)
    (Hierarchy.release c waiting).1
        = (others.filter fun w => (w.withoutAll (done ++ [c])).isReady).map (·.cls) ∧
      (Hierarchy.release c waiting).2 = (others.filter fun w =>
        !(w.withoutAll (done ++ [c])).isReady).map (Waiting.withoutAll (done ++ [c])) := by
  have hcls (w : Waiting) : (w.withoutAll (done ++ [c])).cls = w.cls := rfl
  simp only [Hierarchy.release, List.partition_eq_filter_filter, h.waiting_eq, List.map_map,
    List.filter_map, Function.comp_def, without_withoutAll, hcls, and_self]

theorem mem_release_fst (h : Progress classes done (c :: ready) waiting) {d : ValueId} :
    d ∈ (Hierarchy.release c waiting).1 ↔
      ∃ w ∈ classes, w.cls = d ∧ d ∉ done ++ c :: ready ∧ w.before ⊆ done ++ [c] := by
  rw [h.release_eq.1, List.mem_map]
  constructor
  · rintro ⟨w, hw, rfl⟩
    obtain ⟨hw, hready⟩ := List.mem_filter.1 hw
    obtain ⟨hw, hnew⟩ := List.mem_filter.1 hw
    exact ⟨w, hw, rfl, of_decide_eq_true hnew, isReady_withoutAll.1 hready⟩
  · rintro ⟨w, hw, rfl, hnew, hbefore⟩
    exact ⟨w, List.mem_filter.2 ⟨List.mem_filter.2 ⟨hw, decide_eq_true hnew⟩,
      isReady_withoutAll.2 hbefore⟩, rfl⟩

/-- One turn of the loop: the first class that is ready is done. -/
theorem release (h : Progress classes done (c :: ready) waiting)
    (hclasses : (classes.map (·.cls)).Nodup) :
    Progress classes (done ++ [c]) (ready ++ (release c waiting).1) (release c waiting).2 := by
  obtain ⟨w, hw, rfl, hbefore⟩ := h.ready_before c List.mem_cons_self
  have hdone : done ++ [w.cls] ++ (ready ++ (Hierarchy.release w.cls waiting).1)
      = (done ++ w.cls :: ready) ++ (Hierarchy.release w.cls waiting).1 := by simp
  refine ⟨?_, h.ordered.concat hw hbefore, fun d hd => ?_, ?_, fun v hv hvbefore => ?_⟩
  · rw [hdone, List.nodup_append]
    refine ⟨h.nodup, ?_, ?_⟩
    · -- the classes that are released keep their order, and no class is there twice
      rw [h.release_eq.1]
      exact hclasses.sublist ((List.filter_sublist.trans List.filter_sublist).map _)
    · rintro d hd _ hd' rfl
      obtain ⟨_, _, _, hnew, _⟩ := h.mem_release_fst.1 hd'
      exact hnew hd
  · rcases List.mem_append.1 hd with hd | hd
    · obtain ⟨v, hv, hcls, hvbefore⟩ := h.ready_before d (List.mem_cons_of_mem _ hd)
      exact ⟨v, hv, hcls, fun e he => List.mem_append_left _ (hvbefore he)⟩
    · obtain ⟨v, hv, hcls, _, hvbefore⟩ := h.mem_release_fst.1 hd
      exact ⟨v, hv, hcls, hvbefore⟩
  · rw [hdone, h.release_eq.2, List.filter_filter]
    congr 1
    refine List.filter_congr fun v hv => ?_
    -- a class is named once, so it is released if and only if nothing is left before it
    have hreleased : v.cls ∉ done ++ w.cls :: ready →
        (v.cls ∈ (Hierarchy.release w.cls waiting).1 ↔
          (v.withoutAll (done ++ [w.cls])).isReady = true) := by
      intro hnew
      rw [h.mem_release_fst, isReady_withoutAll]
      constructor
      · rintro ⟨u, hu, hcls, _, hbefore⟩
        exact List.inj_on_of_nodup_map hclasses hu hv hcls ▸ hbefore
      · intro hvbefore
        exact ⟨v, hv, rfl, hnew, hvbefore⟩
    by_cases hold : v.cls ∈ done ++ w.cls :: ready
    · have hany : v.cls ∈ done ++ w.cls :: ready ++ (Hierarchy.release w.cls waiting).1 :=
        List.mem_append_left _ hold
      simp only [hold, hany, not_true_eq_false, decide_false, Bool.and_false]
    · rw [Bool.eq_iff_iff]
      simp only [Bool.and_eq_true, Bool.not_eq_true', decide_eq_true_eq, List.mem_append, hold,
        hreleased hold, not_or, not_false_eq_true, true_and, and_true, Bool.not_eq_true]
  · rw [hdone, List.mem_append]
    by_cases hold : v.cls ∈ done ++ w.cls :: ready
    · exact .inl hold
    · exact .inr (h.mem_release_fst.2 ⟨v, hv, rfl, hold, hvbefore⟩)

/-- The whole loop: it ends with nothing ready, so every class that settles is done. -/
theorem takeReady (h : Progress classes done ready waiting)
    (hclasses : (classes.map (·.cls)).Nodup) :
    (done ++ Hierarchy.takeReady ready waiting).Nodup ∧
      Ordered classes (done ++ Hierarchy.takeReady ready waiting) ∧
      ∀ d, Settles classes d → d ∈ done ++ Hierarchy.takeReady ready waiting := by
  fun_induction Hierarchy.takeReady ready waiting generalizing done with
  | case1 waiting =>
    refine ⟨h.nodup, by simpa using h.ordered, fun d hd => ?_⟩
    induction hd with
    | intro w hw _ ih => exact h.complete w hw fun e he => by simpa using ih e he
  | case2 waiting c ready ih =>
    have hturn := ih (h.release hclasses)
    simpa only [List.append_assoc, List.singleton_append] using hturn

end Progress

/-! ## The order -/

section Order

variable {classes : List Waiting}

/-- At the start of the loop nothing is done. -/
theorem progress_start (hclasses : (classes.map (·.cls)).Nodup) :
    Progress classes [] ((classes.filter Waiting.isReady).map (·.cls))
      (classes.filter (!·.isReady)) := by
  have hready {w : Waiting} : w.isReady = true ↔ w.before ⊆ [] := by
    simp [Waiting.isReady, List.subset_nil]
  have hmem {w : Waiting} (hw : w ∈ classes) :
      w.cls ∈ (classes.filter Waiting.isReady).map (·.cls) ↔ w.isReady = true := by
    rw [List.mem_map]
    constructor
    · rintro ⟨v, hv, hcls⟩
      obtain ⟨hv, hvready⟩ := List.mem_filter.1 hv
      exact List.inj_on_of_nodup_map hclasses hv hw hcls ▸ hvready
    · intro hw'
      exact ⟨w, List.mem_filter.2 ⟨hw, hw'⟩, rfl⟩
  refine ⟨?_, .nil classes, fun c hc => ?_, ?_, fun w hw hbefore => ?_⟩
  · exact hclasses.sublist (List.filter_sublist.map _)
  · obtain ⟨w, hw, rfl⟩ := List.mem_map.1 hc
    obtain ⟨hw, hwready⟩ := List.mem_filter.1 hw
    exact ⟨w, hw, rfl, hready.1 hwready⟩
  · have hall : Waiting.withoutAll [] = id := by
      funext w
      simp [Waiting.withoutAll]
    rw [hall, List.map_id]
    refine List.filter_congr fun w hw => ?_
    rw [List.nil_append, Bool.eq_iff_iff, decide_eq_true_eq, hmem hw, Bool.not_eq_true',
      Bool.not_eq_true]
  · exact (hmem hw).2 (hready.2 hbefore)

theorem finalizationOrder_spec (hclasses : (classes.map (·.cls)).Nodup) :
    (finalizationOrder classes).Nodup ∧ Ordered classes (finalizationOrder classes) ∧
      ∀ d, Settles classes d → d ∈ finalizationOrder classes := by
  have h := (progress_start hclasses).takeReady hclasses
  simpa only [finalizationOrder, List.partition_eq_filter_filter, List.nil_append,
    Function.comp_def] using h

/-- No class is taken twice. -/
theorem finalizationOrder_nodup (hclasses : (classes.map (·.cls)).Nodup) :
    (finalizationOrder classes).Nodup := (finalizationOrder_spec hclasses).1

/-- Every class is taken after all that it waits for. -/
theorem finalizationOrder_ordered (hclasses : (classes.map (·.cls)).Nodup) :
    Ordered classes (finalizationOrder classes) := (finalizationOrder_spec hclasses).2.1

/-- The classes that are taken are those that settle. -/
theorem mem_finalizationOrder_iff (hclasses : (classes.map (·.cls)).Nodup) {c : ValueId} :
    c ∈ finalizationOrder classes ↔ Settles classes c :=
  ⟨(finalizationOrder_ordered hclasses).settles, (finalizationOrder_spec hclasses).2.2 c⟩

end Order

/-! ## The graph -/

section Graph

open Relation

variable {classes : List Waiting} {E : ValueId → ValueId → Prop}

/-- With an edge from each class to those before it, a class settles if and only if all it
reaches are among the classes given and none of them lies on a cycle. -/
theorem settles_iff_reachable (hE : ∀ w ∈ classes, ∀ d, d ∈ w.before ↔ E w.cls d) {c : ValueId} :
    Settles classes c ↔
      ∀ d, ReflTransGen E c d → d ∈ classes.map (·.cls) ∧ ¬TransGen E d d := by
  constructor
  · intro h
    induction h with
    | intro w hw hbefore ih =>
      intro d hd
      rcases ReflTransGen.cases_head hd with rfl | ⟨e, hwe, hed⟩
      · refine ⟨List.mem_map_of_mem hw, fun hcycle => ?_⟩
        obtain ⟨e, hwe, hew⟩ := TransGen.head'_iff.1 hcycle
        -- the cycle also goes through the class after this one
        have hcycle' : TransGen E e e := TransGen.tail' hew hwe
        exact (ih e ((hE w hw e).2 hwe) e .refl).2 hcycle'
      · exact ih e ((hE w hw e).2 hwe) d hed
  · intro h
    -- the classes that are reached are finitely many, so on them the relation is well-founded
    let reached := { d // ReflTransGen E c d }
    have hfinite : Finite reached := by
      refine Finite.of_injective
        (fun d : reached => (⟨d.1, (h d.1 d.2).1⟩ : { d // d ∈ classes.map (·.cls) })) ?_
      intro d e hde
      exact Subtype.ext (Subtype.mk.inj hde)
    let R : reached → reached → Prop := fun d e => TransGen E e.1 d.1
    have : IsTrans reached R := ⟨fun _ _ _ hde hef => hef.trans hde⟩
    have : Std.Irrefl R := ⟨fun d => (h d.1 d.2).2⟩
    have hwf : WellFounded R := Finite.wellFounded_of_trans_of_irrefl R
    suffices hall : ∀ d : reached, Settles classes d.1 from hall ⟨c, .refl⟩
    intro d
    induction d using hwf.induction with
    | _ d ih =>
      obtain ⟨w, hw, hcls⟩ := List.mem_map.1 (h d.1 d.2).1
      rw [← hcls]
      refine .intro w hw fun e he => ?_
      have hedge : E d.1 e := hcls ▸ (hE w hw e).1 he
      exact ih ⟨e, d.2.tail hedge⟩ (.single hedge)

end Graph

end Hierarchy

end DocTypes
