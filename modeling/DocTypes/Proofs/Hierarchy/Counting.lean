import DocTypes.Proofs.Hierarchy.Scheduling
import Mathlib.Data.List.Dedup

/-!
# Counting down

The order of finalization can be found with one counter for each class: it starts with the
number of different classes before the class, and is counted down when one of them is done.
The class is ready when its counter comes to zero.

`countDown` refuses to count below zero. It never has to: as long as no class is taken
twice, a counter stands at the number of different classes that are not done yet
(`counter`), and the class that is being done is one of them.

## Main statement

* `countingOrder_eq`: counting never fails, and gives the order of `finalizationOrder`.
-/

namespace DocTypes

namespace Hierarchy

/-- A class with its counter. -/
structure Counter where
  waiting : Waiting
  count : Nat
  deriving DecidableEq, Repr

/-- Count down every class that has `done` before it: those that come to zero, in the order
of the list, and all counters. There is no result if a counter would drop below zero. -/
def countDown (done : ValueId) : List Counter → Option (List ValueId × List Counter)
  | [] => some ([], [])
  | k :: rest => do
    let (ready, rest) ← countDown done rest
    if done ∈ k.waiting.before then
      match k.count with
      | 0 => none
      | count + 1 =>
        return (if count = 0 then k.waiting.cls :: ready else ready, { k with count } :: rest)
    else return (ready, k :: rest)

/-- How many counters have not come to zero. -/
def positive (counters : List Counter) : Nat := counters.countP (0 < ·.count)

theorem countDown_positive {done : ValueId} {counters counters' : List Counter}
    {ready : List ValueId} (h : countDown done counters = some (ready, counters')) :
    ready.length + positive counters' = positive counters := by
  induction counters generalizing ready counters' with
  | nil =>
    simp only [countDown, Option.some.injEq, Prod.mk.injEq] at h
    obtain ⟨rfl, rfl⟩ := h
    rfl
  | cons k rest ih =>
    simp only [countDown, Option.bind_eq_bind, Option.bind_eq_some_iff, Prod.exists] at h
    obtain ⟨ready₀, rest₀, hrest, h⟩ := h
    have hcount := ih hrest
    simp only [positive, List.countP_cons] at hcount ⊢
    split at h
    · split at h
      · simp at h
      · next count hk =>
        simp only [Option.pure_def, Option.some.injEq, Prod.mk.injEq] at h
        obtain ⟨rfl, rfl⟩ := h
        by_cases hzero : count = 0
        · simp [hzero, hk]
          omega
        · simp [hzero, hk, Nat.pos_of_ne_zero hzero]
          omega
    · simp only [Option.pure_def, Option.some.injEq, Prod.mk.injEq] at h
      obtain ⟨rfl, rfl⟩ := h
      simp only [List.countP_cons]
      omega

/-- The classes in the order in which their counters come to zero, those that are ready
first. -/
def takeCounted (ready : List ValueId) (counters : List Counter) : Option (List ValueId) :=
  match ready with
  | [] => some []
  | cls :: ready =>
    match _h : countDown cls counters with
    | none => none
    | some (released, counters) => (takeCounted (ready ++ released) counters).map (cls :: ·)
termination_by ready.length + positive counters
decreasing_by
  have hcount := countDown_positive _h
  simp only [List.length_append, List.length_cons]
  omega

/-- The counter of a class when some classes are done. -/
def counter (done : List ValueId) (w : Waiting) : Counter :=
  ⟨w, (w.before.filter (· ∉ done)).dedup.length⟩

/-- The order in which counters come to zero. -/
def countingOrder (classes : List Waiting) : Option (List ValueId) :=
  let counters := classes.map (counter [])
  takeCounted ((counters.filter (·.count = 0)).map (·.waiting.cls)) counters

/-! ## Counters tell what is not done -/

theorem counter_eq_zero_iff {done : List ValueId} {w : Waiting} :
    (counter done w).count = 0 ↔ (w.withoutAll done).isReady = true := by
  simp only [counter, List.length_eq_zero_iff, List.dedup_eq_nil, Waiting.isReady,
    Waiting.withoutAll, List.isEmpty_iff]

/-- A class that is done was counted once. -/
theorem counter_concat_of_mem {done : List ValueId} {c : ValueId} {w : Waiting}
    (hc : c ∉ done) (hmem : c ∈ w.before) :
    (counter done w).count = (counter (done ++ [c]) w).count + 1 := by
  have hperm : (w.before.filter (· ∉ done)).dedup.Perm
      (c :: (w.before.filter (· ∉ done ++ [c])).dedup) := by
    refine (List.perm_ext_iff_of_nodup (List.nodup_dedup _) ?_).2 fun d => ?_
    · exact List.nodup_cons.2 ⟨by simp, List.nodup_dedup _⟩
    · by_cases hd : d = c
      · simp [hd, hc, hmem]
      · simp [hd]
  exact hperm.length_eq

theorem counter_concat_of_not_mem {done : List ValueId} {c : ValueId} {w : Waiting}
    (hmem : c ∉ w.before) : counter (done ++ [c]) w = counter done w := by
  have hfilter : w.before.filter (· ∉ done ++ [c]) = w.before.filter (· ∉ done) := by
    refine List.filter_congr fun d hd => ?_
    have hdc : d ≠ c := fun h => hmem (h ▸ hd)
    simp [hdc]
  simp only [counter, hfilter]

/-- Counting down does not fail, and leaves the counters of what is not done then. -/
theorem countDown_counters {done : List ValueId} {c : ValueId} (hc : c ∉ done)
    (classes : List Waiting) :
    countDown c (classes.map (counter done)) = some
      ((classes.filter fun w => c ∈ w.before ∧ (w.withoutAll (done ++ [c])).isReady).map (·.cls),
        classes.map (counter (done ++ [c]))) := by
  induction classes with
  | nil => rfl
  | cons w rest ih =>
    simp only [List.map_cons, countDown, ih, Option.bind_eq_bind, Option.bind_some]
    have hw : (counter done w).waiting = w := rfl
    have hself : (⟨w, (counter (done ++ [c]) w).count⟩ : Counter) = counter (done ++ [c]) w := rfl
    by_cases hmem : c ∈ w.before
    · simp only [hw, if_pos hmem, counter_concat_of_mem hc hmem, hself, counter_eq_zero_iff]
      by_cases hready : (w.withoutAll (done ++ [c])).isReady = true
      · simp [hmem, hready]
      · simp [hready]
    · simp [hw, hmem, counter_concat_of_not_mem hmem]

/-! ## The loop -/

/-- The classes that are counted down to zero are those that are released. -/
theorem Progress.release_fst_eq {classes : List Waiting} {done ready : List ValueId}
    {waiting : List Waiting} {c : ValueId} (h : Progress classes done (c :: ready) waiting)
    (hclasses : (classes.map (·.cls)).Nodup) :
    (classes.filter fun w => c ∈ w.before ∧ (w.withoutAll (done ++ [c])).isReady).map (·.cls)
      = (Hierarchy.release c waiting).1 := by
  have hc : c ∉ done := fun hc => (List.nodup_append.1 h.nodup).2.2 c hc c (by simp) rfl
  rw [h.release_eq.1, List.filter_filter]
  congr 1
  refine List.filter_congr fun w hw => ?_
  rw [Bool.eq_iff_iff]
  simp only [decide_eq_true_eq, Bool.and_eq_true, isReady_withoutAll]
  refine ⟨fun ⟨hmem, hbefore⟩ => ⟨hbefore, fun hold => ?_⟩, fun ⟨hbefore, hnew⟩ => ⟨?_, hbefore⟩⟩
  · -- a class that is done or ready waits for nothing that is not done
    obtain ⟨v, hv, hcls, hvbefore⟩ : ∃ v ∈ classes, v.cls = w.cls ∧ v.before ⊆ done := by
      rcases List.mem_append.1 hold with hold | hold
      · obtain ⟨earlier, later, heq⟩ := List.append_of_mem hold
        obtain ⟨v, hv, hcls, hvbefore⟩ := h.ordered earlier w.cls later heq
        exact ⟨v, hv, hcls, fun d hd => heq ▸ List.mem_append_left _ (hvbefore hd)⟩
      · exact h.ready_before w.cls hold
    rw [List.inj_on_of_nodup_map hclasses hv hw hcls] at hvbefore
    exact hc (hvbefore hmem)
  · -- a class that still waits has something before it that is not done
    by_contra hmem
    refine hnew (h.complete w hw fun d hd => ?_)
    rcases List.mem_append.1 (hbefore hd) with hd' | hd'
    · exact hd'
    · exact absurd (List.mem_singleton.1 hd' ▸ hd) hmem

/-- The loop with counters and the loop without take the same classes. -/
theorem Progress.takeCounted_eq {classes : List Waiting} {done ready : List ValueId}
    {waiting : List Waiting} (h : Progress classes done ready waiting)
    (hclasses : (classes.map (·.cls)).Nodup) :
    takeCounted ready (classes.map (counter done)) = some (Hierarchy.takeReady ready waiting) := by
  fun_induction Hierarchy.takeReady ready waiting generalizing done with
  | case1 waiting => rw [takeCounted]
  | case2 waiting c ready ih =>
    have hc : c ∉ done := fun hc => (List.nodup_append.1 h.nodup).2.2 c hc c (by simp) rfl
    have hdown := countDown_counters hc classes
    rw [h.release_fst_eq hclasses] at hdown
    rw [takeCounted]
    split
    · next hnone => simp [hnone] at hdown
    · next released counters hsome =>
      obtain ⟨rfl, rfl⟩ := Prod.mk.inj (Option.some.inj (hsome.symm.trans hdown))
      rw [ih (h.release hclasses), Option.map_some]

/-- Counting never drops below zero, and gives the order of finalization. -/
theorem countingOrder_eq {classes : List Waiting} (hclasses : (classes.map (·.cls)).Nodup) :
    countingOrder classes = some (finalizationOrder classes) := by
  have hready : ((classes.map (counter [])).filter (·.count = 0)).map (·.waiting.cls)
      = (classes.filter Waiting.isReady).map (·.cls) := by
    have hall (w : Waiting) : w.withoutAll [] = w := by simp [Waiting.withoutAll]
    rw [List.filter_map, List.map_map]
    congr 1
    refine List.filter_congr fun w _ => ?_
    simp only [Function.comp_apply, counter_eq_zero_iff, hall, Bool.decide_eq_true]
  simp only [countingOrder, hready, (progress_start hclasses).takeCounted_eq hclasses,
    finalizationOrder, List.partition_eq_filter_filter, Function.comp_def]

end Hierarchy

end DocTypes
