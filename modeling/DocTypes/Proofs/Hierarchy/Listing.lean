import DocTypes.Proofs.Handles.Ancestors
import DocTypes.Proofs.Levels
import Mathlib.Data.List.Perm.Subperm

/-!
# The search for ancestors

Looking up direct bases makes constructed classes, so the values among which ancestors are
searched become more during the search. But what a search has looked up stays as it is
(`Store.Saturated`), so in every later store the search can be read as one by levels along the
direct bases in that store.

`Store.Lists` is the search without a bound on the levels. It ends, because the class behind a
base comes before the class behind the value in an order of classes (`Store.Ranked`).

## Main statements

* `Store.linearize_eq`: what is listed are the tiers of direct bases, in any later store.
* `Store.linearize_ends`: the search ends when a level is empty, within the levels it has.
-/

namespace DocTypes

namespace Store

variable {s S : Store}

/-- The direct bases of a value. -/
def basesOf (s : Store) (v : ValueId) : List ValueId := (directBases v s).1

/-- Looking up the direct bases of the value makes nothing. -/
def Saturated (s : Store) (v : ValueId) : Prop := (directBases v s).2 = s

/-- What was looked up once is there in every later store. -/
theorem saturated_of_ripens (hs : s.Closed) {v : ValueId} (hv : s.ValueKnown v)
    (hS : (directBases v s).2.Ripens S) : S.basesOf v = s.basesOf v ∧ S.Saturated v := by
  have hagain := (directBases_lasts hs hv).again S hS
  rw [basesOf, Saturated, hagain]
  exact ⟨rfl, rfl⟩

/-! ## Levels -/

/-- What a level adds, read off a later store. -/
theorem listLevel_eq (hs : s.Closed) {level : List ValueId} {ancestors : Registry ValueId}
    {next : Array ValueId} (hancestors : s.RegistryKnown ancestors)
    (hnext : ∀ v ∈ next, s.ValueKnown v) (hlevel : ∀ v ∈ level, s.ValueKnown v)
    (hS : (listLevel ancestors next level s).2.Ripens S) :
    let found := (listLevel ancestors next level s).1
    let new := fresh ancestors.toList level
    found.1.toList = ancestors.toList ++ new ∧
      found.2.toList = next.toList ++ new.flatMap S.basesOf ∧ ∀ v ∈ new, S.Saturated v := by
  induction level generalizing s ancestors next with
  | nil =>
    refine ⟨?_, ?_, fun v hv => ?_⟩
    · rw [fresh_eq_nil_iff.2 (List.nil_subset _), List.append_nil]
      rfl
    · rw [fresh_eq_nil_iff.2 (List.nil_subset _), List.flatMap_nil, List.append_nil]
      rfl
    · exact ((mem_fresh.1 hv).1 |> List.not_mem_nil).elim
  | cons v level ih =>
    have hrest : ∀ w ∈ level, s.ValueKnown w := fun w hw => hlevel w (List.mem_cons_of_mem _ hw)
    by_cases hv : ancestors.contains v = true
    · have hrun : listLevel ancestors next (v :: level) = listLevel ancestors next level := by
        rw [listLevel, if_pos hv]
      rw [hrun] at hS ⊢
      rw [fresh_cons_of_mem (Registry.contains_iff_mem.1 hv)]
      exact ih hs hancestors hnext hrest hS
    · have hrun : listLevel ancestors next (v :: level) s =
          listLevel (ancestors.insert v) (next ++ s.basesOf v) level (directBases v s).2 := by
        rw [listLevel, if_neg hv, run_bind]
        rfl
      have hnew : v ∉ ancestors.toList := fun hmem => hv (Registry.contains_iff_mem.2 hmem)
      have hknown : s.ValueKnown v := hlevel v List.mem_cons_self
      have hdirect := (directBases_lasts hs hknown).runs
      have ht := hdirect.1
      have hinsert : (directBases v s).2.RegistryKnown (ancestors.insert v) := by
        intro w hw
        rw [Registry.mem_toList_insert] at hw
        rcases hw with hw | rfl
        · exact ht.valueKnown (hancestors w hw)
        · exact ht.valueKnown hknown
      have happend : ∀ w ∈ next ++ s.basesOf v, (directBases v s).2.ValueKnown w := by
        intro w hw
        rw [← Array.mem_toList_iff, Array.toList_appendList, List.mem_append] at hw
        rcases hw with hw | hw
        · exact ht.valueKnown (hnext w (Array.mem_toList_iff.1 hw))
        · exact (hdirect.2 w hw).1
      have hlevel' : ∀ w ∈ level, (directBases v s).2.ValueKnown w := fun w hw =>
        ht.valueKnown (hrest w hw)
      have hlasts := listLevel_lasts ht.closed hinsert happend hlevel'
      rw [hrun] at hS ⊢
      obtain ⟨hbases, hsaturated⟩ := saturated_of_ripens hs hknown (hlasts.runs.1.ripens.trans hS)
      obtain ⟨hfound, hfollow, hrestSaturated⟩ := ih ht.closed hinsert happend hlevel' hS
      rw [Registry.toList_insert_of_not_mem hnew] at hfound hfollow hrestSaturated
      rw [fresh_cons_of_not_mem hnew]
      refine ⟨?_, ?_, fun w hw => ?_⟩
      · rw [hfound, List.append_assoc, List.singleton_append]
      · rw [hfollow, Array.toList_appendList, List.flatMap_cons, hbases, List.append_assoc]
      · rcases List.mem_cons.1 hw with rfl | hw
        · exact hsaturated
        · exact hrestSaturated w hw

/-- What a search lists, read off a later store. -/
theorem listLevels_eq (hs : s.Closed) (levels : Nat) {ancestors : Registry ValueId}
    {level : List ValueId} (hancestors : s.RegistryKnown ancestors)
    (hlevel : ∀ v ∈ level, s.ValueKnown v) (hS : (listLevels levels ancestors level s).2.Ripens S) :
    let found := (listLevels levels ancestors level s).1
    found.toList = searchLevels S.basesOf levels ancestors.toList level ∧
      ∀ v ∈ found.toList, v ∈ ancestors.toList ∨ S.Saturated v := by
  induction levels generalizing s ancestors level with
  | zero => exact ⟨rfl, fun v hv => .inl hv⟩
  | succ levels ih =>
    cases level with
    | nil =>
      exact ⟨(searchLevels_nil _ _ _).symm, fun v hv => .inl hv⟩
    | cons v level =>
      have hempty : ∀ w ∈ (#[] : Array ValueId), s.ValueKnown w := fun w hw =>
        (Array.not_mem_empty w hw).elim
      have hfirst := listLevel_lasts hs hancestors hempty hlevel
      let found := (listLevel ancestors #[] (v :: level) s).1
      let t := (listLevel ancestors #[] (v :: level) s).2
      have hnext : ∀ w ∈ found.2.toList, t.ValueKnown w := fun w hw =>
        hfirst.runs.2.2 w (Array.mem_toList_iff.1 hw)
      have hrun : listLevels (levels + 1) ancestors (v :: level) s =
          listLevels levels found.1 found.2.toList t := rfl
      have hrest := listLevels_lasts hfirst.runs.1.closed levels hfirst.runs.2.1 hnext
      rw [hrun] at hS ⊢
      have hlevelEq := listLevel_eq hs hancestors hempty hlevel (hrest.runs.1.ripens.trans hS)
      obtain ⟨hfound, hfollow, hsaturated⟩ := hlevelEq
      obtain ⟨hsearch, hall⟩ := ih hfirst.runs.1.closed hfirst.runs.2.1 hnext hS
      refine ⟨?_, fun w hw => ?_⟩
      · rw [hsearch, hfound, hfollow, searchLevels]
        rfl
      · rcases hall w hw with hw | hw
        · rw [hfound, List.mem_append] at hw
          exact hw.imp_right (hsaturated w)
        · exact .inr hw

/-- The ancestors that are listed are the tiers of direct bases in any later store, and their
own bases were looked up. -/
theorem linearize_eq (hs : s.Closed) {bases : List ValueId} (hbases : ∀ b ∈ bases, s.ValueKnown b)
    (hS : (linearize bases s).2.Ripens S) :
    (linearize bases s).1 = tiersOnce S.basesOf bases (s.values.size + 1) ∧
      ∀ v ∈ (linearize bases s).1, S.Saturated v := by
  have hempty : s.RegistryKnown .empty := fun v hv => (List.not_mem_nil hv).elim
  obtain ⟨hsearch, hall⟩ := listLevels_eq hs (s.values.size + 1) hempty hbases hS
  refine ⟨hsearch.trans (searchLevels_eq _ _ _), fun v hv => ?_⟩
  exact (hall v hv).resolve_left List.not_mem_nil

/-! ## The search ends -/

/-- The search without a bound on the levels: levels are listed until one is empty. -/
inductive Lists : Store → Registry ValueId → List ValueId → Registry ValueId → Store → Prop
  | done (s : Store) (ancestors : Registry ValueId) : Lists s ancestors [] ancestors s
  | level {s t u : Store} {ancestors listed : Registry ValueId} {v : ValueId} {level : List ValueId}
      {found : Registry ValueId × Array ValueId}
      (hlevel : listLevel ancestors #[] (v :: level) s = (found, t))
      (hrest : Lists t found.1 found.2.toList listed u) : Lists s ancestors (v :: level) listed u

/-- The search ends if a level that it may reach is empty in a later store. -/
theorem lists_listLevels (hs : s.Closed) (levels : Nat) {ancestors : Registry ValueId}
    {level : List ValueId} (hancestors : s.RegistryKnown ancestors)
    (hlevel : ∀ v ∈ level, s.ValueKnown v) (hS : (listLevels levels ancestors level s).2.Ripens S)
    (hend : tier S.basesOf level levels = []) :
    Lists s ancestors level (listLevels levels ancestors level s).1
      (listLevels levels ancestors level s).2 := by
  induction levels generalizing s ancestors level with
  | zero =>
    obtain rfl : level = [] := hend
    exact .done s ancestors
  | succ levels ih =>
    cases level with
    | nil => exact .done s ancestors
    | cons v level =>
      have hempty : ∀ w ∈ (#[] : Array ValueId), s.ValueKnown w := fun w hw =>
        (Array.not_mem_empty w hw).elim
      have hfirst := listLevel_lasts hs hancestors hempty hlevel
      have hnext : ∀ w ∈ (listLevel ancestors #[] (v :: level) s).1.2.toList,
          (listLevel ancestors #[] (v :: level) s).2.ValueKnown w := fun w hw =>
        hfirst.runs.2.2 w (Array.mem_toList_iff.1 hw)
      have hrest := listLevels_lasts hfirst.runs.1.closed levels hfirst.runs.2.1 hnext
      have hlevelEq := listLevel_eq hs hancestors hempty hlevel (hrest.runs.1.ripens.trans hS)
      -- what follows the new values of the level is in the next tier
      have hsubset : (listLevel ancestors #[] (v :: level) s).1.2.toList ⊆
          (v :: level).flatMap S.basesOf := by
        intro w hw
        rw [hlevelEq.2.1] at hw
        obtain ⟨u, hu, hw⟩ := List.mem_flatMap.1 hw
        exact List.mem_flatMap.2 ⟨u, (mem_fresh.1 hu).1, hw⟩
      have hrestEnd : tier S.basesOf (listLevel ancestors #[] (v :: level) s).1.2.toList
          levels = [] := by
        have hsub := @tier_subset _ S.basesOf _ _ hsubset levels
        rw [tier_flatMap, hend] at hsub
        exact List.subset_nil.1 hsub
      exact .level rfl (ih hfirst.runs.1.closed hfirst.runs.2.1 hnext hS hrestEnd)

/-! ## The order of classes -/

/-- The classes of a list come after those that they are built on. -/
structure Ranked (s : Store) (order : List ValueId) : Prop where
  nodup : order.Nodup
  class? : ∀ c ∈ order, (s.values.class? c).isSome
  before : ∀ c ∈ order, ∀ d ∈ Hierarchy.baseClasses s.values c,
    d ∈ order ∧ order.idxOf d < order.idxOf c

/-- A known value behind which there is one of the first classes of an order. -/
structure Below (s : Store) (order : List ValueId) (bound : Nat) (v : ValueId) : Prop where
  known : s.ValueKnown v
  mem : Hierarchy.baseClass s.values v ∈ order
  lt : order.idxOf (Hierarchy.baseClass s.values v) < bound

theorem Ripens.baseClasses_eq (h : s.Ripens S) (hs : s.Closed) (c : ValueId) :
    Hierarchy.baseClasses S.values c = Hierarchy.baseClasses s.values c := by
  unfold Hierarchy.baseClasses
  cases hc : s.values.class? c with
  | none =>
    rw [h.class?_eq_none hc]
    rfl
  | some data =>
    obtain ⟨later, hlater, hheritage⟩ := h.class?_eq hc
    rw [hlater, Option.map_some, Option.map_some, (Prod.mk.inj hheritage).2]
    exact List.map_congr_left fun b hb =>
      h.keeps.baseClass_eq (hs.valueKnown_of_mem_bases hc b hb)

variable {order : List ValueId}

theorem Ranked.ripens (hr : s.Ranked order) (hs : s.Closed) (h : s.Ripens S) : S.Ranked order where
  nodup := hr.nodup
  class? c hc := h.class? c (hr.class? c hc)
  before c hc := by
    rw [h.baseClasses_eq hs]
    exact hr.before c hc

theorem Below.ripens {bound : Nat} {v : ValueId} (hv : s.Below order bound v) (h : s.Ripens S) :
    S.Below order bound v := by
  have hsame := h.keeps.baseClass_eq hv.known
  exact ⟨h.keeps.valueKnown v hv.known, hsame ▸ hv.mem, hsame ▸ hv.lt⟩

/-- A known value is one of the values. -/
theorem mem_ids_of_valueKnown {v : ValueId} (h : s.ValueKnown v) : v ∈ s.values.ids := by
  obtain ⟨value, hvalue⟩ := Option.isSome_iff_exists.1 h
  obtain ⟨i, hi, hget⟩ := Option.bind_eq_some_iff.1 hvalue
  rw [ValueId.position?_eq_some_iff] at hi
  have hlt := (Array.getElem?_eq_some_iff.1 hget).1
  exact List.mem_map.2 ⟨i, List.mem_range.2 hlt, hi.symm⟩

/-- There are no more classes in the order than values. -/
theorem Ranked.length_le (hr : s.Ranked order) : order.length ≤ s.values.size := by
  have hsubset : order ⊆ s.values.ids := fun c hc =>
    mem_ids_of_valueKnown (valueKnown_of_class? (hr.class? c hc))
  have hle := (hr.nodup.subperm hsubset).length_le
  simpa [ValueStore.ids, ValueStore.size] using hle

/-- The class behind a direct base comes before the class behind the value. -/
theorem below_of_directBases (hs : s.Closed) (hr : s.Ranked order) {bound : Nat} {v b : ValueId}
    (hv : s.Below order bound v) (hb : b ∈ s.basesOf v) :
    (directBases v s).2.Below order (bound - 1) b := by
  have hlasts := directBases_lasts hs hv.known
  obtain ⟨hknown, hmem⟩ := hlasts.runs.2 b hb
  obtain ⟨horder, hlt⟩ := hr.before _ hv.mem _ hmem
  have hbound := hv.lt
  exact ⟨hknown, horder, by omega⟩

theorem below_of_mem_tier (hS : S.Closed) (hr : S.Ranked order) {bases : List ValueId}
    {bound : Nat} (hbases : ∀ b ∈ bases, S.Below order bound b) (n : Nat)
    (hsaturated : ∀ k < n, ∀ v ∈ tier S.basesOf bases k, S.Saturated v) :
    ∀ k ≤ n, ∀ v ∈ tier S.basesOf bases k, S.Below order (bound - k) v := by
  intro k hk
  induction k with
  | zero => exact hbases
  | succ k ih =>
    intro v hv
    obtain ⟨u, hu, hv⟩ := List.mem_flatMap.1 hv
    have hbelow := below_of_directBases hS hr (ih (Nat.le_of_succ_le hk) u hu) hv
    rw [hsaturated k hk u hu, Nat.sub_sub] at hbelow
    exact hbelow

/-- The search for the ancestors above bases ends, because there are no more tiers than classes
in the order. -/
theorem linearize_ends (hs : s.Closed) (hr : s.Ranked order) {bases : List ValueId}
    (hbases : ∀ b ∈ bases, s.Below order order.length b) (hS : (linearize bases s).2.Ripens S) :
    tier S.basesOf bases order.length = [] ∧
      ∃ listed, Lists s .empty bases listed (linearize bases s).2 ∧
        listed.toList = (linearize bases s).1 := by
  have hknown : ∀ b ∈ bases, s.ValueKnown b := fun b hb => (hbases b hb).known
  have hruns := linearize_runs hs hknown
  have hripens := hruns.1.ripens.trans hS
  obtain ⟨hlist, hsaturated⟩ := linearize_eq hs hknown hS
  have hlength := hr.length_le
  have hend : tier S.basesOf bases order.length = [] := by
    rw [List.eq_nil_iff_forall_not_mem]
    intro v hv
    have hbelow := below_of_mem_tier hS.closed (hr.ripens hs hripens)
      (fun b hb => (hbases b hb).ripens hripens) order.length ?_ order.length (Nat.le_refl _) v hv
    · have hlt := hbelow.lt
      omega
    · intro k hk w hw
      refine hsaturated w (hlist ▸ mem_tiersOnce.2 ⟨k, ?_, hw⟩)
      omega
  refine ⟨hend, (listLevels (s.values.size + 1) .empty bases s).1, ?_, rfl⟩
  refine lists_listLevels hs _ (fun v hv => (List.not_mem_nil hv).elim) hknown hS ?_
  exact tier_eq_nil_of_le hend (by omega)

end Store

end DocTypes
