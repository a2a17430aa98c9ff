import DocTypes.Proofs.Handles.Visits
import DocTypes.Proofs.Handles.Hierarchy
import DocTypes.Proofs.Hierarchy.Finalization
import DocTypes.Proofs.Hierarchy.Listing

/-!
# The ancestors of classes

The ancestors that are noted of a class or constructed class are the values that are reached
from it along direct bases, nearer ones first (`Store.Linearized`). They were listed in the
store of that moment (`Store.Recorded`), and they are right about every later store.

## Main statements

* `Store.Recorded.linearized`: what was listed in an earlier store is right about this one.
* `Hierarchy.build_linearizes`: so are all ancestors that are noted from the second pass on.
-/

namespace DocTypes

open Relation

namespace Store

variable {s t S : Store} {order : List ValueId} {v : ValueId} {ancestors : List ValueId}

/-- A direct base of a value. -/
def DirectBase (s : Store) (v b : ValueId) : Prop := b ∈ s.basesOf v

/-- A value that is reached along a number of direct bases. -/
def BaseSteps (s : Store) : Nat → ValueId → ValueId → Prop
  | 0, v, w => v = w
  | n + 1, v, w => ∃ u, s.BaseSteps n v u ∧ s.DirectBase u w

/-- The ancestors of a value: everything that is reached along direct bases, each once, nearer
ones first. Looking up the bases again makes nothing, and the search for the ancestors ends with
them. -/
structure Linearized (s : Store) (v : ValueId) (ancestors : List ValueId) : Prop where
  nodup : ancestors.Nodup
  mem_iff : ∀ w, w ∈ ancestors ↔ TransGen s.DirectBase v w
  ordered : ancestors.Pairwise fun x y => ∀ n, s.BaseSteps n v y → ∃ m ≤ n, s.BaseSteps m v x
  direct : (s.basesOf v).eraseDups <+: ancestors
  closed : ∀ w ∈ ancestors, ∀ b, s.DirectBase w b → b ∈ ancestors
  other : ∀ w ∈ ancestors, w ≠ v ∧
    Hierarchy.baseClass s.values w ≠ Hierarchy.baseClass s.values v
  saturated : ∀ w, w = v ∨ w ∈ ancestors → s.Saturated w
  ends : ∃ listed, Lists s .empty (s.basesOf v) listed s ∧ listed.toList = ancestors

theorem baseSteps_succ_iff {n : Nat} {w : ValueId} :
    s.BaseSteps (n + 1) v w ↔ w ∈ tier s.basesOf (s.basesOf v) n := by
  induction n generalizing w with
  | zero =>
    constructor
    · rintro ⟨u, rfl, h⟩
      exact h
    · intro h
      exact ⟨v, rfl, h⟩
  | succ n ih =>
    rw [tier, List.mem_flatMap]
    exact exists_congr fun u => and_congr_left fun _ => ih

theorem transGen_directBase_iff {w : ValueId} :
    TransGen s.DirectBase v w ↔ ∃ n, s.BaseSteps (n + 1) v w := by
  constructor
  · intro h
    induction h with
    | single h => exact ⟨0, v, rfl, h⟩
    | tail _ h ih =>
      obtain ⟨n, hn⟩ := ih
      exact ⟨n + 1, _, hn, h⟩
  · rintro ⟨n, h⟩
    induction n generalizing w with
    | zero =>
      obtain ⟨u, rfl, h⟩ := h
      exact .single h
    | succ n ih =>
      obtain ⟨u, hu, h⟩ := h
      exact (ih hu).tail h

/-! ## Ancestors that were listed -/

/-- The ancestors were listed in an earlier store, for a class of the order. -/
def Recorded (order : List ValueId) (S : Store) (v : ValueId) (ancestors : List ValueId) : Prop :=
  ∃ s : Store, s.Closed ∧ s.Ranked order ∧ s.Below order order.length v ∧
    ((directBases v >>= linearize) s).1 = ancestors ∧ ((directBases v >>= linearize) s).2.Ripens S

theorem Recorded.ripens (h : Recorded order s v ancestors) (hS : s.Ripens S) :
    Recorded order S v ancestors := by
  obtain ⟨t, ht, hr, hv, heq, hs⟩ := h
  exact ⟨t, ht, hr, hv, heq, hs.trans hS⟩

/-- The ancestors are the tiers above the value, all of whose bases were looked up. -/
structure Listed (order : List ValueId) (S : Store) (v : ValueId) (ancestors : List ValueId) :
    Prop where
  store : S.Closed
  ranked : S.Ranked order
  below : S.Below order order.length v
  saturated : ∀ w, w = v ∨ w ∈ ancestors → S.Saturated w
  eq_tiers : ancestors = tiersOnce S.basesOf (S.basesOf v) order.length
  last : tier S.basesOf (S.basesOf v) order.length = []
  ends : ∃ listed, Lists S .empty (S.basesOf v) listed S ∧ listed.toList = ancestors

theorem Recorded.listed (h : Recorded order S v ancestors) : S.Listed order v ancestors := by
  obtain ⟨s, hs, hr, hv, rfl, hS⟩ := h
  let bases := s.basesOf v
  let t := (directBases v s).2
  have hdirect := (directBases_lasts hs hv.known).runs
  have ht : t.Closed := hdirect.1.closed
  have hrt : t.Ranked order := hr.ripens hs hdirect.1.ripens
  have hbelow : ∀ b ∈ bases, t.Below order order.length b := by
    intro b hb
    have hb := below_of_directBases hs hr hv hb
    exact ⟨hb.known, hb.mem, List.idxOf_lt_length_of_mem hb.mem⟩
  have hknown : ∀ b ∈ bases, t.ValueKnown b := fun b hb => (hbelow b hb).known
  have hempty : t.RegistryKnown .empty := fun v hv => (List.not_mem_nil hv).elim
  have hlast : (linearize bases t).2.Ripens S := hS
  have htS : t.Ripens S := (linearize_runs ht hknown).1.ripens.trans hlast
  obtain ⟨hbases, hsaturated⟩ := saturated_of_ripens hs hv.known htS
  obtain ⟨heq, hall⟩ := linearize_eq ht hknown hlast
  obtain ⟨hend, -⟩ := linearize_ends ht hrt hbelow hlast
  have hlength := hrt.length_le
  refine
    { store := hS.closed
      ranked := hrt.ripens ht htS
      below := hv.ripens (hdirect.1.ripens.trans htS)
      saturated := ?_
      eq_tiers := ?_
      last := ?_
      ends := ?_ }
  · rintro w (rfl | hw)
    · exact hsaturated
    · exact hall w hw
  · rw [hbases]
    refine heq.trans ?_
    rw [tiersOnce, tiersOnce, tiers_eq_of_le hend (by omega)]
  · rw [hbases]
    exact hend
  · -- the search that was made then comes to the same when it is made again
    have hagain := (listLevels_lasts ht (t.values.size + 1) hempty hknown).again S hlast
    have hback : (listLevels (t.values.size + 1) .empty bases S).2.Ripens S := by
      rw [hagain]
      exact .refl hS.closed
    have hfinal := lists_listLevels hS.closed (t.values.size + 1)
      (fun v hv => (List.not_mem_nil hv).elim) (fun b hb => htS.keeps.valueKnown b (hknown b hb))
      hback (tier_eq_nil_of_le hend (by omega))
    rw [hagain] at hfinal
    rw [hbases]
    exact ⟨_, hfinal, rfl⟩

/-- Ancestors that were listed are all that is reached along direct bases, nearer ones first. -/
theorem Listed.linearized (h : S.Listed order v ancestors) : S.Linearized v ancestors := by
  have hmem (w : ValueId) :
      w ∈ ancestors ↔ ∃ k < order.length, w ∈ tier S.basesOf (S.basesOf v) k := by
    rw [h.eq_tiers, mem_tiersOnce]
  have hreach (w : ValueId) (k : Nat) (hw : w ∈ tier S.basesOf (S.basesOf v) k) :
      w ∈ ancestors := by
    refine (hmem w).2 ⟨k, ?_, hw⟩
    by_contra hle
    rw [tier_eq_nil_of_le h.last (Nat.le_of_not_lt hle)] at hw
    exact List.not_mem_nil hw
  have htrans (w : ValueId) : w ∈ ancestors ↔ TransGen S.DirectBase v w := by
    rw [transGen_directBase_iff, hmem]
    simp only [baseSteps_succ_iff]
    exact ⟨fun ⟨k, _, hw⟩ => ⟨k, hw⟩, fun ⟨k, hw⟩ => (hmem w).1 (hreach w k hw)⟩
  have hbelow (w : ValueId) (hw : w ∈ ancestors) :
      order.idxOf (Hierarchy.baseClass S.values w) <
        order.idxOf (Hierarchy.baseClass S.values v) := by
    obtain ⟨k, hk, hw⟩ := (hmem w).1 hw
    have hself : S.Below order (order.idxOf (Hierarchy.baseClass S.values v) + 1) v :=
      ⟨h.below.known, h.below.mem, Nat.lt_succ_self _⟩
    have hsaturated : (directBases v S).2 = S := h.saturated v (.inl rfl)
    have hbases : ∀ b ∈ S.basesOf v,
        S.Below order (order.idxOf (Hierarchy.baseClass S.values v)) b := by
      intro b hb
      have hb := below_of_directBases h.store h.ranked hself hb
      rwa [hsaturated, Nat.add_sub_cancel] at hb
    have hlt := (below_of_mem_tier h.store h.ranked hbases order.length
      (fun j hj u hu => h.saturated u (.inr (hreach u j hu))) k (Nat.le_of_lt hk) w hw).lt
    omega
  refine
    { nodup := h.eq_tiers ▸ nodup_eraseDups _
      mem_iff := htrans
      ordered := ?_
      direct := ?_
      closed := fun w hw b hb => (htrans b).2 (((htrans w).1 hw).tail hb)
      other := fun w hw => ⟨?_, ?_⟩
      saturated := h.saturated
      ends := h.ends }
  · have hordered := tiersOnce_ordered S.basesOf (S.basesOf v) order.length
    rw [← h.eq_tiers] at hordered
    refine hordered.imp_of_mem fun {x y} hx hy hxy n hn => ?_
    cases n with
    | zero =>
      -- no ancestor is the value itself
      obtain rfl : v = y := hn
      exact absurd (hbelow v hy) (Nat.lt_irrefl _)
    | succ n =>
      obtain ⟨m, hm, hx⟩ := hxy n (baseSteps_succ_iff.1 hn)
      exact ⟨m + 1, Nat.succ_le_succ hm, baseSteps_succ_iff.2 hx⟩
  · have hmore : tiersOnce S.basesOf (S.basesOf v) (order.length + 1) = ancestors := by
      rw [h.eq_tiers, tiersOnce, tiersOnce, tiers_eq_of_le h.last (Nat.le_succ _)]
    exact hmore ▸ eraseDups_prefix_tiersOnce S.basesOf (S.basesOf v) order.length
  · rintro rfl
    exact Nat.lt_irrefl _ (hbelow w hw)
  · intro heq
    have hlt := hbelow w hw
    rw [heq] at hlt
    exact Nat.lt_irrefl _ hlt

/-! ## Ancestors that are noted -/

/-- Ancestors are noted of a class or of a constructed class. -/
theorem ancestors?_eq_some_iff {values : ValueStore} :
    values.ancestors? v = some ancestors ↔
      (∃ cls, values.class? v = some cls ∧ cls.finalized = true ∧ cls.ancestors = ancestors) ∨
        ∃ cls, values.constructed? v = some cls ∧ cls.finalized = true ∧ cls.ancestors =
          ancestors := by
  unfold ValueStore.ancestors? ValueStore.class? ValueStore.constructed?
  cases values.get? v with
  | none => simp
  | some value =>
    obtain ⟨node, members, data⟩ := value
    cases data <;> simp [Value.class?, Value.constructed?]

/-- No ancestors are noted of values that come while classes stay as they are. -/
theorem Still.ancestors? (h : s.Still t) (hv : t.values.ancestors? v = some ancestors) :
    s.values.ancestors? v = some ancestors := by
  rw [ancestors?_eq_some_iff] at hv ⊢
  rcases hv with ⟨cls, hcls, hlisted⟩ | ⟨cls, hcls, hlisted⟩
  · exact .inl ⟨cls, (h.classes v).symm.trans hcls, hlisted⟩
  · rcases h.unlisted v cls hcls with hold | hnone
    · exact .inr ⟨cls, hold, hlisted⟩
    · rw [hnone] at hlisted
      cases hlisted.1

/-- All ancestors that are noted were listed, for classes of the order. -/
structure Traced (order : List ValueId) (s : Store) : Prop where
  store : s.Closed
  ranked : s.Ranked order
  noted : ∀ v ancestors, s.values.ancestors? v = some ancestors → Recorded order s v ancestors

/-- Ancestors that come have to be listed. -/
theorem Traced.ripens (h : Traced order s) (hS : s.Ripens S)
    (hnoted : ∀ v ancestors, S.values.ancestors? v = some ancestors →
      s.values.ancestors? v = some ancestors ∨ Recorded order S v ancestors) : Traced order S where
  store := hS.closed
  ranked := h.ranked.ripens h.store hS
  noted v ancestors hv :=
    (hnoted v ancestors hv).elim (fun hold => (h.noted v ancestors hold).ripens hS) id

/-- While classes stay as they are, no ancestors come. -/
theorem Traced.still (h : Traced order s) (hS : s.Retains S) (hstill : s.Still S) :
    Traced order S :=
  h.ripens (.ofSameClasses hS hstill.classes) fun _ _ hv => .inl (hstill.ancestors? hv)

/-- A store that is reached while parameters and bases stay as they are, with ancestors that
were listed. -/
structure Traces (order : List ValueId) (s t : Store) : Prop where
  traced : Traced order t
  ripens : s.Ripens t

theorem Traces.refl (h : Traced order s) : Traces order s s := ⟨h, .refl h.store⟩

instance : IsTrans Store (Traces order) := ⟨fun _ _ _ h h' => ⟨h'.traced, h.ripens.trans h'.ripens⟩⟩

instance : Anchored (Traces order) := ⟨fun h => .refl h.traced⟩

/-- The store with the ancestors of a class noted. -/
def withAncestors (s : Store) (c : ValueId) (ancestors : List ValueId) : Store :=
  { s with values := s.values.updateClass c fun data => { data with ancestors, finalized := true } }

/-- The store with the ancestors of a constructed class noted. -/
def withConstructedAncestors (s : Store) (v : ValueId) (ancestors : List ValueId) : Store :=
  { s with values := s.values.updateConstructed v fun data =>
    { data with ancestors, finalized := true } }

/-- Noting ancestors leaves parameters and bases as they are. -/
theorem ripens_withAncestors (hs : s.Closed) {c : ValueId} (hc : (s.values.class? c).isSome)
    (hknown : ∀ w ∈ ancestors, s.ValueKnown w) : s.Ripens (s.withAncestors c ancestors) := by
  refine ⟨Change.retains hs (.noteAncestors c ancestors hc hknown), fun w => ?_⟩
  show ((s.values.updateClass c _).class? w).map _ = _
  rw [ValueStore.class?_updateClass]
  split
  · rw [Option.map_map]
    rfl
  · rfl

theorem ripens_withConstructedAncestors (hs : s.Closed) (hv : (s.values.constructed? v).isSome)
    (hknown : ∀ w ∈ ancestors, s.ValueKnown w) :
    s.Ripens (s.withConstructedAncestors v ancestors) := by
  refine .ofSameClasses (Change.retains hs (.noteConstructedAncestors v ancestors hv hknown)) ?_
  exact fun w => class?_updateConstructed s.values v w _

/-- Ancestors are noted where they were, and of the class. -/
theorem ancestors?_withAncestors {c : ValueId} {noted : List ValueId}
    (hv : (s.withAncestors c noted).values.ancestors? v = some ancestors) :
    s.values.ancestors? v = some ancestors ∨ (v = c ∧ noted = ancestors) := by
  rw [ancestors?_eq_some_iff] at hv ⊢
  rcases hv with ⟨cls, hcls, hlisted⟩ | ⟨cls, hcls, hlisted⟩
  · have hget : (s.values.updateClass c _).class? v = some cls := hcls
    rw [ValueStore.class?_updateClass] at hget
    by_cases hcv : c = v
    · rw [if_pos hcv] at hget
      obtain ⟨old, -, rfl⟩ := Option.map_eq_some_iff.1 hget
      exact .inr ⟨hcv.symm, hlisted.2⟩
    · rw [if_neg hcv] at hget
      exact .inl (.inl ⟨cls, hget, hlisted⟩)
  · have hget : (s.values.updateClass c _).constructed? v = some cls := hcls
    rw [ValueStore.constructed?_updateClass] at hget
    exact .inl (.inr ⟨cls, hget, hlisted⟩)

theorem ancestors?_withConstructedAncestors {c : ValueId} {noted : List ValueId}
    (hv : (s.withConstructedAncestors c noted).values.ancestors? v = some ancestors) :
    s.values.ancestors? v = some ancestors ∨ (v = c ∧ noted = ancestors) := by
  rw [ancestors?_eq_some_iff] at hv ⊢
  rcases hv with ⟨cls, hcls, hlisted⟩ | ⟨cls, hcls, hlisted⟩
  · have hget : (s.values.updateConstructed c _).class? v = some cls := hcls
    rw [class?_updateConstructed] at hget
    exact .inl (.inl ⟨cls, hget, hlisted⟩)
  · have hget : (s.values.updateConstructed c _).constructed? v = some cls := hcls
    rw [ValueStore.constructed?_updateConstructed] at hget
    by_cases hcv : c = v
    · rw [if_pos hcv] at hget
      obtain ⟨old, -, rfl⟩ := Option.map_eq_some_iff.1 hget
      exact .inr ⟨hcv.symm, hlisted.2⟩
    · rw [if_neg hcv] at hget
      exact .inl (.inr ⟨cls, hget, hlisted⟩)

theorem finalizeClass_eq {c : ValueId} {data : ClassData} (h : s.values.class? c = some data) :
    (Hierarchy.finalizeClass c s).2 =
      (linearize data.bases s).2.withAncestors c (linearize data.bases s).1 := by
  unfold Hierarchy.finalizeClass
  rw [run_bind, run_get]
  dsimp only
  rw [h]
  rfl

/-- A class of the order is finalized. -/
theorem Traced.finalizeClass (h : Traced order s) {c : ValueId} (hc : c ∈ order) :
    Traces order s (Hierarchy.finalizeClass c s).2 := by
  have hclass := h.ranked.class? c hc
  obtain ⟨data, hdata⟩ := Option.isSome_iff_exists.1 hclass
  have hlinear := linearize_runs h.store (h.store.valueKnown_of_mem_bases hdata)
  have hbuilds := hlinear.1
  have hnote := ripens_withAncestors hbuilds.closed (hbuilds.class? hclass) hlinear.2
  have hripens := hbuilds.ripens.trans hnote
  rw [finalizeClass_eq hdata]
  refine ⟨h.ripens hripens fun v ancestors hv => ?_, hripens⟩
  rcases ancestors?_withAncestors hv with hv | ⟨rfl, rfl⟩
  · exact .inl (hbuilds.still.ancestors? hv)
  · have hbehind : Hierarchy.baseClass s.values v = v := baseClass_of_class? hdata
    have hrun : (directBases v >>= linearize) s = linearize data.bases s := by
      rw [run_bind, directBases_of_class? hdata]
    refine .inr ⟨s, h.store, h.ranked, ⟨valueKnown_of_class? hclass, ?_, ?_⟩, ?_, ?_⟩
    · rwa [hbehind]
    · rw [hbehind]
      exact List.idxOf_lt_length_of_mem hc
    · rw [hrun]
    · rw [hrun]
      exact hnote

/-- The ancestors of a constructed class of a class of the order are listed. -/
theorem Traced.finalizeConstructed (h : Traced order s) (hcon : (s.values.constructed? v).isSome)
    (hv : s.Below order order.length v) :
    Traces order s (finalizeConstructed v s).2 := by
  have hdirect := (directBases_lasts h.store hv.known).runs
  have hlinear := linearize_runs hdirect.1.closed fun b hb => (hdirect.2 b hb).1
  have hbuilds := hdirect.1.trans hlinear.1
  have hnote := ripens_withConstructedAncestors hbuilds.closed (hbuilds.constructed? hcon) hlinear.2
  have hripens := hbuilds.ripens.trans hnote
  refine ⟨h.ripens hripens fun w ancestors hw => ?_, hripens⟩
  rcases ancestors?_withConstructedAncestors hw with hw | ⟨rfl, rfl⟩
  · exact .inl (hbuilds.still.ancestors? hw)
  · exact .inr ⟨s, h.store, h.ranked, hv, rfl, hnote⟩

/-- The class behind a value whose ancestors are noted is in the order. -/
theorem Traced.below (h : Traced order s) (hv : s.values.ancestors? v = some ancestors) :
    s.Below order order.length v := (h.noted v ancestors hv).listed.below

/-- A constructed class of which it is time to list the ancestors. -/
theorem Traced.below_of_isPending (h : Traced order s) (hv : isPending s.values v = true) :
    (s.values.constructed? v).isSome ∧ s.Below order order.length v := by
  obtain ⟨cls, hcls, hpending⟩ := (Option.any_eq_true _ _).1 hv
  have hcon : (s.values.constructed? v).isSome := Option.isSome_iff_exists.2 ⟨cls, hcls⟩
  obtain ⟨-, hfinalized⟩ := Bool.and_eq_true_iff.1 hpending
  obtain ⟨ancestors, hnoted⟩ := Option.isSome_iff_exists.1 hfinalized
  obtain ⟨-, hmem, hlt⟩ := h.below hnoted
  obtain ⟨data, hdata⟩ := Option.isSome_iff_exists.1 (h.store.named.generic v cls hcls)
  rw [baseClass_of_class? hdata] at hmem hlt
  have hbehind : Hierarchy.baseClass s.values v = cls.generic := by
    rw [Hierarchy.baseClass, hcls]
    rfl
  exact ⟨hcon, valueKnown_of_constructed? hcon, hbehind ▸ hmem, hbehind ▸ hlt⟩

theorem Traced.finalizeRounds (h : Traced order s) (rounds : Nat) :
    Runs (Traces order) s (finalizeRounds rounds) fun _ _ => True := by
  induction rounds generalizing s with
  | zero => exact .pure (.refl h) trivial
  | succ rounds ih =>
    refine .get_bind ?_
    dsimp only
    split
    · exact .pure (.refl h) trivial
    · refine (Runs.forM (.refl h) fun v hv t ht => ?_).bind fun _ t ht _ => ih ht.traced
      obtain ⟨hcon, hbelow⟩ := h.below_of_isPending (List.mem_filter.1 hv).2
      have hlater := ht.ripens.keeps.constructed? hcon
      exact ⟨ht.traced.finalizeConstructed hlater (hbelow.ripens ht.ripens), trivial⟩

/-- The ancestors of constructed classes are listed when it is time. -/
theorem Traced.finalizeAllConstructed (h : Traced order s) :
    Runs (Traces order) s finalizeAllConstructed fun _ _ => True := .get_bind (h.finalizeRounds _)

theorem Traced.finalizeAll {classes : List ValueId} (h : Traced order s) (hmem : classes ⊆ order) :
    Traces order s (Hierarchy.finalizeAll classes s) := by
  induction classes generalizing s with
  | nil => exact .refl h
  | cons c classes ih =>
    have hfirst := h.finalizeClass (hmem List.mem_cons_self)
    have hrest := ih hfirst.traced fun d hd => hmem (List.mem_cons_of_mem _ hd)
    exact IsTrans.trans _ _ _ hfirst hrest

/-- What is reached from a store while classes stay as they are and the ancestors of constructed
classes are listed. -/
inductive Follows (s : Store) : Store → Prop
  | refl : Follows s s
  | still {t u : Store} (h : Follows s t) (hkept : t.Retains u) (hstill : t.Still u) : Follows s u
  | finalize {t : Store} (h : Follows s t) : Follows s (Store.finalizeAllConstructed t).2

theorem Traced.follows (h : Traced order s) (ht : s.Follows t) : Traced order t := by
  induction ht with
  | refl => exact h
  | still _ hkept hstill ih => exact ih.still hkept hstill
  | finalize _ ih => exact ih.finalizeAllConstructed.1.traced

end Store

namespace Hierarchy

variable (a : Arena) (x : Analysis)

/-- The store after the bases of all declared classes were resolved. -/
def resolvedStore : Store := (resolutions a x.classes x).2.store

theorem resolutions_leads {x : Analysis} (hclosed : x.Closed) :
    x.Leads (resolutions a x.classes x).2 := by
  have hruns := (resolveBases_runs hclosed a hclosed.classes).1
  rwa [resolveBases_eq] at hruns

/-- Classes are finalized after those that they are built on. -/
theorem finalizedInOrder_ranked {x : Analysis} (hclosed : x.Closed) :
    (resolvedStore a x).Ranked (finalizedInOrder a x) := by
  have hnodup := schedule_nodup (resolvedValues a x) x.classes
    (blockedClasses (resolutions a x.classes x).1)
  have hordered := finalizationOrder_ordered hnodup
  have horder : (finalizedInOrder a x).Nodup := finalizationOrder_nodup hnodup
  refine ⟨horder, fun c hc => ?_, fun c hc d hd => ?_⟩
  · obtain ⟨earlier, later, hsplit⟩ := List.append_of_mem hc
    obtain ⟨w, hw, rfl, -⟩ := hordered earlier c later hsplit
    obtain ⟨decl, hdecl, heq⟩ := (mem_schedule.1 hw).1
    have hclass := (resolutions_leads a hclosed).store.class? _ (hclosed.classes decl hdecl)
    exact heq ▸ hclass
  · obtain ⟨earlier, later, hsplit⟩ := List.append_of_mem hc
    obtain ⟨w, hw, rfl, hbefore⟩ := hordered earlier c later hsplit
    rw [(mem_schedule.1 hw).2.2] at hbefore
    have hearlier : d ∈ earlier := hbefore hd
    rw [hsplit] at horder ⊢
    have hnot : w.cls ∉ earlier := fun hmem =>
      List.disjoint_of_nodup_append horder hmem List.mem_cons_self
    rw [List.idxOf_append_of_mem hearlier, List.idxOf_append_of_notMem hnot]
    have hlt := List.idxOf_lt_length_of_mem hearlier
    exact ⟨List.mem_append_left _ hearlier, by omega⟩

/-- No ancestors are noted in a ready analysis in which none are listed. -/
theorem ancestors?_eq_none {x : Analysis} (hx : x.Ready) (hlisted : x.store.Unlisted)
    (v : ValueId) :
    x.store.values.ancestors? v = none := by
  rw [Option.eq_none_iff_forall_ne_some]
  intro ancestors hv
  rcases Store.ancestors?_eq_some_iff.1 hv with ⟨cls, hcls, hfinalized, -⟩ |
    ⟨cls, hcls, hfinalized, -⟩
  · rw [hx.fresh v cls hcls] at hfinalized
    cases hfinalized
  · rw [hlisted v cls hcls] at hfinalized
    cases hfinalized

/-- Before classes are finalized, no ancestors are noted. -/
theorem resolved_traced {x : Analysis} (hx : x.Ready) (hclosed : x.Closed)
    (hlisted : x.store.Unlisted) :
    Store.Traced (finalizedInOrder a x) (resolvedStore a x) := by
  have hunlisted := (resolutions_resolves a x.classes x).unlisted hlisted
  refine ⟨(resolutions_leads a hclosed).closed.store, finalizedInOrder_ranked a hclosed,
    fun v ancestors hv => ?_⟩
  cases (ancestors?_eq_none (resolutions_ready a x.classes hx) hunlisted v).symm.trans hv

/-- Building the hierarchy goes from one store to another in which ancestors were listed. -/
theorem build_traces {x : Analysis} (hx : x.Ready) (hclosed : x.Closed)
    (hlisted : x.store.Unlisted) :
    Store.Traces (finalizedInOrder a x) (resolvedStore a x) (build a x).2.store := by
  have hclasses := (resolved_traced a hx hclosed hlisted).finalizeAll (List.Subset.refl _)
  have hconstructed := hclasses.traced.finalizeAllConstructed.1
  rw [build_store]
  exact IsTrans.trans _ _ _ hclasses hconstructed

/-- **The ancestors of classes.** Let an analysis be ready and closed, and no ancestors be listed
in it. After the hierarchy is built, and whenever later the ancestors of constructed classes are
listed, the ancestors that are noted of a class or a constructed class are all that is reached
from it along direct bases: each once, nearer ones first, the direct bases in front, and none of
them of the same class as the value itself. The search for ancestors ends in every store that
comes after the bases were resolved, for every value of a class that is finalized. -/
theorem build_linearizes (hx : x.Ready) (hclosed : x.Closed) (hlisted : x.store.Unlisted) :
    (∀ s, (build a x).2.store.Follows s → ∀ v ancestors,
      s.values.ancestors? v = some ancestors → s.Linearized v ancestors) ∧
    ∀ s, (resolvedStore a x).Ripens s → ∀ v, s.ValueKnown v →
      baseClass s.values v ∈ finalizedInOrder a x →
      let t := (Store.directBases v s).2
      ∃ listed u, Store.Lists t .empty (s.basesOf v) listed u ∧
        Store.linearize (s.basesOf v) t = (listed.toList, u) := by
  have htraces := build_traces a hx hclosed hlisted
  refine ⟨fun s hs v ancestors hv => ?_, fun s hs v hknown hmem => ?_⟩
  · exact ((htraces.traced.follows hs).noted v ancestors hv).listed.linearized
  · have hr :=
      (finalizedInOrder_ranked a hclosed).ripens (resolutions_leads a hclosed).closed.store hs
    have hdirect := (Store.directBases_lasts hs.closed hknown).runs.1
    have hbelow : ∀ b ∈ s.basesOf v, (Store.directBases v s).2.Below (finalizedInOrder a x)
        (finalizedInOrder a x).length b := by
      intro b hb
      have hb := Store.below_of_directBases hs.closed hr
        ⟨hknown, hmem, List.idxOf_lt_length_of_mem hmem⟩ hb
      exact ⟨hb.known, hb.mem, List.idxOf_lt_length_of_mem hb.mem⟩
    have hlast := (Store.linearize_runs hdirect.closed fun b hb => (hbelow b hb).known).1.closed
    obtain ⟨-, listed, hlists, heq⟩ := Store.linearize_ends hdirect.closed
      (hr.ripens hs.closed hdirect.ripens) hbelow (.refl hlast)
    exact ⟨listed, _, hlists, Prod.ext heq.symm rfl⟩

/-! ## A class above another one -/

/-- A tree of two classes: `class A {} class B extends A {}`. -/
def twoClasses : Arena :=
  let add (a : Arena) (kind : NodeKind) (name : Nat) (children : List NodeRef) : Arena :=
    (a.addNode kind .empty .zero ⟨name⟩ children).2
  let a := add .empty .bindingName 100 []
  let a := add a .classBody 0 []
  let a := add a .classDeclaration 0 [some 0, none, some 1]
  let a := add a .bindingName 101 []
  let a := add a .identifier 100 []
  let a := add a .classBody 0 []
  let a := add a .classDeclaration 0 [some 3, some 4, some 5]
  add a .script 0 [some 2, some 6]

/-- The names of the two classes are bound. -/
def namedClasses : Analysis :=
  (Analysis.bindNames twoClasses false (some 7) (Analysis.new twoClasses)).2

/-- The lower one of the two classes has the upper one as its only ancestor. -/
theorem build_namedClasses_linearizes :
    namedClasses.Ready ∧ namedClasses.Closed ∧ namedClasses.store.Unlisted ∧
      (build twoClasses namedClasses).2.store.Linearized (.atPosition 4) [.atPosition 1] := by
  have hready : namedClasses.Ready := Analysis.bindNames_ready twoClasses false (some 7)
  have hclosed : namedClasses.Closed :=
    (Analysis.bindNames_leads (Analysis.closed_new twoClasses) twoClasses false (some 7)).closed
  have hlisted : namedClasses.store.Unlisted :=
    Analysis.bindNames_unlisted twoClasses false (some 7)
  have hmain := (build_linearizes twoClasses namedClasses hready hclosed hlisted).1
  exact ⟨hready, hclosed, hlisted, hmain _ .refl _ _ (by decide +kernel)⟩

end Hierarchy

end DocTypes
