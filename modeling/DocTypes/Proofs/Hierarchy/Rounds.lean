import DocTypes.Proofs.Hierarchy.Inheritance
import DocTypes.Proofs.Hierarchy.Mentions
import Mathlib.Data.Finset.Card

/-!
# The rounds over constructed classes

The ancestors of constructed classes are listed in rounds, because listing those of one makes
others. If the classes whose bases mention each other form no cycle, every class has a rank above
those of the classes that its bases mention. What a round makes then has a smaller rank than
something that the round was for, so after as many rounds as there are classes nothing is left.

`Store.Rounds` is the loop without a bound on the rounds, and without one on the levels of each
search for ancestors.

## Main statements

* `Store.Bounded.directBases`: what is made by looking up bases has a smaller rank.
* `Store.Traced.completes`: the loop over constructed classes ends.
* `Analysis.runPasses_completes`: both times that the ancestors of constructed classes are listed
  in a run.
-/

namespace DocTypes

open Relation

namespace Store

/-! ## The loop without a bound -/

/-- The constructed classes of which it is time to list the ancestors. -/
def pending (s : Store) : List ValueId := s.values.ids.filter (isPending s.values)

/-- The ancestors of a constructed class are listed, level by level until one is empty. -/
def ListsAncestors (s : Store) (v : ValueId) (t : Store) : Prop :=
  ∃ listed u, Lists (directBases v s).2 .empty (s.basesOf v) listed u ∧
    t = u.withConstructedAncestors v listed.toList

/-- The ancestors of constructed classes are listed one after another. -/
inductive ListsAll : List ValueId → Store → Store → Prop
  | nil (s : Store) : ListsAll [] s s
  | cons {s t u : Store} {v : ValueId} {rest : List ValueId} (h : s.ListsAncestors v t)
      (hrest : ListsAll rest t u) : ListsAll (v :: rest) s u

/-- The loop, and how many rounds it makes. -/
inductive Rounds : Store → Nat → Store → Prop
  | done {s : Store} (h : s.pending = []) : Rounds s 0 s
  | round {s t u : Store} {rounds : Nat} (h : s.pending ≠ []) (hround : ListsAll s.pending s t)
      (hrest : Rounds t rounds u) : Rounds s (rounds + 1) u

/-- The classes of a store. -/
def classIds (s : Store) : List ValueId :=
  s.values.ids.filter fun v => (s.values.class? v).isSome

/-- The loop over the constructed classes of a store ends in another one, where everything is
listed that can be. -/
structure Completes (s t : Store) : Prop where
  /-- There are no more rounds than classes. -/
  ends : ∃ rounds ≤ s.classIds.length, Rounds s rounds t
  /-- The ancestors of an applied class are noted if those of the class are. -/
  listed : ∀ v data, t.values.constructed? v = some data →
    t.values.isFinalized data.generic = true → data.finalized = true ∧ t.Linearized v data.ancestors
  /-- Nothing is done to the others. -/
  untouched : ∀ v data, s.values.constructed? v = some data →
    s.values.isFinalized data.generic = false → t.values.constructed? v = some data

variable {s t u : Store} {order : List ValueId} {rank : ValueId → Nat} {r : Nat} {v : ValueId}

/-! ## Ranks -/

/-- The rank of a class: how many classes are reached from it along mentions. -/
noncomputable def mentionRank (s : Store) (c : ValueId) : Nat :=
  have := Classical.decPred (TransGen s.Mentions c)
  (s.classIds.toFinset.filter (TransGen s.Mentions c)).card

theorem mem_classIds {c : ValueId} (h : (s.values.class? c).isSome) : c ∈ s.classIds :=
  List.mem_filter.2 ⟨mem_ids_of_valueKnown (valueKnown_of_class? h), h⟩

/-- A class that is applied is a class. -/
theorem AppliedIn.class? {generic : ValueId} {type : TypeId} (h : s.AppliedIn generic type)
    (hs : s.Closed) : (s.values.class? generic).isSome := by
  induction h with
  | here _ hdata hgeneric => exact hgeneric ▸ hs.named.generic _ _ hdata
  | inside _ _ _ ih => exact ih

theorem Mentions.class? {c d : ValueId} (h : s.Mentions c d) (hs : s.Closed) :
    (s.values.class? d).isSome := by
  obtain ⟨-, -, -, base, -, data, hdata, rfl | ⟨t, -, happlied⟩⟩ := h
  · exact hs.named.generic base data hdata
  · exact happlied.class? hs

/-- Without cycles, what is mentioned has a smaller rank. -/
theorem mentionRank_lt (hs : s.Closed) (hacyclic : ∀ c, ¬TransGen s.Mentions c c) {c d : ValueId}
    (h : s.Mentions c d) : s.mentionRank d < s.mentionRank c := by
  classical
  have hmem : d ∈ s.classIds.toFinset := List.mem_toFinset.2 (mem_classIds (h.class? hs))
  unfold mentionRank
  refine Finset.card_lt_card (Finset.ssubset_iff_of_subset ?_ |>.2 ⟨d, ?_, ?_⟩)
  · intro e he
    obtain ⟨he, hreach⟩ := Finset.mem_filter.1 he
    exact Finset.mem_filter.2 ⟨he, .head h hreach⟩
  · exact Finset.mem_filter.2 ⟨hmem, .single h⟩
  · exact fun hd => hacyclic d (Finset.mem_filter.1 hd).2

theorem mentionRank_lt_length (hacyclic : ∀ c, ¬TransGen s.Mentions c c) {c : ValueId}
    (hc : (s.values.class? c).isSome) : s.mentionRank c < s.classIds.length := by
  classical
  have hmem : c ∈ s.classIds.toFinset := List.mem_toFinset.2 (mem_classIds hc)
  refine Nat.lt_of_lt_of_le (Finset.card_lt_card ?_) (List.toFinset_card_le s.classIds)
  refine Finset.ssubset_iff_of_subset (Finset.filter_subset _ _) |>.2 ⟨c, hmem, fun h => ?_⟩
  exact hacyclic c (Finset.mem_filter.1 h).2

/-! ## What a round makes -/

/-- The classes of the order are finalized, and each has a rank above those that its bases
mention. -/
structure Graded (rank : ValueId → Nat) (order : List ValueId) (s : Store) : Prop where
  traced : Traced order s
  finalized : ∀ c ∈ order, Hierarchy.Finalized s c
  lt : ∀ c d, s.Mentions c d → rank d < rank c

/-- A store that is reached from another one in a round: what can still make something has a rank
below the bound, and what was made has a rank below that. -/
structure Bounded (rank : ValueId → Nat) (order : List ValueId) (s : Store) (r : Nat) (t : Store) :
    Prop where
  ripens : s.Ripens t
  classes : s.SameClasses t
  unsaturated : ∀ v, t.Below order order.length v → ¬t.Saturated v →
    rank (Hierarchy.baseClass t.values v) < r
  made : ∀ v data, t.values.constructed? v = some data →
    (s.values.constructed? v).isSome ∨ rank data.generic + 1 < r

/-- Only an applied class can make something. -/
theorem exists_constructed?_of_not_saturated (h : ¬s.Saturated v) :
    ∃ data, s.values.constructed? v = some data := by
  cases hcon : s.values.constructed? v with
  | some data => exact ⟨data, rfl⟩
  | none =>
    refine absurd ?_ h
    cases hclass : s.values.class? v with
    | some data => rw [Saturated, directBases_of_class? hclass]
    | none => rw [Saturated, directBases_of_none hclass hcon]

theorem baseClass_of_constructed? {data : ConstructedData}
    (h : s.values.constructed? v = some data) :
    Hierarchy.baseClass s.values v = data.generic := by
  rw [Hierarchy.baseClass, h]
  rfl

theorem Saturated.ripens (h : s.Saturated v) (hs : s.Closed) (hv : s.ValueKnown v)
    (ht : s.Ripens t) : t.Saturated v :=
  (saturated_of_ripens hs hv (by rwa [show (directBases v s).2 = s from h])).2

namespace Bounded

/-- A change that makes nothing but what has a rank below the bound. -/
theorem step (h : Bounded rank order s r t) (hripens : t.Ripens u) (hclasses : t.SameClasses u)
    (hmade : ∀ v data, u.values.constructed? v = some data →
      (∃ old, t.values.constructed? v = some old ∧ old.generic = data.generic) ∨
        rank data.generic + 1 < r) : Bounded rank order s r u := by
  refine ⟨h.ripens.trans hripens, fun v => (hclasses v).trans (h.classes v), fun v hv hnot => ?_,
    fun v data hv => ?_⟩
  · obtain ⟨data, hdata⟩ := exists_constructed?_of_not_saturated hnot
    rw [baseClass_of_constructed? hdata]
    rcases hmade v data hdata with ⟨old, hold, hgeneric⟩ | hlt
    · have hbehind : Hierarchy.baseClass t.values v = data.generic :=
        (baseClass_of_constructed? hold).trans hgeneric
      have hknown : t.ValueKnown v :=
        valueKnown_of_constructed? (Option.isSome_iff_exists.2 ⟨old, hold⟩)
      have hbelow : t.Below order order.length v := by
        have hmem := hv.mem
        rw [baseClass_of_constructed? hdata, ← hbehind] at hmem
        exact ⟨hknown, hmem, List.idxOf_lt_length_of_mem hmem⟩
      rw [← hbehind]
      exact h.unsaturated v hbelow fun hsat => hnot (hsat.ripens h.ripens.closed hknown hripens)
    · omega
  · rcases hmade v data hv with ⟨old, hold, hgeneric⟩ | hlt
    · exact hgeneric ▸ h.made v old hold
    · exact .inr hlt

/-- Looking up the bases of a value makes nothing, or something of a smaller rank. -/
theorem directBases (h : Bounded rank order s r t) (hs : Graded rank order s)
    (hv : t.Below order order.length v) : Bounded rank order s r (directBases v t).2 := by
  by_cases hsat : t.Saturated v
  · rwa [show (Store.directBases v t).2 = t from hsat]
  · have hlt := h.unsaturated v hv hsat
    have hmakes := directBases_makes h.ripens.closed v
    refine h.step hmakes.ripens hmakes.still.classes fun w made hw => ?_
    refine (hmakes.made w made hw).imp (fun hold => ⟨made, hold, rfl⟩) ?_
    rintro ⟨data, hdata, generic, hgeneric, base, hbase, hmentioned⟩
    have hbehind := baseClass_of_constructed? hdata
    rw [hbehind] at hlt
    -- the class was finalized, and its bases were known, when the round began
    obtain ⟨cls, hcls, hfinalized⟩ := hs.finalized _ (hbehind ▸ hv.mem)
    obtain rfl : generic = cls := by
      rw [h.classes] at hgeneric
      exact Option.some.inj (hgeneric.symm.trans hcls)
    have hknown := hs.traced.store.valueKnown_of_mem_bases hcls base hbase
    have hrank := hs.lt data.generic made.generic ⟨generic, hcls, hfinalized, base, hbase,
      hmentioned.of_extends hs.traced.store h.ripens.keeps hknown⟩
    omega

theorem ranked (h : Bounded rank order s r t) (hs : Graded rank order s) : t.Ranked order :=
  hs.traced.ranked.ripens hs.traced.store h.ripens

/-- The bases of a value that has a class of the order behind it have one, too. -/
theorem below_basesOf (h : Bounded rank order s r t) (hs : Graded rank order s)
    (hv : t.Below order order.length v) :
    ∀ b ∈ t.basesOf v, (Store.directBases v t).2.Below order order.length b := by
  intro b hb
  have hbelow := below_of_directBases h.ripens.closed (h.ranked hs) hv hb
  exact ⟨hbelow.known, hbelow.mem, List.idxOf_lt_length_of_mem hbelow.mem⟩

theorem listLevel (h : Bounded rank order s r t) (hs : Graded rank order s)
    (ancestors : Registry ValueId) {next : Array ValueId} {level : List ValueId}
    (hnext : ∀ v ∈ next, t.Below order order.length v)
    (hlevel : ∀ v ∈ level, t.Below order order.length v) :
    let found := Store.listLevel ancestors next level t
    Bounded rank order s r found.2 ∧ ∀ v ∈ found.1.2, found.2.Below order order.length v := by
  induction level generalizing t ancestors next with
  | nil => exact ⟨h, hnext⟩
  | cons v level ih =>
    have hrest : ∀ w ∈ level, t.Below order order.length w :=
      fun w hw => hlevel w (List.mem_cons_of_mem _ hw)
    by_cases hv : ancestors.contains v = true
    · have hrun : Store.listLevel ancestors next (v :: level) =
        Store.listLevel ancestors next level := by
        rw [Store.listLevel, if_pos hv]
      rw [hrun]
      exact ih h ancestors hnext hrest
    · have hrun : Store.listLevel ancestors next (v :: level) t =
        Store.listLevel (ancestors.insert v)
          (next ++ t.basesOf v) level (Store.directBases v t).2 := by
        rw [Store.listLevel, if_neg hv, run_bind]
        rfl
      have hfirst := hlevel v List.mem_cons_self
      have hripens := (directBases_lasts h.ripens.closed hfirst.known).runs.1.ripens
      rw [hrun]
      refine ih (h.directBases hs hfirst) _ (fun w hw => ?_) fun w hw => (hrest w hw).ripens hripens
      rw [← Array.mem_toList_iff, Array.toList_appendList, List.mem_append] at hw
      rcases hw with hw | hw
      · exact (hnext w (Array.mem_toList_iff.1 hw)).ripens hripens
      · exact h.below_basesOf hs hfirst w hw

theorem listLevels (h : Bounded rank order s r t) (hs : Graded rank order s) (levels : Nat)
    {ancestors : Registry ValueId} {level : List ValueId}
    (hlevel : ∀ v ∈ level, t.Below order order.length v) :
    Bounded rank order s r (Store.listLevels levels ancestors level t).2 := by
  induction levels generalizing t ancestors level with
  | zero => exact h
  | succ levels ih =>
    cases level with
    | nil => exact h
    | cons v level =>
      have hempty : ∀ w ∈ (#[] : Array ValueId), t.Below order order.length w :=
        fun w hw => (Array.not_mem_empty w hw).elim
      obtain ⟨hfirst, hnext⟩ := h.listLevel hs ancestors hempty hlevel
      exact ih hfirst fun w hw => hnext w (Array.mem_toList_iff.1 hw)

/-- The ancestors of a constructed class are listed. -/
theorem finalizeConstructed (h : Bounded rank order s r t) (hs : Graded rank order s)
    (hcon : (t.values.constructed? v).isSome) (hv : t.Below order order.length v) :
    Bounded rank order s r (Store.finalizeConstructed v t).2 ∧
      t.Ripens (Store.finalizeConstructed v t).2 ∧
      t.ListsAncestors v (Store.finalizeConstructed v t).2 ∧
      ∃ ancestors, ∀ w data, t.values.constructed? w = some data →
        (Store.finalizeConstructed v t).2.values.constructed? w =
          some (if v = w then { data with ancestors, finalized := true } else data) := by
  let bases := t.basesOf v
  let t₁ := (Store.directBases v t).2
  let t₂ := (linearize bases t₁).2
  have hdirect := (directBases_lasts h.ripens.closed hv.known).runs.1
  have h₁ : Bounded rank order s r t₁ := h.directBases hs hv
  have hbelow : ∀ b ∈ bases, t₁.Below order order.length b := h.below_basesOf hs hv
  have h₂ : Bounded rank order s r t₂ := h₁.listLevels hs (t₁.values.size + 1) hbelow
  have hlinear := linearize_runs h₁.ripens.closed fun b hb => (hbelow b hb).known
  have hbuilds : t.Builds t₂ := hdirect.trans hlinear.1
  have hnote : t₂.Ripens (t₂.withConstructedAncestors v (linearize bases t₁).1) :=
    ripens_withConstructedAncestors h₂.ripens.closed (hbuilds.constructed? hcon) hlinear.2
  have hconstructed (w : ValueId) :
      (t₂.withConstructedAncestors v (linearize bases t₁).1).values.constructed? w =
        if v = w then (t₂.values.constructed? w).map fun data =>
          { data with ancestors := (linearize bases t₁).1, finalized := true }
        else t₂.values.constructed? w := ValueStore.constructed?_updateConstructed _ _ _ _
  have hrun : (Store.finalizeConstructed v t).2 =
      t₂.withConstructedAncestors v (linearize bases t₁).1 := rfl
  rw [hrun]
  refine ⟨h₂.step hnote (fun w => class?_updateConstructed _ _ _ _) fun w data hw => ?_,
    hbuilds.ripens.trans hnote, ?_, (linearize bases t₁).1, fun w data hw => ?_⟩
  · rw [hconstructed] at hw
    split at hw
    · obtain ⟨old, hold, rfl⟩ := Option.map_eq_some_iff.1 hw
      exact .inl ⟨old, hold, rfl⟩
    · exact .inl ⟨data, hw, rfl⟩
  · obtain ⟨-, listed, hlists, heq⟩ :=
      linearize_ends h₁.ripens.closed (h₁.ranked hs) hbelow (.refl h₂.ripens.closed)
    exact ⟨listed, t₂, hlists, by rw [heq]⟩
  · rw [hconstructed, hbuilds.still.constructed w data hw]
    split <;> rfl

/-- The ancestors of constructed classes are listed one after another. -/
theorem forM (h : Bounded rank order s r t) (hs : Graded rank order s) {vs : List ValueId}
    (hvs : ∀ v ∈ vs, (t.values.constructed? v).isSome ∧ t.Below order order.length v) :
    let u := (vs.forM Store.finalizeConstructed t).2
    Bounded rank order s r u ∧ ListsAll vs t u ∧
      ∀ w data, t.values.constructed? w = some data →
        ∃ data', u.values.constructed? w = some data' ∧
        (w ∉ vs → data' = data) ∧ (w ∈ vs ∨ data.finalized = true → data'.finalized = true) := by
  induction vs generalizing t with
  | nil =>
    refine ⟨h, .nil t, fun w data hw => ⟨data, hw, fun _ => rfl, ?_⟩⟩
    rintro (hmem | hfinalized)
    · cases hmem
    · exact hfinalized
  | cons v vs ih =>
    obtain ⟨hcon, hbelow⟩ := hvs v List.mem_cons_self
    obtain ⟨hfirst, hripens, hlists, ancestors, hconstructed⟩ :=
      h.finalizeConstructed hs hcon hbelow
    have hrest : ∀ w ∈ vs, ((Store.finalizeConstructed v t).2.values.constructed? w).isSome ∧
        (Store.finalizeConstructed v t).2.Below order order.length w := by
      intro w hw
      obtain ⟨hcon, hbelow⟩ := hvs w (List.mem_cons_of_mem _ hw)
      exact ⟨hripens.keeps.constructed? hcon, hbelow.ripens hripens⟩
    obtain ⟨hbounded, hall, hnoted⟩ := ih hfirst hrest
    refine ⟨hbounded, .cons hlists hall, fun w data hw => ?_⟩
    obtain ⟨data', hdata', hsame, hfinalized⟩ := hnoted w _ (hconstructed w data hw)
    refine ⟨data', hdata', fun hmem => ?_, fun hmem => hfinalized ?_⟩
    · obtain ⟨hne, hmem⟩ := not_or.1 (fun h => hmem (List.mem_cons.2 h))
      rw [hsame hmem, if_neg (Ne.symm hne)]
    · rcases hmem with hmem | hdone
      · rcases List.mem_cons.1 hmem with rfl | hmem
        · exact .inr (by rw [if_pos rfl])
        · exact .inl hmem
      · refine .inr ?_
        split
        · rfl
        · exact hdone

end Bounded

/-! ## Round after round -/

theorem mem_pending : v ∈ s.pending ↔ ∃ data, s.values.constructed? v = some data ∧
    data.finalized = false ∧ s.values.isFinalized data.generic = true := by
  have hpending : isPending s.values v = true ↔ ∃ data, s.values.constructed? v = some data ∧
      data.finalized = false ∧ s.values.isFinalized data.generic = true := by
    rw [isPending, Option.any_eq_true]
    simp only [Bool.and_eq_true, Bool.not_eq_true']
  rw [pending, List.mem_filter, hpending]
  refine and_iff_right_of_imp fun ⟨data, hdata, _⟩ => mem_ids_of_valueKnown ?_
  exact valueKnown_of_constructed? (Option.isSome_iff_exists.2 ⟨data, hdata⟩)

/-- Classes that stay as they are stay finalized or not. -/
theorem isFinalized_of_sameClasses (h : s.SameClasses t) {c : ValueId}
    (hc : (s.values.class? c).isSome) : t.values.isFinalized c = s.values.isFinalized c := by
  have hc' : (t.values.class? c).isSome := by rwa [h c]
  rw [Bool.eq_iff_iff, Hierarchy.isFinalized_iff hc, Hierarchy.isFinalized_iff hc', h c]

theorem finalizeRounds_of_pending (h : s.pending = []) (bound : Nat) :
    (finalizeRounds bound s).2 = s := by
  cases bound with
  | zero => rfl
  | succ bound =>
    have hnone : s.values.ids.filter (isPending s.values) = [] := h
    unfold finalizeRounds
    rw [run_bind, run_get]
    dsimp only
    rw [hnone]
    rfl

theorem finalizeRounds_succ (h : s.pending ≠ []) (bound : Nat) :
    (finalizeRounds (bound + 1) s).2 =
      (finalizeRounds bound (s.pending.forM finalizeConstructed s).2).2 := by
  obtain ⟨v, rest, hpending⟩ := List.exists_cons_of_ne_nil h
  have hfilter : s.values.ids.filter (isPending s.values) = v :: rest := hpending
  rw [finalizeRounds, run_bind, run_get]
  dsimp only
  rw [hfilter, hpending]
  rfl

namespace Graded

/-- At the start of a round, what can make something is what the round is for. -/
theorem bounded (hs : Graded rank order s)
    (hr : ∀ v data, s.values.constructed? v = some data → v ∈ s.pending → rank data.generic < r) :
    Bounded rank order s r s := by
  refine ⟨.refl hs.traced.store, fun _ => rfl, fun v hv hnot => ?_, fun v data hv => ?_⟩
  · obtain ⟨data, hdata⟩ := exists_constructed?_of_not_saturated hnot
    have hbehind := baseClass_of_constructed? hdata
    rw [hbehind]
    refine hr v data hdata (mem_pending.2 ⟨data, hdata, ?_, ?_⟩)
    · rw [← Bool.not_eq_true]
      intro hfinalized
      have hnoted : s.values.ancestors? v = some data.ancestors :=
        ancestors?_eq_some_iff.2 (.inr ⟨data, hdata, hfinalized, rfl⟩)
      exact hnot ((hs.traced.noted v _ hnoted).listed.saturated v (.inl rfl))
    · have hclass := hs.traced.store.named.generic v data hdata
      exact (Hierarchy.isFinalized_iff hclass).2 (hs.finalized _ (hbehind ▸ hv.mem))
  · exact .inl (Option.isSome_iff_exists.2 ⟨data, hv⟩)

/-- A store that a round leads to is graded again. -/
theorem of_bounded (hs : Graded rank order s) (ht : Bounded rank order s r t)
    (htraced : Traced order t) : Graded rank order t := by
  refine ⟨htraced, fun c hc => ?_, fun c d hmentions => ?_⟩
  · obtain ⟨cls, hcls, hfinalized⟩ := hs.finalized c hc
    exact ⟨cls, (ht.classes c).trans hcls, hfinalized⟩
  · obtain ⟨data, hdata, hfinalized, base, hbase, hmentioned⟩ := hmentions
    rw [ht.classes] at hdata
    have hknown := hs.traced.store.valueKnown_of_mem_bases hdata base hbase
    exact hs.lt c d ⟨data, hdata, hfinalized, base, hbase,
      hmentioned.of_extends hs.traced.store ht.ripens.keeps hknown⟩

/-- One round: what it leaves to do has a smaller rank than something that the round was for. -/
theorem round (hs : Graded rank order s)
    (hr : ∀ v data, s.values.constructed? v = some data → v ∈ s.pending → rank data.generic < r) :
    let t := (s.pending.forM finalizeConstructed s).2
    Graded rank order t ∧ ListsAll s.pending s t ∧ s.SameClasses t ∧
      (∀ v data, s.values.constructed? v = some data → v ∉ s.pending →
        t.values.constructed? v = some data) ∧
      ∀ v data, t.values.constructed? v = some data → v ∈ t.pending →
        rank data.generic + 1 < r := by
  intro t
  have hpending : ∀ v ∈ s.pending, (s.values.constructed? v).isSome ∧
      s.Below order order.length v :=
    fun v hv => hs.traced.below_of_isPending (List.mem_filter.1 hv).2
  obtain ⟨hbounded, hall, hnoted⟩ := (hs.bounded hr).forM hs hpending
  have htraced : Traced order t := by
    refine (Runs.forM (R := Traces order) (.refl hs.traced) fun v hv u hu => ?_).1.traced
    obtain ⟨hcon, hbelow⟩ := hpending v hv
    exact ⟨hu.traced.finalizeConstructed (hu.ripens.keeps.constructed? hcon)
      (hbelow.ripens hu.ripens), trivial⟩
  refine ⟨hs.of_bounded hbounded htraced, hall, hbounded.classes, fun v data hv hmem => ?_,
    fun v data hv hmem => ?_⟩
  · obtain ⟨data', hdata', hsame, -⟩ := hnoted v data hv
    rw [hdata', hsame hmem]
  · refine (hbounded.made v data hv).resolve_left fun hold => ?_
    -- what was there is done with, or was not to be done
    obtain ⟨old, hold⟩ := Option.isSome_iff_exists.1 hold
    obtain ⟨data', hdata', hsame, hfinalized⟩ := hnoted v old hold
    obtain rfl : data' = data := Option.some.inj (hdata'.symm.trans hv)
    obtain ⟨data'', hdata'', hopen, hgeneric⟩ := mem_pending.1 hmem
    obtain rfl : data'' = data' := Option.some.inj (hdata''.symm.trans hv)
    by_cases hbefore : v ∈ s.pending
    · rw [hfinalized (.inl hbefore)] at hopen
      cases hopen
    · obtain rfl := hsame hbefore
      refine hbefore (mem_pending.2 ⟨data'', hold, hopen, ?_⟩)
      rwa [isFinalized_of_sameClasses hbounded.classes
        (hs.traced.store.named.generic v data'' hold)] at hgeneric

/-- Round after round, until nothing is left to do. -/
theorem rounds (hs : Graded rank order s)
    (hr : ∀ v data, s.values.constructed? v = some data → v ∈ s.pending → rank data.generic < r)
    {bound : Nat} (hbound : r ≤ bound) :
    let t := (finalizeRounds bound s).2
    Traced order t ∧ (∃ rounds ≤ r, Rounds s rounds t) ∧ t.pending = [] ∧
      ∀ v data, s.values.constructed? v = some data → s.values.isFinalized data.generic = false →
        t.values.constructed? v = some data := by
  induction r generalizing s bound with
  | zero =>
    have hnone : s.pending = [] := by
      refine List.eq_nil_iff_forall_not_mem.2 fun v hv => ?_
      obtain ⟨data, hdata, -⟩ := mem_pending.1 hv
      exact Nat.not_lt_zero _ (hr v data hdata hv)
    have hrun : (finalizeRounds bound s).2 = s := finalizeRounds_of_pending hnone bound
    rw [hrun]
    exact ⟨hs.traced, ⟨0, Nat.le_refl 0, .done hnone⟩, hnone, fun _ _ hv _ => hv⟩
  | succ r ih =>
    by_cases hnone : s.pending = []
    · have hrun : (finalizeRounds bound s).2 = s := finalizeRounds_of_pending hnone bound
      rw [hrun]
      exact ⟨hs.traced, ⟨0, Nat.zero_le _, .done hnone⟩, hnone, fun _ _ hv _ => hv⟩
    · obtain ⟨bound, rfl⟩ : ∃ n, bound = n + 1 := ⟨bound - 1, by omega⟩
      obtain ⟨hgraded, hall, hclasses, hothers, hleft⟩ := hs.round hr
      rw [finalizeRounds_succ hnone]
      obtain ⟨htraced, ⟨rounds, hle, hrounds⟩, hend, huntouched⟩ :=
        ih hgraded (fun v data hv hmem => Nat.lt_of_succ_lt_succ (hleft v data hv hmem))
          (Nat.le_of_succ_le_succ hbound)
      refine ⟨htraced, ⟨rounds + 1, Nat.succ_le_succ hle, .round hnone hall hrounds⟩, hend,
        fun v data hv hopen => ?_⟩
      have hmem : v ∉ s.pending := by
        intro hmem
        obtain ⟨data', hdata', -, hfinalized⟩ := mem_pending.1 hmem
        obtain rfl : data' = data := Option.some.inj (hdata'.symm.trans hv)
        rw [hopen] at hfinalized
        cases hfinalized
      refine huntouched v data (hothers v data hv hmem) ?_
      rwa [isFinalized_of_sameClasses hclasses (hs.traced.store.named.generic v data hv)]

end Graded

/-- The loop over constructed classes ends, if classes do not mention each other in a circle. -/
theorem Traced.completes (h : Traced order s)
    (hfinalized : ∀ c ∈ order, Hierarchy.Finalized s c) (hacyclic : ∀ c, ¬TransGen s.Mentions c c) :
    s.Completes (Store.finalizeAllConstructed s).2 := by
  have hs : Graded s.mentionRank order s :=
    ⟨h, hfinalized, fun c d => mentionRank_lt h.store hacyclic⟩
  have hrank : ∀ v data, s.values.constructed? v = some data → v ∈ s.pending →
      s.mentionRank data.generic < s.classIds.length := fun v data hv _ =>
    mentionRank_lt_length hacyclic (h.store.named.generic v data hv)
  have hbound : s.classIds.length ≤ s.values.size + valueLimit := by
    have hle := List.length_filter_le (fun v => (s.values.class? v).isSome) s.values.ids
    have hids : s.values.ids.length = s.values.size := by simp [ValueStore.ids, ValueStore.size]
    exact Nat.le_trans (hids ▸ hle) (Nat.le_add_right _ _)
  obtain ⟨htraced, hends, hnone, huntouched⟩ := hs.rounds hrank hbound
  rw [Store.finalizeAllConstructed, run_bind, run_get]
  refine ⟨hends, fun v data hv hgeneric => ?_, huntouched⟩
  have hdone : data.finalized = true := by
    by_contra hopen
    have hmem := mem_pending.2 ⟨data, hv, Bool.not_eq_true _ ▸ hopen, hgeneric⟩
    rw [hnone] at hmem
    cases hmem
  exact ⟨hdone, (htraced.noted v _ (ancestors?_eq_some_iff.2
    (.inr ⟨data, hv, hdone, rfl⟩))).listed.linearized⟩

theorem Follows.trans (h : s.Follows t) (h' : t.Follows u) : s.Follows u := by
  induction h' with
  | refl => exact h
  | still _ hkept hstill ih => exact ih.still hkept hstill
  | finalize _ ih => exact ih.finalize

theorem Follows.sameClasses (h : s.Follows t) : s.SameClasses t := by
  induction h with
  | refl => exact fun _ => rfl
  | still _ _ hstill ih => exact fun v => (hstill.classes v).trans (ih v)
  | finalize _ ih => exact fun v => (finalizeAllConstructed_sameClasses _ v).trans (ih v)

theorem not_appliedIn_of_isParameterKey {generic : ValueId} {type : TypeId}
    (h : isParameterKey (s.types.key? type) = true) : ¬s.AppliedIn generic type := by
  rintro (⟨hkey, -, -⟩ | ⟨hkey, hpart, -⟩)
  · rw [hkey] at h
    cases h
  · rw [hkey] at h
    unfold isParameterKey at h
    split at h
    · next heq =>
      obtain rfl := Option.some.inj heq
      cases hpart
    · cases h

/-- If the bases of classes are applied to type parameters alone, classes do not mention each other
in a circle: what a base mentions is the class behind it. -/
theorem Traced.acyclic (h : Traced order s) (hplain : ∀ c, s.hasPlainBases c = true) :
    ∀ c, ¬TransGen s.Mentions c c := by
  have hlt (c d : ValueId) (hmentions : s.Mentions c d) : order.idxOf d < order.idxOf c := by
    obtain ⟨data, hdata, hfinalized, base, hbase, applied, happlied, hd⟩ := hmentions
    have hnoted : s.values.ancestors? c = some data.ancestors :=
      ancestors?_eq_some_iff.2 (.inl ⟨data, hdata, hfinalized, rfl⟩)
    have hmem := (h.below hnoted).mem
    rw [baseClass_of_class? hdata] at hmem
    have hbefore := h.ranked.before c hmem _ (mem_baseClasses hdata hbase)
    rw [baseClass_of_constructed? happlied] at hbefore
    rcases hd with rfl | ⟨t, ht, hinside⟩
    · exact hbefore.2
    · have hkeys := hplain c
      rw [hasPlainBases, heritageOf_of_class? hdata] at hkeys
      have happlied' : s.types.key? t ∈ s.appliedKeys base := by
        rw [appliedKeys, happlied]
        exact List.mem_map_of_mem ht
      have hparameter := List.all_eq_true.1 (List.all_eq_true.1 hkeys base hbase) _ happlied'
      exact (not_appliedIn_of_isParameterKey hparameter hinside).elim
  intro c hcycle
  have hself : order.idxOf c < order.idxOf c := by
    have hall (d : ValueId) (hreach : TransGen s.Mentions c d) : order.idxOf d < order.idxOf c := by
      induction hreach with
      | single h => exact hlt _ _ h
      | tail _ h ih => exact Nat.lt_trans (hlt _ _ h) ih
    exact hall c hcycle
  exact Nat.lt_irrefl _ hself

end Store

namespace Hierarchy

variable (a : Arena) (x : Analysis)

/-- The store in which the ancestors of classes are noted, and not yet those of constructed
classes. -/
def classesListed : Store := finalizeAll (finalizedInOrder a x) (resolvedStore a x)

theorem classesListed_traced {x : Analysis} (hx : x.Ready) (hclosed : x.Closed)
    (hlisted : x.store.Unlisted) : Store.Traced (finalizedInOrder a x) (classesListed a x) :=
  ((resolved_traced a hx hclosed hlisted).finalizeAll (List.Subset.refl _)).traced

/-- The loop over constructed classes completes, at every time after the ancestors of classes were
noted. -/
theorem completes_of_follows {x : Analysis} (hx : x.Ready) (hclosed : x.Closed)
    (hlisted : x.store.Unlisted) {s : Store} (hs : (classesListed a x).Follows s)
    (hacyclic : ∀ c, ¬TransGen s.Mentions c c) :
    s.Completes (Store.finalizeAllConstructed s).2 := by
  refine ((classesListed_traced a hx hclosed hlisted).follows hs).completes
    (fun c hc => ?_) hacyclic
  have hclass := (resolved_traced a hx hclosed hlisted).ranked.class? c hc
  obtain ⟨cls, hcls, hdone⟩ := finalized_finalizeAll.2 (.inr ⟨hc, hclass⟩)
  exact ⟨cls, (hs.sameClasses c).trans hcls, hdone⟩

end Hierarchy

namespace Analysis

theorem runPasses_traced (a : Arena) (reportUndefined : Bool) (root : NodeRef) :
    Store.Traced (Hierarchy.finalizedInOrder a (runPasses a reportUndefined root 1))
      (Hierarchy.classesListed a (runPasses a reportUndefined root 1)) :=
  Hierarchy.classesListed_traced a (bindNames_ready a reportUndefined root)
    (bindNames_leads (closed_new a) a reportUndefined root).closed
    (bindNames_unlisted a reportUndefined root)

/-- **The ancestors of constructed classes are completed.** In a run they are listed twice, at the
end of the second pass and of the third. Each time, and at any other time in between, if finalized
classes do not mention each other in their bases in a circle, the loop ends after no more rounds
than there are classes. Afterwards, the ancestors of every constructed class are noted whose class
is finalized, and they are what is reached from it along its bases with the types put in, nearer
ones first. Nothing is done to the other constructed classes. -/
theorem runPasses_completes (a : Arena) (reportUndefined : Bool) (root : NodeRef) :
    let s₀ := Hierarchy.classesListed a (runPasses a reportUndefined root 1)
    (runPasses a reportUndefined root 2).store = (Store.finalizeAllConstructed s₀).2 ∧
    (∃ s₁, s₀.Follows s₁ ∧
      (runPasses a reportUndefined root 3).store = (Store.finalizeAllConstructed s₁).2) ∧
    ∀ s, s₀.Follows s → (∀ c, ¬TransGen s.Mentions c c) →
      s.Completes (Store.finalizeAllConstructed s).2 := by
  intro s₀
  have hx : (runPasses a reportUndefined root 1).Ready := bindNames_ready a reportUndefined root
  have hclosed : (runPasses a reportUndefined root 1).Closed :=
    (bindNames_leads (closed_new a) a reportUndefined root).closed
  have hlisted : (runPasses a reportUndefined root 1).store.Unlisted :=
    bindNames_unlisted a reportUndefined root
  have hbuild : (runPasses a reportUndefined root 2).store =
      (Store.finalizeAllConstructed s₀).2 := by
    rw [runPasses_two, Hierarchy.build_store]
    rfl
  have hclosed₂ : (runPasses a reportUndefined root 2).Closed := by
    rw [runPasses_two]
    exact (Hierarchy.build_runs hclosed a).1.closed
  obtain ⟨s₁, hs₁, hrun⟩ := Typing.run_finalizes hclosed₂ a root
  rw [← runPasses_three] at hrun
  rw [hbuild] at hs₁
  refine ⟨hbuild, ⟨s₁, ?_, hrun⟩, fun s hs hacyclic => ?_⟩
  · exact (Store.Follows.refl.finalize).trans hs₁
  · exact Hierarchy.completes_of_follows a hx hclosed hlisted hs hacyclic

/-- There are five constructed classes in the shared tree when the ancestors of its classes are
noted. The bases of these are applied to type parameters alone, so all five are completed. -/
theorem sharedTree_completes :
    let s := Hierarchy.classesListed (sharedTree Builder.new).2.arena
      (runPasses (sharedTree Builder.new).2.arena true (sharedTree Builder.new).1 1)
    s.pending = [⟨1018⟩, ⟨1019⟩, ⟨1020⟩, ⟨1021⟩, ⟨1022⟩] ∧
      (∀ c, ¬TransGen s.Mentions c c) ∧ s.Completes (Store.finalizeAllConstructed s).2 := by
  intro s
  obtain ⟨hbases, hpending⟩ : (s.values.ids.all fun c =>
      (((s.values.class? c).map (·.bases)).getD []).all fun b =>
        (s.appliedKeys b).all Store.isParameterKey) = true ∧
      s.pending = [⟨1018⟩, ⟨1019⟩, ⟨1020⟩, ⟨1021⟩, ⟨1022⟩] := by decide +kernel
  have htraced : Store.Traced _ s := runPasses_traced _ true _
  have hacyclic := htraced.acyclic (Store.hasPlainBases_of_ids hbases)
  exact ⟨hpending, hacyclic, (runPasses_completes _ true _).2.2 s .refl hacyclic⟩

end Analysis

end DocTypes
