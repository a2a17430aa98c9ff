import DocTypes.Proofs.Occurrences

/-!
# Search by levels

From a list of items, `next` leads to further items, and so on. `tier` follows every path
of a number of steps and repeats items as often as paths lead to them; `searchLevels` lists an
item once, where it is met first, and follows it from there alone. Both give the same items in
the same order, once repetitions are left out, so what a search lists can be read off the
tiers.

## Main statements

* `searchLevels_eq`: a search lists the items of the tiers, each where it is met first.
* `tiersOnce_ordered`: an item that is fewer steps away is listed earlier.
* `line_tiersOnce`: if every item leads to one of interest at most, those that are
  listed are a line.
* `forall₂_tiersOnce`: what is listed goes along with a relation that the steps keep.
-/

namespace DocTypes

variable {α β : Type} [BEq α] [LawfulBEq α] [BEq β] [LawfulBEq β]

/-- The items at a number of steps from a list, along every path. -/
def tier (next : α → List α) (start : List α) : Nat → List α
  | 0 => start
  | k + 1 => (tier next start k).flatMap next

/-- The tiers up to a number of steps, one after another. -/
def tiers (next : α → List α) (start : List α) (n : Nat) : List α :=
  (List.range n).flatMap (tier next start)

/-- The items of the tiers, each where it is met first. -/
def tiersOnce (next : α → List α) (start : List α) (n : Nat) : List α :=
  (tiers next start n).eraseDups

/-- List a level, each item that was not seen once, and follow those that are listed. -/
def searchLevels (next : α → List α) : (levels : Nat) → (seen level : List α) → List α
  | 0, seen, _ => seen
  | levels + 1, seen, level =>
    searchLevels next levels (seen ++ fresh seen level) ((fresh seen level).flatMap next)

section Tiers

variable {next : α → List α} {start : List α}

omit [BEq α] [LawfulBEq α] in
/-- The first step may be taken before the others. -/
theorem tier_flatMap (next : α → List α) (start : List α) (k : Nat) :
    tier next (start.flatMap next) k = tier next start (k + 1) := by
  induction k with
  | zero => rfl
  | succ k ih =>
    rw [tier, ih]
    rfl

omit [BEq α] [LawfulBEq α] in
theorem tiers_succ (next : α → List α) (start : List α) (n : Nat) :
    tiers next start (n + 1) = start ++ tiers next (start.flatMap next) n := by
  simp only [tiers, List.range_succ_eq_map, List.flatMap_cons, List.flatMap_map, tier]
  congr 1
  exact List.flatMap_congr fun k _ => (tier_flatMap next start k).symm

omit [BEq α] [LawfulBEq α] in
theorem tiers_concat (next : α → List α) (start : List α) (n : Nat) :
    tiers next start (n + 1) = tiers next start n ++ tier next start n := by
  simp [tiers, List.range_succ]

omit [BEq α] [LawfulBEq α] in
theorem mem_tiers {n : Nat} {x : α} :
    x ∈ tiers next start n ↔ ∃ k < n, x ∈ tier next start k := by
  simp [tiers]

theorem mem_tiersOnce {n : Nat} {x : α} :
    x ∈ tiersOnce next start n ↔ ∃ k < n, x ∈ tier next start k := by
  rw [tiersOnce, List.mem_eraseDups, mem_tiers]

omit [BEq α] [LawfulBEq α] in
/-- More items lead to more items. -/
theorem tier_subset {start' : List α} (h : start ⊆ start') (k : Nat) :
    tier next start k ⊆ tier next start' k := by
  induction k with
  | zero => exact h
  | succ k ih =>
    intro x hx
    obtain ⟨y, hy, hx⟩ := List.mem_flatMap.1 hx
    exact List.mem_flatMap.2 ⟨y, ih hy, hx⟩

omit [BEq α] [LawfulBEq α] in
/-- After an empty tier all tiers are empty. -/
theorem tier_eq_nil_of_le {n m : Nat} (hn : tier next start n = []) (h : n ≤ m) :
    tier next start m = [] := by
  induction h with
  | refl => exact hn
  | step _ ih => rw [tier, ih, List.flatMap_nil]

omit [BEq α] [LawfulBEq α] in
/-- Empty tiers add nothing. -/
theorem tiers_eq_of_le {n m : Nat} (hn : tier next start n = []) (h : n ≤ m) :
    tiers next start m = tiers next start n := by
  induction h with
  | refl => rfl
  | step h ih => rw [tiers_concat, tier_eq_nil_of_le hn h, List.append_nil, ih]

/-! ## What a search lists -/

omit [LawfulBEq α] in
/-- An empty level ends a search. -/
theorem searchLevels_nil (next : α → List α) (n : Nat) (seen : List α) :
    searchLevels next n seen [] = seen := by
  induction n generalizing seen with
  | zero => rfl
  | succ n ih =>
    have hnone : fresh seen ([] : List α) = [] := rfl
    rw [searchLevels, hnone, List.append_nil, List.flatMap_nil, ih]

/-- A search that has seen items, and everything that follows them unless it stands in the
level, lists the items of the tiers. -/
theorem searchLevels_eq_append {seen level full : List α} (n : Nat)
    (hlevel : fresh seen level = fresh seen full) (hseen : ∀ x ∈ seen, next x ⊆ seen ++ full) :
    searchLevels next n seen level = seen ++ fresh seen (tiers next full n) := by
  induction n generalizing seen level full with
  | zero => simp [searchLevels, tiers, fresh_eq_nil_iff.2]
  | succ n ih =>
    have hsame : ∀ x, x ∈ seen ++ fresh seen full ↔ x ∈ seen ++ full := by
      intro x
      simp only [List.mem_append, mem_fresh]
      by_cases hx : x ∈ seen <;> simp [hx]
    have hdone : ∀ x ∈ seen, next x ⊆ seen ++ fresh seen full :=
      fun x hx y hy => (hsame y).2 (hseen x hx hy)
    have hrest : searchLevels next n (seen ++ fresh seen full) ((fresh seen full).flatMap next) =
        (seen ++ fresh seen full) ++
          fresh (seen ++ fresh seen full) (tiers next (full.flatMap next) n) := by
      refine ih (fresh_flatMap hdone) fun x hx => ?_
      rcases List.mem_append.1 ((hsame x).1 hx) with hx | hx
      · exact fun y hy => List.mem_append_left _ (hdone x hx hy)
      · exact fun y hy => List.mem_append_right _ (List.mem_flatMap.2 ⟨x, hx, hy⟩)
    rw [searchLevels, hlevel, hrest, tiers_succ, fresh_append, fresh_congr hsame, List.append_assoc]

/-- A search lists the items of the tiers, each where it is met first. -/
theorem searchLevels_eq (next : α → List α) (start : List α) (n : Nat) :
    searchLevels next n [] start = tiersOnce next start n := by
  rw [searchLevels_eq_append n rfl fun x hx => (List.not_mem_nil hx).elim, List.nil_append,
    fresh_nil, tiersOnce]

/-- An item that is fewer steps away is listed earlier. -/
theorem tiersOnce_ordered (next : α → List α) (start : List α) (n : Nat) :
    (tiersOnce next start n).Pairwise fun x y =>
      ∀ k, y ∈ tier next start k → ∃ j ≤ k, x ∈ tier next start j := by
  induction n with
  | zero => exact .nil
  | succ n ih =>
    have hlist : tiersOnce next start (n + 1) =
        tiersOnce next start n ++ fresh (tiers next start n) (tier next start n) := by
      rw [tiersOnce, tiers_concat, List.eraseDups_append]
      rfl
    -- what is new in a tier is in no earlier one
    have hnew : ∀ y ∈ fresh (tiers next start n) (tier next start n), ∀ k,
        y ∈ tier next start k → n ≤ k := by
      intro y hy k hk
      by_contra hlt
      exact (mem_fresh.1 hy).2 (mem_tiers.2 ⟨k, Nat.lt_of_not_le hlt, hk⟩)
    rw [hlist, List.pairwise_append]
    refine ⟨ih, List.pairwise_of_forall_mem_list ?_, ?_⟩
    · exact fun x hx y hy k hk => ⟨n, hnew y hy k hk, (mem_fresh.1 hx).1⟩
    · intro x hx y hy k hk
      obtain ⟨j, hj, hx⟩ := mem_tiersOnce.1 hx
      exact ⟨j, Nat.le_trans (Nat.le_of_lt hj) (hnew y hy k hk), hx⟩

/-- The list itself comes first. -/
theorem eraseDups_prefix_tiersOnce (next : α → List α) (start : List α) (n : Nat) :
    start.eraseDups <+: tiersOnce next start (n + 1) := by
  rw [tiersOnce, tiers_succ, List.eraseDups_append]
  exact List.prefix_append _ _

/-! ## Lines -/

/-- Of the items of a level one at most is of interest, of those that it leads to one at most, and
so on: these are all of them. -/
inductive Line (next : α → List α) (p : α → Bool) : List α → List α → Prop
  | nil {level : List α} (h : level.filter p = []) : Line next p level []
  | cons {level line : List α} {x : α} (h : level.filter p = [x])
      (hrest : Line next p (next x) line) :
      Line next p level (x :: line)

namespace Line

variable {p : α → Bool} {level level' line line' : List α} {x : α}

omit [BEq α] [LawfulBEq α] in
theorem eq (h : Line next p level line) (h' : Line next p level line') : line = line' := by
  induction h generalizing line' with
  | nil h =>
    cases h' with
    | nil => rfl
    | cons h' _ => cases h.symm.trans h'
  | cons h _ ih =>
    cases h' with
    | nil h' => cases h.symm.trans h'
    | cons h' hrest =>
      cases h.symm.trans h'
      rw [ih hrest]

omit [BEq α] [LawfulBEq α] in
/-- An item of a line leads to a shorter one. -/
theorem of_mem (h : Line next p level line) (hx : x ∈ line) :
    ∃ rest, Line next p (next x) rest ∧ rest.length < line.length := by
  induction h with
  | nil => cases hx
  | @cons level line y _ hrest ih =>
    rcases List.mem_cons.1 hx with rfl | hx
    · exact ⟨line, hrest, Nat.lt_succ_self _⟩
    · obtain ⟨rest, hrest, hlt⟩ := ih hx
      exact ⟨rest, hrest, Nat.lt_succ_of_lt hlt⟩

omit [BEq α] [LawfulBEq α] in
/-- A line ends, so no item comes back in it. -/
theorem nodup (h : Line next p level line) : line.Nodup := by
  induction h with
  | nil => exact .nil
  | @cons level line x _ hrest ih =>
    refine List.nodup_cons.2 ⟨fun hx => ?_, ih⟩
    obtain ⟨rest, hrest', hlt⟩ := hrest.of_mem hx
    rw [hrest.eq hrest'] at hlt
    exact Nat.lt_irrefl _ hlt

omit [BEq α] [LawfulBEq α] in
/-- A line goes on from what is of interest in a level alone. -/
theorem congr (h : Line next p level line) (hlevel : level'.filter p = level.filter p) :
    Line next p level' line := by
  cases h with
  | nil h => exact .nil (hlevel.trans h)
  | cons h hrest => exact .cons (hlevel.trans h) hrest

end Line

omit [BEq α] [LawfulBEq α] in
/-- Items that lead to nothing of interest may be left out. -/
theorem filter_flatMap_of_eq_nil {p : α → Bool}
    (h : ∀ x ∈ start, p x = false → (next x).filter p = []) :
    (start.flatMap next).filter p = (start.filter p).flatMap fun x => (next x).filter p := by
  rw [List.filter_flatMap]
  induction start with
  | nil => rfl
  | cons x xs ih =>
    rw [List.flatMap_cons, ih fun y hy => h y (List.mem_cons_of_mem _ hy)]
    cases hx : p x with
    | true => rw [List.filter_cons_of_pos hx, List.flatMap_cons]
    | false =>
      rw [List.filter_cons_of_neg (by simp [hx]), h x List.mem_cons_self hx, List.nil_append]

omit [BEq α] [LawfulBEq α] in
/-- If an item leads to one of interest at most, and to none unless it is of interest itself, what
is of interest in the tiers is a line. -/
theorem line_tiers {p : α → Bool} {n : Nat} (hend : tier next start n = [])
    (hstart : (start.filter p).length ≤ 1)
    (hone : ∀ x ∈ tiers next start n, ((next x).filter p).length ≤ 1)
    (hnone : ∀ x ∈ tiers next start n, p x = false → (next x).filter p = []) :
    Line next p start ((tiers next start n).filter p) := by
  induction n generalizing start with
  | zero =>
    obtain rfl : start = [] := hend
    exact .nil rfl
  | succ n ih =>
    rw [tiers_succ] at hone hnone ⊢
    obtain ⟨honeFirst, hone⟩ := List.forall_mem_append.1 hone
    obtain ⟨hnoneFirst, hnone⟩ := List.forall_mem_append.1 hnone
    have hfirst := filter_flatMap_of_eq_nil hnoneFirst
    rw [← tier_flatMap] at hend
    rw [List.filter_append]
    match hlevel : start.filter p with
    | [] =>
      rw [hlevel, List.flatMap_nil] at hfirst
      have hline := ih hend (by simp [hfirst]) hone hnone
      rw [hline.eq (.nil hfirst)]
      exact .nil hlevel
    | [x] =>
      have hx : x ∈ start := List.mem_of_mem_filter (hlevel ▸ List.mem_singleton_self x)
      rw [hlevel, List.flatMap_singleton] at hfirst
      have hline := ih hend (hfirst ▸ honeFirst x hx) hone hnone
      exact .cons hlevel (hline.congr hfirst.symm)
    | x :: y :: more =>
      rw [hlevel] at hstart
      simp at hstart

/-- So is what is of interest in the list of the tiers, in which repetitions are left out. -/
theorem line_tiersOnce {p : α → Bool} {n : Nat} (hend : tier next start n = [])
    (hstart : (start.filter p).length ≤ 1)
    (hone : ∀ x ∈ tiersOnce next start n, ((next x).filter p).length ≤ 1)
    (hnone : ∀ x ∈ tiersOnce next start n, p x = false → (next x).filter p = []) :
    Line next p start ((tiersOnce next start n).filter p) := by
  have hline := line_tiers hend hstart (fun x hx => hone x (List.mem_eraseDups.2 hx))
    fun x hx => hnone x (List.mem_eraseDups.2 hx)
  rwa [tiersOnce, filter_eraseDups, eraseDups_of_nodup hline.nodup]

/-! ## Related tiers -/

omit [BEq α] [LawfulBEq α] [BEq β] [LawfulBEq β] in
theorem forall₂_flatMap {R : α → β → Prop} {xs : List α} {ys : List β} {f : α → List α}
    {g : β → List β} (h : List.Forall₂ R xs ys)
    (hstep : ∀ x ∈ xs, ∀ y ∈ ys, R x y → List.Forall₂ R (f x) (g y)) :
    List.Forall₂ R (xs.flatMap f) (ys.flatMap g) := by
  induction h with
  | nil => exact .nil
  | cons hxy _ ih =>
    rw [List.flatMap_cons, List.flatMap_cons]
    apply List.rel_append (hstep _ List.mem_cons_self _ List.mem_cons_self hxy)
    apply ih
    intro x hx y hy
    exact hstep x (List.mem_cons_of_mem _ hx) y (List.mem_cons_of_mem _ hy)

omit [BEq α] [LawfulBEq α] [BEq β] [LawfulBEq β] in
/-- Tiers are related if related items lead to related lists. -/
theorem forall₂_tier {R : α → β → Prop} {next' : β → List β} {start' : List β}
    (hstart : List.Forall₂ R start start') (n : Nat)
    (hnext : ∀ k < n, ∀ x ∈ tier next start k, ∀ y ∈ tier next' start' k, R x y →
      List.Forall₂ R (next x) (next' y)) :
    ∀ k ≤ n, List.Forall₂ R (tier next start k) (tier next' start' k) := by
  intro k hk
  induction k with
  | zero => exact hstart
  | succ k ih => exact forall₂_flatMap (ih (Nat.le_of_succ_le hk)) (hnext k hk)

/-- Repetitions may be left out before items are carried over. -/
theorem forall₂_eraseDups {R : α → β → Prop} {xs : List α} {ys : List β}
    (hR : ∀ x y z, R x y → R x z → y = z) (h : List.Forall₂ R xs ys) :
    ∃ entries, List.Forall₂ R xs.eraseDups entries ∧ ys.eraseDups = entries.eraseDups := by
  cases ys with
  | nil =>
    obtain rfl := List.forall₂_nil_right_iff.1 h
    exact ⟨[], .nil, rfl⟩
  | cons y ys =>
    have hinhabited : Nonempty β := ⟨y⟩
    let carry (x : α) : β := Classical.epsilon (R x)
    have hcarry (x : α) (z : β) (hz : R x z) : carry x = z :=
      hR x (carry x) z (Classical.epsilon_spec ⟨z, hz⟩) hz
    have hmap : xs.map carry = y :: ys := by
      rw [← List.forall₂_eq_eq_eq, List.forall₂_map_left_iff]
      exact h.imp hcarry
    rw [← hmap] at h ⊢
    rw [List.forall₂_map_right_iff, List.forall₂_same] at h
    refine ⟨xs.eraseDups.map carry, ?_, (eraseDups_map_eraseDups carry xs).symm⟩
    rw [List.forall₂_map_right_iff, List.forall₂_same]
    intro x hx
    exact h x (List.mem_eraseDups.1 hx)

/-- What is listed on the one side is what is listed on the other side, carried over item by
item, with repetitions left out. -/
theorem forall₂_tiersOnce {R : α → β → Prop} {next' : β → List β} {start' : List β}
    (hR : ∀ x y z, R x y → R x z → y = z) (hstart : List.Forall₂ R start start') (n : Nat)
    (hnext : ∀ k < n, ∀ x ∈ tier next start k, ∀ y ∈ tier next' start' k, R x y →
      List.Forall₂ R (next x) (next' y)) :
    ∃ entries, List.Forall₂ R (tiersOnce next start n) entries ∧
      tiersOnce next' start' n = entries.eraseDups := by
  apply forall₂_eraseDups hR
  have htier := forall₂_tier hstart n hnext
  have hrange : ∀ k ∈ List.range n, k ≤ n := fun k hk => Nat.le_of_lt (List.mem_range.1 hk)
  unfold tiers
  generalize List.range n = steps at hrange
  induction steps with
  | nil => exact .nil
  | cons k steps ih =>
    rw [List.flatMap_cons, List.flatMap_cons]
    apply List.rel_append (htier k (hrange k List.mem_cons_self))
    exact ih fun j hj => hrange j (List.mem_cons_of_mem _ hj)

end Tiers

end DocTypes
