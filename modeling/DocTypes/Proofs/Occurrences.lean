import Mathlib.Data.List.Basic
import Mathlib.Data.List.Nodup
import Mathlib.Data.List.Perm.Subperm

/-!
# First occurrences

`List.eraseDups` keeps the first occurrence of each item of a list. What comes later in the
list adds the items that are new, in their order (`fresh`), so items that are there already
may be put in or left out.

## Main statements

* `nodup_eraseDups`: no item is kept twice.
* `fresh_append`: what a list of two parts adds is what they add one after the other.
* `fresh_flatMap`: items that were seen, and repetitions, may be left out before items are
  followed further.
-/

namespace DocTypes

variable {α β : Type} [BEq α] [LawfulBEq α] [BEq β] [LawfulBEq β]

/-- No item is kept twice. -/
theorem nodup_eraseDups (xs : List α) : xs.eraseDups.Nodup := by
  match xs with
  | [] => exact List.nodup_nil
  | x :: xs =>
    rw [List.eraseDups_cons, List.nodup_cons, List.mem_eraseDups]
    exact ⟨by simp, nodup_eraseDups _⟩
termination_by xs.length
decreasing_by exact Nat.lt_succ_of_le (List.length_filter_le _ _)

theorem eraseDups_length_le (xs : List α) : xs.eraseDups.length ≤ xs.length :=
  ((nodup_eraseDups xs).subperm fun _ hx => List.mem_eraseDups.1 hx).length_le

theorem eraseDups_of_nodup {xs : List α} (h : xs.Nodup) : xs.eraseDups = xs := by
  induction xs with
  | nil => rfl
  | cons x xs ih =>
    obtain ⟨hx, hxs⟩ := List.nodup_cons.1 h
    have hothers : (xs.filter fun y => !y == x) = xs := by
      refine List.filter_eq_self.2 fun y hy => ?_
      simpa using ne_of_mem_of_not_mem hy hx
    rw [List.eraseDups_cons, hothers, ih hxs]

/-- Items may be picked out before or after repetitions are left out. -/
theorem filter_eraseDups (p : α → Bool) (xs : List α) :
    xs.eraseDups.filter p = (xs.filter p).eraseDups := by
  match xs with
  | [] => rfl
  | x :: xs =>
    have hrest := filter_eraseDups p (xs.filter fun y => !y == x)
    rw [List.eraseDups_cons]
    by_cases hx : p x = true
    · rw [List.filter_cons_of_pos hx, List.filter_cons_of_pos hx, List.eraseDups_cons, hrest,
        List.filter_filter, List.filter_filter]
      simp only [Bool.and_comm]
    · rw [List.filter_cons_of_neg hx, List.filter_cons_of_neg hx, hrest, List.filter_filter]
      congr 1
      refine List.filter_congr fun y _ => ?_
      by_cases hy : y = x
      · simp [hy, hx]
      · simp [hy]
termination_by xs.length
decreasing_by exact Nat.lt_succ_of_le (List.length_filter_le _ _)

/-- The items of a list that are not among those seen, each once. -/
def fresh (seen xs : List α) : List α := (xs.removeAll seen).eraseDups

theorem mem_fresh {seen xs : List α} {x : α} : x ∈ fresh seen xs ↔ x ∈ xs ∧ x ∉ seen := by
  simp [fresh, List.mem_eraseDups, List.removeAll]

theorem fresh_append (seen xs ys : List α) :
    fresh seen (xs ++ ys) = fresh seen xs ++ fresh (seen ++ xs) ys := by
  have hsplit : (ys.removeAll seen).removeAll (xs.removeAll seen) = ys.removeAll (seen ++ xs) := by
    simp only [List.removeAll, List.filter_filter]
    refine List.filter_congr fun y _ => ?_
    cases hy : seen.elem y <;> simp_all
  have happend : (xs ++ ys).removeAll seen = xs.removeAll seen ++ ys.removeAll seen := by
    simp [List.removeAll]
  rw [fresh, happend, List.eraseDups_append, hsplit]
  rfl

/-- Nothing is fresh if all of it was seen. -/
theorem fresh_eq_nil_iff {seen xs : List α} : fresh seen xs = [] ↔ xs ⊆ seen := by
  rw [List.eq_nil_iff_forall_not_mem]
  simp only [mem_fresh, not_and, not_not]
  rfl

/-- What is fresh depends on what was seen as a set. -/
theorem fresh_congr {seen seen' : List α} (h : ∀ x, x ∈ seen ↔ x ∈ seen') (xs : List α) :
    fresh seen xs = fresh seen' xs := by
  unfold fresh List.removeAll
  congr 1
  exact List.filter_congr fun x _ => by simp [h x]

omit [LawfulBEq α] in
theorem fresh_nil (xs : List α) : fresh [] xs = xs.eraseDups := by
  have hall : xs.removeAll [] = xs := List.filter_eq_self.2 fun x _ => rfl
  rw [fresh, hall]

theorem fresh_singleton {seen : List α} {x : α} (h : x ∉ seen) : fresh seen [x] = [x] := by
  simp [fresh, List.removeAll, List.eraseDups_cons, h]

/-- An item that was seen adds nothing. -/
theorem fresh_cons_of_mem {seen xs : List α} {x : α} (h : x ∈ seen) :
    fresh seen (x :: xs) = fresh seen xs := by
  have hsame : ∀ y, y ∈ seen ++ [x] ↔ y ∈ seen := by
    intro y
    simp only [List.mem_append, List.mem_singleton]
    exact ⟨fun hy => hy.elim id fun heq => heq ▸ h, .inl⟩
  rw [← List.singleton_append, fresh_append, fresh_congr hsame,
    fresh_eq_nil_iff.2 (by simpa using h), List.nil_append]

theorem fresh_cons_of_not_mem {seen xs : List α} {x : α} (h : x ∉ seen) :
    fresh seen (x :: xs) = x :: fresh (seen ++ [x]) xs := by
  rw [← List.singleton_append, fresh_append, fresh_singleton h, List.singleton_append]

/-- Items that were seen, and repetitions, may be left out before items are followed, if what
follows the items that were seen is done. -/
theorem fresh_flatMap {next : α → List β} {xs seen : List α} {done : List β}
    (h : ∀ x ∈ seen, next x ⊆ done) :
    fresh done ((fresh seen xs).flatMap next) = fresh done (xs.flatMap next) := by
  induction xs generalizing seen done with
  | nil => rfl
  | cons x xs ih =>
    rw [List.flatMap_cons, fresh_append done (next x)]
    by_cases hx : x ∈ seen
    · have hsame : ∀ y, y ∈ done ++ next x ↔ y ∈ done := by
        intro y
        rw [List.mem_append]
        exact ⟨fun hy => hy.elim id fun hnext => h x hx hnext, .inl⟩
      rw [fresh_cons_of_mem hx, fresh_eq_nil_iff.2 (h x hx), List.nil_append, fresh_congr hsame]
      exact ih h
    · rw [fresh_cons_of_not_mem hx, List.flatMap_cons, fresh_append done (next x)]
      congr 1
      refine ih fun y hy => ?_
      rcases List.mem_append.1 hy with hy | hy
      · exact fun z hz => List.mem_append_left _ (h y hy hz)
      · rw [List.mem_singleton] at hy
        exact hy ▸ List.subset_append_right _ _

/-- Repetitions may be left out before items are mapped. -/
theorem eraseDups_map_eraseDups (f : α → β) (xs : List α) :
    (xs.eraseDups.map f).eraseDups = (xs.map f).eraseDups := by
  have hmap : ∀ ys : List α, ys.map f = ys.flatMap fun x => [f x] := fun ys => List.map_eq_flatMap
  rw [← fresh_nil (xs.map f), ← fresh_nil (xs.eraseDups.map f), ← fresh_nil xs, hmap, hmap]
  exact fresh_flatMap fun x hx => (List.not_mem_nil hx).elim

end DocTypes
