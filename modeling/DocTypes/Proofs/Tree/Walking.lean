import DocTypes.Proofs.Tree.Shape

/-!
# Walks show the recursive listing

A walk keeps the nodes that it is still to show on a stack, and what is below a node is left out by
taking as many nodes off the stack as the node has children. What it shows in the end is the
recursive listing, cut below the same nodes.

`Walk.Shows` follows a walk turn by turn, so it only holds of a walk that comes to its end.

## Main statements

* `Walk.toList_start`: a walk from a node shows `Arena.preorder`.
* `Walk.shows_iff_preorder`: turn by turn, it shows that and then ends.
-/

namespace DocTypes

/-- The listing of a node that is there. -/
theorem Arena.preorder_some {a : Arena} {n : Nat} (h : (a.node? (some n)).isSome)
    (skip : Nat → Bool) :
    a.preorder skip (some n) = if skip n then [n] else
      n :: (a.presentChildren (some n)).flatMap fun c => a.preorder skip (some c) := by
  rw [preorder]
  obtain ⟨node, hnode⟩ := Option.isSome_iff_exists.1 h
  simp [hnode, List.flatMap_def]

namespace Walk

variable {a : Arena} {skip : Nat → Bool}

/-- Leaving out what is below the node shown last takes back what was put on the stack for it. -/
theorem stack_skipChildren {w w' : Walk} {n : Nat} (h : w.next? a = some (n, w')) :
    (w'.skipChildren a n).stack = w.stack.tail := by
  obtain ⟨stack⟩ := w
  cases stack with
  | nil => cases h
  | cons m rest =>
    cases h
    exact List.drop_left ..

/-- A walk shows what is below the nodes on its stack, one after another. -/
theorem toList_eq (w : Walk) (h : ∀ n ∈ w.stack, (a.node? (some n)).isSome) :
    w.toList a skip = w.stack.flatMap fun n => a.preorder skip (some n) := by
  fun_induction w.toList a skip with
  | case1 w hnext =>
    obtain ⟨stack⟩ := w
    cases stack with
    | nil => rfl
    | cons n rest => cases hnext
  | case2 w n w' hnext hskip ih =>
    have hrest := stack_skipChildren hnext
    obtain ⟨stack⟩ := w
    cases stack with
    | nil => cases hnext
    | cons m rest =>
      cases hnext
      rw [List.tail_cons] at hrest
      rw [ih (by rw [hrest]; exact fun c hc => h c (List.mem_cons_of_mem _ hc)), hrest,
        List.flatMap_cons, Arena.preorder_some (h n List.mem_cons_self), if_pos hskip]
      rfl
  | case3 w n w' hnext hskip ih =>
    obtain ⟨stack⟩ := w
    cases stack with
    | nil => cases hnext
    | cons m rest =>
      cases hnext
      have hstack : ∀ c ∈ a.presentChildren (some n) ++ rest, (a.node? (some c)).isSome := by
        intro c hc
        rcases List.mem_append.1 hc with hc | hc
        · exact Arena.node?_of_mem_children (Arena.mem_presentChildren.1 hc)
        · exact h c (List.mem_cons_of_mem _ hc)
      rw [ih hstack, List.flatMap_append, List.flatMap_cons,
        Arena.preorder_some (h n List.mem_cons_self), if_neg hskip]
      rfl

/-- A walk from a node shows what a recursive listing shows. -/
theorem toList_start (a : Arena) (skip : Nat → Bool) (r : NodeRef) :
    (start a r).toList a skip = a.preorder skip r := by
  cases r with
  | none =>
    rw [Arena.preorder]
    exact toList_eq ⟨[]⟩ fun n hn => (List.not_mem_nil hn).elim
  | some n =>
    rw [start]
    split
    · next hn =>
      rw [toList_eq ⟨[n]⟩ fun m hm => List.mem_singleton.1 hm ▸ hn]
      exact List.flatMap_singleton ..
    · next hn =>
      rw [toList_eq ⟨[]⟩ fun m hm => (List.not_mem_nil hm).elim, Arena.preorder]
      simp [Option.not_isSome_iff_eq_none.1 hn]

/-! ## Turn by turn -/

/-- The nodes that a walk shows from here to its end. Right after a node that `skip` accepts, what
is below it is left out. -/
inductive Shows (a : Arena) (skip : Nat → Bool) : Walk → List Nat → Prop
  | stop {w : Walk} : w.next? a = none → Shows a skip w []
  | descend {w w' : Walk} {n : Nat} {later : List Nat} :
      w.next? a = some (n, w') → skip n = false → Shows a skip w' later →
      Shows a skip w (n :: later)
  | leaveOut {w w' : Walk} {n : Nat} {later : List Nat} :
      w.next? a = some (n, w') → skip n = true → Shows a skip (w'.skipChildren a n) later →
      Shows a skip w (n :: later)

/-- Every walk comes to its end. -/
theorem shows_toList (w : Walk) : w.Shows a skip (w.toList a skip) := by
  fun_induction w.toList a skip with
  | case1 w hnext => exact .stop hnext
  | case2 w n w' hnext hskip ih => exact .leaveOut hnext hskip ih
  | case3 w n w' hnext hskip ih =>
    have hdescend : skip n = false := by simpa using hskip
    exact .descend hnext hdescend ih

/-- What a walk shows is settled by the walk and the test. -/
theorem Shows.eq_toList {w : Walk} {shown : List Nat} (h : w.Shows a skip shown) :
    shown = w.toList a skip := by
  induction h with
  | stop hnext =>
    rw [toList]
    split
    · rfl
    · next hsome => cases hnext.symm.trans hsome
  | descend hnext hskip _ ih =>
    rw [toList]
    split
    · next hnone => cases hnext.symm.trans hnone
    · next hsome =>
      cases hnext.symm.trans hsome
      rw [hskip, ih]
      rfl
  | leaveOut hnext hskip _ ih =>
    rw [toList]
    split
    · next hnone => cases hnext.symm.trans hnone
    · next hsome =>
      cases hnext.symm.trans hsome
      rw [if_pos hskip, ih]

/-- **A walk shows the recursive listing.** From every node, and for every set of nodes below which
the descent is cut, a walk comes to its end, and it has shown the recursive listing that is cut
below the same nodes, whichever nodes share what is below them. -/
theorem shows_iff_preorder (a : Arena) (skip : Nat → Bool) (root : NodeRef) (shown : List Nat) :
    (start a root).Shows a skip shown ↔ shown = a.preorder skip root := by
  rw [← toList_start]
  constructor
  · intro h
    exact h.eq_toList
  · intro h
    rw [h]
    exact shows_toList _

end Walk

end DocTypes
