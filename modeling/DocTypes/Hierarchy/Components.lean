import DocTypes.Hierarchy.Graph

/-!
# Strongly connected components

One search through a graph finds its strongly connected components. The search goes into each
node once and numbers the nodes as it enters them. A node that was entered waits on a stack
until its component is known, and has a low-link: a number on the stack that it is known to
reach. The calls are the nodes that the search is still inside of, each with the targets it has
not followed yet. When a node is left its low-link goes to the node it was entered from, and a
node that is left with its own number as its low-link closes a component: itself and everything
above it on the stack.

Every step of the search follows an edge or leaves a node, so it ends (`Graph.remaining_step`).
-/

namespace DocTypes

/-- How far a search has come with a node. -/
inductive Mark where
  | unseen
  /-- On the stack, with the number that the node got when it was entered and its low-link. -/
  | waiting (index low : Nat)
  /-- In a component. -/
  | closed (component : Nat)
  deriving DecidableEq, Repr

namespace Mark

/-- The mark with its low-link put down to a bound. -/
def lower (bound : Nat) : Mark → Mark
  | waiting index low => waiting index (min low bound)
  | mark => mark

/-- The component of a node. -/
def component? : Mark → Option Nat
  | closed component => some component
  | _ => none

end Mark

/-- A search for strongly connected components. -/
structure Search where
  /-- The marks of the nodes. -/
  marks : Array Mark
  /-- The nodes that wait for their component, the one that was entered last in front. -/
  stack : List Nat := []
  /-- The nodes that were entered and not left, the innermost one in front, with the targets
  that were not followed yet. -/
  calls : List (Nat × List Nat) := []
  nextIndex : Nat := 0
  nextComponent : Nat := 0
  deriving DecidableEq, Repr

namespace Search

/-- Enter a node. -/
def enter (g : Graph) (s : Search) (v : Nat) : Search :=
  { s with
    marks := s.marks.setIfInBounds v (.waiting s.nextIndex s.nextIndex)
    stack := v :: s.stack
    calls := (v, g.targets v) :: s.calls
    nextIndex := s.nextIndex + 1 }

/-- Put the low-link of a node down to a bound. -/
def lower (s : Search) (v bound : Nat) : Search :=
  { s with marks := s.marks.modify v (Mark.lower bound) }

/-- Follow an edge of the innermost call. -/
def follow (g : Graph) (s : Search) (v w : Nat) : Search :=
  match s.marks[w]? with
  | some .unseen => s.enter g w
  | some (.waiting index _) => s.lower v index
  | _ => s

/-- Give a component to the nodes of a stack from the top through a node, and take them off. -/
def closeThrough (component v : Nat) : List Nat → Array Mark → List Nat × Array Mark
  | [], marks => ([], marks)
  | w :: stack, marks =>
    let marks := marks.setIfInBounds w (.closed component)
    if w = v then (stack, marks) else closeThrough component v stack marks

/-- Close the component of a node. -/
def close (s : Search) (v : Nat) : Search :=
  let (stack, marks) := closeThrough s.nextComponent v s.stack s.marks
  { s with stack, marks, nextComponent := s.nextComponent + 1 }

/-- Put the low-link of the innermost call down to that of a node it entered. -/
def lowerCaller (s : Search) (low : Nat) : Search :=
  match s.calls with
  | [] => s
  | (caller, _) :: _ => s.lower caller low

/-- Leave a node whose call is over. -/
def leave (s : Search) (v : Nat) : Search :=
  match s.marks[v]? with
  | some (.waiting index low) =>
    if low = index then (s.lowerCaller low).close v else s.lowerCaller low
  | _ => s

/-- Go on with the innermost call: follow its next edge, or leave its node. -/
def step (g : Graph) (s : Search) : Search :=
  match s.calls with
  | [] => s
  | (v, w :: rest) :: calls => { s with calls := (v, rest) :: calls }.follow g v w
  | (v, []) :: calls => { s with calls }.leave v

end Search

namespace Graph

/-! ## The end of a search -/

/-- How many steps a node takes: one for each of its targets, and one to leave it. -/
def weight (g : Graph) (v : Nat) : Nat := (g.targets v).length + 1

/-- How many steps the unseen nodes take. -/
def unseenWork (g : Graph) (marks : Array Mark) : Nat :=
  ((List.range marks.size).map fun v => if marks[v]? = some .unseen then g.weight v else 0).foldr
    (· + ·) 0

/-- How many steps the calls and the unseen nodes take. -/
def remaining (g : Graph) (s : Search) : Nat :=
  g.unseenWork s.marks + (s.calls.map fun call => call.2.length + 1).foldr (· + ·) 0

/-- A sum of smaller terms is smaller. -/
theorem sum_map_le {f f' : Nat → Nat} (l : List Nat) (h : ∀ v, f' v ≤ f v) :
    (l.map f').foldr (· + ·) 0 ≤ (l.map f).foldr (· + ·) 0 := by
  induction l with
  | nil => exact Nat.le_refl _
  | cons v l ih => simpa using Nat.add_le_add (h v) ih

/-- A sum gets smaller with one of its terms, when no other gets larger. -/
theorem sum_map_add_le {l : List Nat} {f f' : Nat → Nat} {w n : Nat} (hw : w ∈ l)
    (h : ∀ v, f' v ≤ f v) (hn : f' w + n ≤ f w) :
    (l.map f').foldr (· + ·) 0 + n ≤ (l.map f).foldr (· + ·) 0 := by
  induction l with
  | nil => cases hw
  | cons v l ih =>
    rw [List.map_cons, List.map_cons, List.foldr_cons, List.foldr_cons]
    rcases List.mem_cons.1 hw with rfl | hw
    · have := sum_map_le l h
      omega
    · have := ih hw
      have := h v
      omega

section

variable {g : Graph} {marks marks' : Array Mark}

/-- Every node that is unseen after a change was unseen before it. -/
def FewerUnseen (marks marks' : Array Mark) : Prop :=
  marks'.size = marks.size ∧ ∀ v : Nat, marks'[v]? = some .unseen → marks[v]? = some .unseen

theorem FewerUnseen.refl (marks : Array Mark) : FewerUnseen marks marks := ⟨rfl, fun _ h => h⟩

theorem FewerUnseen.trans {marks'' : Array Mark} (h : FewerUnseen marks marks')
    (h' : FewerUnseen marks' marks'') : FewerUnseen marks marks'' :=
  ⟨h'.1.trans h.1, fun v hv => h.2 v (h'.2 v hv)⟩

theorem unseenTerm_le (h : FewerUnseen marks marks') (v : Nat) :
    (if marks'[v]? = some .unseen then g.weight v else 0) ≤
      if marks[v]? = some .unseen then g.weight v else 0 := by
  by_cases hv : marks'[v]? = some .unseen
  · exact Nat.le_of_eq ((if_pos hv).trans (if_pos (h.2 v hv)).symm)
  · rw [if_neg hv]
    exact Nat.zero_le _

theorem unseenWork_le (h : FewerUnseen marks marks') :
    g.unseenWork marks' ≤ g.unseenWork marks := by
  unfold unseenWork
  rw [h.1]
  exact sum_map_le _ (unseenTerm_le h)

/-- The work of a node that is entered is not among that of the unseen nodes any more. -/
theorem unseenWork_add_le (h : FewerUnseen marks marks') {w : Nat}
    (hw : marks[w]? = some .unseen) (hw' : marks'[w]? ≠ some .unseen) :
    g.unseenWork marks' + g.weight w ≤ g.unseenWork marks := by
  unfold unseenWork
  rw [h.1]
  have hlt : w < marks.size := (Array.getElem?_eq_some_iff.1 hw).1
  apply sum_map_add_le (List.mem_range.2 hlt) (unseenTerm_le h)
  exact Nat.le_of_eq (by rw [if_pos hw, if_neg hw', Nat.zero_add])

/-- Setting a mark to another one than `unseen`. -/
theorem fewerUnseen_set (w : Nat) {mark : Mark} (hmark : mark ≠ .unseen) :
    FewerUnseen marks (marks.setIfInBounds w mark) := by
  refine ⟨Array.size_setIfInBounds, fun v hv => ?_⟩
  rw [Array.getElem?_setIfInBounds] at hv
  split at hv
  · split at hv
    · exact absurd (Option.some.inj hv) hmark
    · cases hv
  · exact hv

theorem fewerUnseen_lower (w bound : Nat) :
    FewerUnseen marks (marks.modify w (Mark.lower bound)) := by
  refine ⟨Array.size_modify, fun v hv => ?_⟩
  rw [Array.getElem?_modify] at hv
  split at hv
  · cases hmark : marks[v]? with
    | none => rw [hmark] at hv; cases hv
    | some mark =>
      rw [hmark] at hv
      cases mark with
      | unseen => rfl
      | waiting => cases hv
      | closed => cases hv
  · exact hv

theorem fewerUnseen_closeThrough (component v : Nat) (stack : List Nat) (marks : Array Mark) :
    FewerUnseen marks (Search.closeThrough component v stack marks).2 := by
  induction stack generalizing marks with
  | nil => exact .refl marks
  | cons w stack ih =>
    have hset : FewerUnseen marks (marks.setIfInBounds w (.closed component)) :=
      fewerUnseen_set w (by simp)
    unfold Search.closeThrough
    by_cases hw : w = v
    · simpa only [hw, if_true] using hw ▸ hset
    · simpa only [hw, if_false] using hset.trans (ih _)

end

section

variable (g : Graph) (s : Search)

theorem fewerUnseen_lowerCaller (low : Nat) : FewerUnseen s.marks (s.lowerCaller low).marks := by
  unfold Search.lowerCaller
  split
  · exact .refl _
  · exact fewerUnseen_lower _ low

theorem calls_lowerCaller (low : Nat) : (s.lowerCaller low).calls = s.calls := by
  unfold Search.lowerCaller
  split <;> rfl

theorem fewerUnseen_leave (v : Nat) : FewerUnseen s.marks (s.leave v).marks := by
  unfold Search.leave
  split
  · split
    · exact (fewerUnseen_lowerCaller s _).trans (fewerUnseen_closeThrough _ v _ _)
    · exact fewerUnseen_lowerCaller s _
  · exact .refl _

theorem calls_leave (v : Nat) : (s.leave v).calls = s.calls := by
  unfold Search.leave
  split
  · split
    · exact calls_lowerCaller s _
    · exact calls_lowerCaller s _
  · rfl

theorem fewerUnseen_follow (v w : Nat) : FewerUnseen s.marks (s.follow g v w).marks := by
  unfold Search.follow
  split
  · exact fewerUnseen_set w (by simp)
  · exact fewerUnseen_lower v _
  · exact .refl _

theorem fewerUnseen_step : FewerUnseen s.marks (s.step g).marks := by
  unfold Search.step
  split
  · exact .refl _
  · exact fewerUnseen_follow g _ _ _
  · exact fewerUnseen_leave _ _

/-- What is left to do, when no call is added or taken away. -/
theorem remaining_le {s s' : Search} (h : FewerUnseen s.marks s'.marks)
    (hcalls : s'.calls = s.calls) :
    g.remaining s' ≤ g.remaining s := by
  unfold remaining
  rw [hcalls]
  exact Nat.add_le_add_right (unseenWork_le h) _

theorem remaining_enter {v : Nat} (hv : s.marks[v]? = some .unseen) :
    g.remaining (s.enter g v) ≤ g.remaining s := by
  have hlt : v < s.marks.size := (Array.getElem?_eq_some_iff.1 hv).1
  have hwork : g.unseenWork (s.enter g v).marks + g.weight v ≤ g.unseenWork s.marks := by
    apply unseenWork_add_le (fewerUnseen_set v (by simp)) hv
    simp [hlt]
  show g.unseenWork (s.enter g v).marks +
    (((v, g.targets v) :: s.calls).map fun call => call.2.length + 1).foldr (· + ·) 0 ≤ _
  rw [List.map_cons, List.foldr_cons]
  show _ + (g.weight v + _) ≤ g.unseenWork s.marks + _
  omega

theorem remaining_follow (v w : Nat) : g.remaining (s.follow g v w) ≤ g.remaining s := by
  unfold Search.follow
  split
  · exact remaining_enter g s ‹_›
  · exact remaining_le g (fewerUnseen_lower v _) rfl
  · exact Nat.le_refl _

/-- A step takes one away from what is left to do. -/
theorem remaining_step (h : s.calls ≠ []) : g.remaining (s.step g) < g.remaining s := by
  unfold Search.step
  split
  · exact absurd ‹_› h
  · rename_i v w rest calls hcalls
    apply Nat.lt_of_le_of_lt (remaining_follow g _ v w)
    simp [remaining, hcalls]
  · rename_i v calls hcalls
    apply Nat.lt_of_le_of_lt (remaining_le g (fewerUnseen_leave _ v) (calls_leave _ v))
    simp [remaining, hcalls]

end

/-! ## Components -/

/-- Go on until every call is over. -/
def finish (g : Graph) (s : Search) : Search :=
  if s.calls = [] then s else g.finish (s.step g)
termination_by g.remaining s
decreasing_by exact remaining_step g s ‹_›

/-- Search from a node, if it is unseen. -/
def searchFrom (g : Graph) (s : Search) (v : Nat) : Search :=
  if s.marks[v]? = some .unseen then g.finish (s.enter g v) else s

/-- The search from every node in turn. -/
def search (g : Graph) : Search :=
  (List.range g.size).foldl g.searchFrom { marks := Array.replicate g.size .unseen }

/-- The components of all nodes, by number. -/
def components (g : Graph) : Array (Option Nat) := g.search.marks.map Mark.component?

/-- The edges inside components, in the order of their sources. -/
def innerEdges (g : Graph) : List (Nat × Nat) :=
  let components := g.components
  g.edges.filter fun (v, w) => components[v]? = components[w]?

end Graph

end DocTypes
