import DocTypes.Proofs.Hierarchy.Searching

/-!
# Reaching and being reached

A search that starts with every node unseen goes into each of them, and when no call is left the
stack is empty (`Search.Ordered.stack_eq_nil`), because everything on it lies above a caller. So
every node is in a component then. Nodes of one component reach each other, and the numbers of the
components never go up along a path, so nodes that reach each other have one number.

## Main statements

* `Graph.finish_eq_iterate`: a search from any state ends after a bounded number of steps.
* `Graph.components_correct`: nodes have the same component if and only if they reach each other.
* `Graph.mem_innerEdges_iff`: an edge is inside a component if and only if it is on a cycle.
-/

namespace DocTypes

open Relation

namespace Search

variable {g : Graph} {s : Search} {v w : Nat}

theorem Ordered.start (g : Graph) : Ordered g { marks := Array.replicate g.size .unseen } := by
  have hunseen {v : Nat} {mark : Mark} (h : (Array.replicate g.size Mark.unseen)[v]? = some mark) :
      mark = .unseen := by
    rw [Array.getElem?_replicate] at h
    split at h
    · exact (Option.some.inj h).symm
    · cases h
  have hclosed {v i : Nat} :
      ¬ ({ marks := Array.replicate g.size .unseen } : Search).Closed v i := by
    intro h
    cases hunseen h
  constructor
  case size => exact Array.size_replicate
  case mem_stack =>
    intro v
    constructor
    · intro h
      cases h
    · intro ⟨i, l, h⟩
      cases hunseen h
  case settled =>
    constructor
    case lt => exact fun v i h => absurd h hclosed
    case edge => exact fun v w i h => absurd h hclosed
    case reaches => exact fun v w i h => absurd h hclosed
  all_goals simp [callers]

/-- When no call is left, nothing waits for its component. -/
theorem Ordered.stack_eq_nil (h : Ordered g s) (hcalls : s.calls = []) : s.stack = [] := by
  apply List.eq_nil_iff_forall_not_mem.mpr
  intro v hv
  obtain ⟨c, hc, -⟩ := h.above v hv
  unfold callers at hc
  rw [hcalls] at hc
  cases hc

/-- When no call is left, what was seen is in a component. -/
theorem Ordered.closed_of_seen (h : Ordered g s) (hcalls : s.calls = []) (hv : v < g.size)
    (hseen : s.marks[v]? ≠ some .unseen) : ∃ i, s.Closed v i := by
  obtain ⟨mark, hmark⟩ : ∃ mark, s.marks[v]? = some mark :=
    ⟨_, Array.getElem?_eq_getElem (h.size ▸ hv)⟩
  cases mark with
  | unseen => exact absurd hmark hseen
  | waiting i l =>
    have hmem : v ∈ s.stack := (h.mem_stack v).mpr ⟨i, l, hmark⟩
    rw [h.stack_eq_nil hcalls] at hmem
    cases hmem
  | closed i => exact ⟨i, hmark⟩

/-- The numbers of components do not go up along a path. -/
theorem Settled.le_of_reaches (h : Settled g s) (hpath : ReflTransGen g.Edge v w) {i : Nat}
    (hv : s.Closed v i) : ∃ j ≤ i, s.Closed w j := by
  induction hpath with
  | refl => exact ⟨i, Nat.le_refl _, hv⟩
  | tail _ hedge ih =>
    obtain ⟨j, hj, hclosed⟩ := ih
    obtain ⟨k, hk, hnext⟩ := h.edge _ _ j hclosed hedge
    exact ⟨k, Nat.le_trans hk hj, hnext⟩

theorem Closed.unique {i j : Nat} (hi : s.Closed v i) (hj : s.Closed v j) : i = j := by
  unfold Closed at hi hj
  rw [hi] at hj
  cases hj
  rfl

/-- Components have one number if and only if their nodes reach each other. -/
theorem Settled.eq_iff (h : Settled g s) {i j : Nat} (hv : s.Closed v i) (hw : s.Closed w j) :
    i = j ↔ ReflTransGen g.Edge v w ∧ ReflTransGen g.Edge w v := by
  constructor
  · rintro rfl
    exact ⟨h.reaches v w i hv hw, h.reaches w v i hw hv⟩
  · intro ⟨hvw, hwv⟩
    obtain ⟨k, hk, hwk⟩ := h.le_of_reaches hvw hv
    obtain ⟨l, hl, hvl⟩ := h.le_of_reaches hwv hw
    have := hwk.unique hw
    have := hvl.unique hv
    omega

end Search

namespace Graph

open Search

variable {g : Graph} {s : Search} {v w : Nat}

/-! ## Whole searches -/

/-- A search ends, after as many steps as there are nodes and edges left at most. -/
theorem finish_eq_iterate (g : Graph) (s : Search) :
    ∃ n ≤ g.remaining s, g.finish s = (Search.step g)^[n] s ∧ (g.finish s).calls = [] := by
  fun_induction finish g s with
  | case1 s hcalls => exact ⟨0, Nat.zero_le _, rfl, hcalls⟩
  | case2 s hcalls ih =>
    obtain ⟨n, hn, heq, hend⟩ := ih
    have hless := remaining_step g s hcalls
    exact ⟨n + 1, by omega, heq, hend⟩

/-- What every step of a search keeps to, the search keeps to. -/
theorem finish_induction {P : Search → Prop} (hstep : ∀ s, P s → P (s.step g)) (hs : P s) :
    P (g.finish s) := by
  obtain ⟨n, -, heq, -⟩ := finish_eq_iterate g s
  rw [heq]
  exact Function.Iterate.rec P hs hstep n

theorem finish_calls (g : Graph) (s : Search) : (g.finish s).calls = [] :=
  (finish_eq_iterate g s).choose_spec.2.2

theorem finish_fewerUnseen (g : Graph) (s : Search) : FewerUnseen s.marks (g.finish s).marks :=
  finish_induction (P := fun t => FewerUnseen s.marks t.marks)
    (fun t h => h.trans (fewerUnseen_step g t)) (.refl _)

/-- Between the searches from two nodes. -/
def Idle (g : Graph) (s : Search) : Prop := Ordered g s ∧ s.calls = []

theorem searchFrom_idle (h : g.Idle s) : g.Idle (g.searchFrom s v) := by
  unfold searchFrom
  split
  · refine ⟨finish_induction (fun _ => Ordered.step) (h.1.enter ‹_› ?_), finish_calls g _⟩
    intro c hc
    unfold callers at hc
    rw [h.2] at hc
    cases hc
  · exact h

theorem searchFrom_fewerUnseen (g : Graph) (s : Search) (v : Nat) :
    FewerUnseen s.marks (g.searchFrom s v).marks := by
  unfold searchFrom
  split
  · have henter : FewerUnseen s.marks (s.enter g v).marks := fewerUnseen_set v (by simp)
    exact henter.trans (finish_fewerUnseen g _)
  · exact .refl _

theorem searchFrom_seen (g : Graph) (s : Search) (v : Nat) :
    (g.searchFrom s v).marks[v]? ≠ some .unseen := by
  unfold searchFrom
  split
  · intro h
    have henter := (finish_fewerUnseen g (s.enter g v)).2 v h
    simp [Search.enter, Array.getElem?_setIfInBounds] at henter
  · assumption

/-- After the searches from some nodes, all of these were seen. -/
theorem foldl_searchFrom (h : g.Idle s) (nodes : List Nat) :
    g.Idle (nodes.foldl g.searchFrom s) ∧
    FewerUnseen s.marks (nodes.foldl g.searchFrom s).marks ∧
    ∀ v ∈ nodes, (nodes.foldl g.searchFrom s).marks[v]? ≠ some .unseen := by
  induction nodes generalizing s with
  | nil => exact ⟨h, .refl _, by simp⟩
  | cons w nodes ih =>
    obtain ⟨hidle, hfewer, hseen⟩ := ih (searchFrom_idle (v := w) h)
    refine ⟨hidle, (searchFrom_fewerUnseen g s w).trans hfewer, ?_⟩
    intro v hv
    rcases List.mem_cons.mp hv with rfl | hv
    · exact fun hunseen => searchFrom_seen g s v (hfewer.2 v hunseen)
    · exact hseen v hv

/-! ## Components -/

/-- The search from every node is over, and every node is in a component. -/
theorem search_spec (g : Graph) :
    g.Idle g.search ∧ ∀ v < g.size, ∃ i, g.search.Closed v i := by
  obtain ⟨hidle, -, hseen⟩ := foldl_searchFrom ⟨Ordered.start g, rfl⟩ (List.range g.size)
  exact ⟨hidle, fun v hv => hidle.1.closed_of_seen hidle.2 hv (hseen v (List.mem_range.mpr hv))⟩

theorem components_of_closed {i : Nat} (h : g.search.Closed v i) :
    g.components[v]? = some (some i) := by
  unfold Closed at h
  rw [components, Array.getElem?_map, h]
  rfl

/-- Every search ends, within as many steps as there are nodes and edges left. In the end every
node has a component, and nodes have the same component if and only if they reach each other. -/
theorem components_correct (g : Graph) :
    (∀ s : Search, ∃ n ≤ g.remaining s,
      g.finish s = (Search.step g)^[n] s ∧ (g.finish s).calls = []) ∧
    g.components.size = g.size ∧
    (∀ v < g.size, ∃ i, g.components[v]? = some (some i)) ∧
    ∀ v w, v < g.size → w < g.size →
      (g.components[v]? = g.components[w]? ↔
        ReflTransGen g.Edge v w ∧ ReflTransGen g.Edge w v) := by
  obtain ⟨hidle, hclosed⟩ := search_spec g
  refine ⟨finish_eq_iterate g, ?_, fun v hv => ?_, fun v w hv hw => ?_⟩
  · rw [components, Array.size_map]
    exact hidle.1.size
  · obtain ⟨i, hi⟩ := hclosed v hv
    exact ⟨i, components_of_closed hi⟩
  · obtain ⟨i, hi⟩ := hclosed v hv
    obtain ⟨j, hj⟩ := hclosed w hw
    rw [components_of_closed hi, components_of_closed hj, Option.some.injEq, Option.some.injEq]
    exact hidle.1.settled.eq_iff hi hj

/-- Three nodes in a circle, and one that the circle leads to. -/
def circle : Graph := ⟨#[[1], [2], [0, 3], []]⟩

/-- The nodes of the circle reach each other, and nothing leads back to it. -/
theorem circle_components :
    circle.components = #[some 1, some 1, some 1, some 0] ∧
    (ReflTransGen circle.Edge 0 2 ∧ ReflTransGen circle.Edge 2 0) ∧
    ¬ (ReflTransGen circle.Edge 2 3 ∧ ReflTransGen circle.Edge 3 2) := by
  have heq : circle.components = #[some 1, some 1, some 1, some 0] := by cbv
  have hiff := (components_correct circle).2.2.2
  refine ⟨heq, (hiff 0 2 (by decide) (by decide)).mp (by rw [heq]; rfl), fun h => ?_⟩
  have hsame := (hiff 2 3 (by decide) (by decide)).mpr h
  rw [heq] at hsame
  cases hsame

/-- An edge is inside a component if and only if it is on a cycle. -/
theorem mem_innerEdges_iff :
    (v, w) ∈ g.innerEdges ↔ g.Edge v w ∧ ReflTransGen g.Edge w v := by
  rw [innerEdges, List.mem_filter, mem_edges]
  refine and_congr_right fun hedge => ?_
  obtain ⟨hidle, hclosed⟩ := search_spec g
  obtain ⟨i, hi⟩ := hclosed v hedge.1
  obtain ⟨j, hj⟩ := hclosed w hedge.2.1
  rw [decide_eq_true_eq, components_of_closed hi, components_of_closed hj, Option.some.injEq,
    Option.some.injEq, hidle.1.settled.eq_iff hi hj]
  exact ⟨fun h => h.2, fun h => ⟨.single hedge, h⟩⟩

end Graph

end DocTypes
