import DocTypes.Hierarchy.Components
import Mathlib.Logic.Relation
import Mathlib.Tactic

/-!
# What a search for components keeps to

`Graph.Edge` is the relation of a graph. `Search.Ordered g s` is what holds before and after each
step of a search `s` through `g`. The nodes on the stack stand in the order of their numbers, and
so do the nodes of the calls, which are on the stack (the callers). A caller reaches everything
above it on the stack. Everything on the stack reaches the node whose number is its low-link, and
a node that was left has a low-link below its own number: it reaches a node further down. That
low-link has gone to the caller it lies above.

So when a node is left with its own number as its low-link, nothing above it on the stack leads
below it. Whatever lies above it reaches further and further down until it reaches the node
itself (`Ordered.reaches_root`), and all other edges from there go to components that are closed
(`Ordered.edge_above`). The nodes that are taken off the stack are then a component.

## Main statements

* `Search.Ordered.step`: a step of the search keeps to all this.
-/

namespace DocTypes

open Relation

namespace Graph

variable {g : Graph}

/-- There is an edge between two nodes. -/
def Edge (g : Graph) (v w : Nat) : Prop := v < g.size ∧ w < g.size ∧ w ∈ g.targets v

theorem mem_edges {v w : Nat} : (v, w) ∈ g.edges ↔ g.Edge v w := by
  simp only [edges, List.mem_flatMap, List.mem_range, List.mem_map, List.mem_filter,
    decide_eq_true_eq, Prod.mk.injEq, Edge]
  constructor
  · rintro ⟨u, hu, x, ⟨hx, hlt⟩, rfl, rfl⟩
    exact ⟨hu, hlt, hx⟩
  · rintro ⟨hv, hw, hmem⟩
    exact ⟨v, hv, w, ⟨hmem, hw⟩, rfl, rfl⟩

end Graph

namespace Search

/-- The number of a node on the stack. -/
def index (s : Search) (v : Nat) : Nat :=
  match s.marks[v]? with
  | some (.waiting index _) => index
  | _ => 0

/-- The low-link of a node on the stack. -/
def low (s : Search) (v : Nat) : Nat :=
  match s.marks[v]? with
  | some (.waiting _ low) => low
  | _ => 0

/-- A node whose component is known. -/
def Closed (s : Search) (v component : Nat) : Prop := s.marks[v]? = some (.closed component)

/-- The nodes that were entered and not left. -/
def callers (s : Search) : List Nat := s.calls.map (·.1)

/-- What holds of the components that are closed. -/
structure Settled (g : Graph) (s : Search) : Prop where
  lt : ∀ v i, s.Closed v i → i < s.nextComponent
  /-- No edge leads from a component to one with a higher number. -/
  edge : ∀ v w i, s.Closed v i → g.Edge v w → ∃ j ≤ i, s.Closed w j
  reaches : ∀ v w i, s.Closed v i → s.Closed w i → ReflTransGen g.Edge v w

/-- What holds between the steps of a search. -/
structure Ordered (g : Graph) (s : Search) : Prop where
  size : s.marks.size = g.size
  mem_stack : ∀ v, v ∈ s.stack ↔ ∃ index low, s.marks[v]? = some (.waiting index low)
  stack_down : s.stack.Pairwise fun v w => s.index w < s.index v
  index_lt : ∀ v ∈ s.stack, s.index v < s.nextIndex
  called : ∀ v ∈ s.callers, v ∈ s.stack
  callers_down : s.callers.Pairwise fun v w => s.index w < s.index v
  calls_targets : ∀ call ∈ s.calls, ∀ w ∈ call.2, w ∈ g.targets call.1
  /-- Everything on the stack lies above a caller or is one. -/
  above : ∀ v ∈ s.stack, ∃ c ∈ s.callers, s.index c ≤ s.index v
  /-- A caller reaches everything above it. -/
  reaches : ∀ c ∈ s.callers, ∀ v ∈ s.stack, s.index c ≤ s.index v → ReflTransGen g.Edge c v
  /-- A low-link is the number of a node that can be reached. -/
  low_reached : ∀ v ∈ s.stack,
    s.low v ≤ s.index v ∧ ∃ w ∈ s.stack, s.index w = s.low v ∧ ReflTransGen g.Edge v w
  /-- A node that was left reaches further down. -/
  low_lt : ∀ v ∈ s.stack, v ∉ s.callers → s.low v < s.index v
  /-- The low-link of a node that was left has gone to the last caller below it. -/
  low_passed : ∀ c ∈ s.callers, ∀ v ∈ s.stack, s.index c < s.index v →
    (∀ d ∈ s.callers, s.index d ≤ s.index v → s.index d ≤ s.index c) → s.low c ≤ s.low v
  /-- The edges that were followed lead into closed components or to the stack, and then the
  low-link knows of it. -/
  followed : ∀ v ∈ s.stack, ∀ w, g.Edge v w →
    (∃ rest, (v, rest) ∈ s.calls ∧ w ∈ rest) ∨ (∃ i, s.Closed w i) ∨
      (w ∈ s.stack ∧ s.low v ≤ s.index w)
  settled : Settled g s

section

variable {s s' : Search} {v w i l : Nat}

theorem index_of_waiting (h : s.marks[v]? = some (.waiting i l)) : s.index v = i := by
  unfold index
  rw [h]

theorem low_of_waiting (h : s.marks[v]? = some (.waiting i l)) : s.low v = l := by
  unfold low
  rw [h]

theorem index_congr (h : s'.marks[v]? = s.marks[v]?) : s'.index v = s.index v := by
  unfold index
  rw [h]

theorem low_congr (h : s'.marks[v]? = s.marks[v]?) : s'.low v = s.low v := by
  unfold low
  rw [h]

theorem Settled.congr {g : Graph} (h : Settled g s) (hclosed : ∀ v i, s'.Closed v i ↔ s.Closed v i)
    (hnext : s'.nextComponent = s.nextComponent) : Settled g s' where
  lt v i hv := by
    rw [hnext]
    exact h.lt v i ((hclosed v i).mp hv)
  edge v w i hv hedge := by
    obtain ⟨j, hj, hw⟩ := h.edge v w i ((hclosed v i).mp hv) hedge
    exact ⟨j, hj, (hclosed w j).mpr hw⟩
  reaches v w i hv hw := h.reaches v w i ((hclosed v i).mp hv) ((hclosed w i).mp hw)

/-! ### Putting a low-link down -/

theorem marks_lower (s : Search) (v bound u : Nat) : (s.lower v bound).marks[u]? =
    if v = u then s.marks[u]?.map (Mark.lower bound) else s.marks[u]? :=
  Array.getElem?_modify

theorem index_lower (s : Search) (v bound u : Nat) : (s.lower v bound).index u = s.index u := by
  unfold index
  rw [marks_lower]
  by_cases hu : v = u
  · rw [if_pos hu]
    rcases s.marks[u]? with _ | _ | _ | _ <;> rfl
  · rw [if_neg hu]

theorem low_lower_self (s : Search) (v bound : Nat) :
    (s.lower v bound).low v = min (s.low v) bound := by
  unfold low
  rw [marks_lower, if_pos rfl]
  rcases s.marks[v]? with _ | _ | _ | _ <;> simp [Mark.lower]

theorem low_lower_of_ne (bound : Nat) {u : Nat} (hu : u ≠ v) :
    (s.lower v bound).low u = s.low u :=
  low_congr (by rw [marks_lower, if_neg hu.symm])

theorem low_lower_le (s : Search) (v bound u : Nat) : (s.lower v bound).low u ≤ s.low u := by
  by_cases hu : u = v
  · rw [hu, low_lower_self]
    exact Nat.min_le_left _ _
  · exact Nat.le_of_eq (low_lower_of_ne bound hu)

theorem closed_lower (s : Search) (v bound u i : Nat) :
    (s.lower v bound).Closed u i ↔ s.Closed u i := by
  unfold Closed
  rw [marks_lower]
  split
  · rcases s.marks[u]? with _ | _ | _ | _ <;> simp [Mark.lower]
  · rfl

theorem waiting_lower (s : Search) (v bound u : Nat) :
    (∃ i l, (s.lower v bound).marks[u]? = some (.waiting i l)) ↔
      ∃ i l, s.marks[u]? = some (.waiting i l) := by
  rw [marks_lower]
  split
  · rcases s.marks[u]? with _ | _ | _ | _ <;> simp [Mark.lower]
  · rfl

end

namespace Ordered

variable {g : Graph} {s : Search} {v w : Nat} {rest : List Nat} {calls : List (Nat × List Nat)}

/-! ## The stack and the callers -/

/-- Nodes on the stack that have one number are the same. -/
theorem eq_of_index_eq (h : Ordered g s) (hv : v ∈ s.stack) (hw : w ∈ s.stack)
    (hvw : s.index v = s.index w) : v = w := by
  have hdown : (s.stack.map s.index).Pairwise (· > ·) := List.pairwise_map.mpr h.stack_down
  have hnodup : (s.stack.map s.index).Nodup := hdown.imp fun hlt => Nat.ne_of_gt hlt
  exact List.inj_on_of_nodup_map hnodup hv hw hvw

theorem not_mem_of_unseen (h : Ordered g s) (hv : s.marks[v]? = some .unseen) : v ∉ s.stack := by
  intro hmem
  obtain ⟨i, l, hwait⟩ := (h.mem_stack v).mp hmem
  rw [hv] at hwait
  cases hwait

theorem not_mem_of_closed (h : Ordered g s) {i : Nat} (hv : s.Closed v i) : v ∉ s.stack := by
  intro hmem
  obtain ⟨j, l, hwait⟩ := (h.mem_stack v).mp hmem
  unfold Closed at hv
  rw [hv] at hwait
  cases hwait

theorem lt_size (h : Ordered g s) (hv : v ∈ s.stack) : v < g.size := by
  obtain ⟨i, l, hwait⟩ := (h.mem_stack v).mp hv
  rw [← h.size]
  exact (Array.getElem?_eq_some_iff.mp hwait).1

/-- The innermost caller lies above all others. -/
theorem index_le_innermost (h : Ordered g s) (hcalls : s.calls = (v, rest) :: calls)
    (hw : w ∈ s.callers) : w = v ∨ s.index w < s.index v := by
  have hcallers : s.callers = v :: calls.map (·.1) := by unfold callers; rw [hcalls]; rfl
  have hdown := h.callers_down
  rw [hcallers] at hw hdown
  cases hw with
  | head => exact .inl rfl
  | tail _ hw => exact .inr ((List.pairwise_cons.mp hdown).1 w hw)

theorem innermost_mem (hcalls : s.calls = (v, rest) :: calls) : v ∈ s.callers := by
  unfold callers
  rw [hcalls]
  exact List.mem_cons_self

/-- Every caller reaches the innermost one. -/
theorem reaches_innermost (h : Ordered g s) (hcalls : s.calls = (v, rest) :: calls)
    (hw : w ∈ s.callers) : ReflTransGen g.Edge w v := by
  apply h.reaches w hw v (h.called v (innermost_mem hcalls))
  rcases h.index_le_innermost hcalls hw with rfl | hlt
  · exact Nat.le_refl _
  · exact Nat.le_of_lt hlt

/-! ## Entering a node -/

/-- Entering an unseen node that every caller reaches. -/
theorem enter (h : Ordered g s) (hv : s.marks[v]? = some .unseen)
    (hreach : ∀ c ∈ s.callers, ReflTransGen g.Edge c v) : Ordered g (s.enter g v) := by
  have hlt : v < s.marks.size := (Array.getElem?_eq_some_iff.mp hv).1
  have hself : (s.enter g v).marks[v]? = some (.waiting s.nextIndex s.nextIndex) := by
    simp [Search.enter, hlt]
  have hother {w : Nat} (hw : w ≠ v) : (s.enter g v).marks[w]? = s.marks[w]? := by
    simp [Search.enter, Ne.symm hw]
  have hne {w : Nat} (hw : w ∈ s.stack) : w ≠ v := fun heq => h.not_mem_of_unseen hv (heq ▸ hw)
  have hindex {w : Nat} (hw : w ∈ s.stack) : (s.enter g v).index w = s.index w :=
    index_congr (hother (hne hw))
  have hlow {w : Nat} (hw : w ∈ s.stack) : (s.enter g v).low w = s.low w :=
    low_congr (hother (hne hw))
  have hvindex : (s.enter g v).index v = s.nextIndex := index_of_waiting hself
  have hvlow : (s.enter g v).low v = s.nextIndex := low_of_waiting hself
  have hclosed (w i : Nat) : (s.enter g v).Closed w i ↔ s.Closed w i := by
    unfold Closed
    by_cases hw : w = v
    · rw [hw, hself, hv]
      simp
    · rw [hother hw]
  constructor
  case size => simpa [Search.enter] using h.size
  case mem_stack =>
    intro w
    by_cases hw : w = v
    · rw [hw, hself]
      simp [Search.enter]
    · rw [hother hw, ← h.mem_stack w]
      simp [Search.enter, hw]
  case stack_down =>
    refine List.pairwise_cons.mpr ⟨fun w hw => ?_, h.stack_down.imp_of_mem fun hx hy hxy => ?_⟩
    · rw [hvindex, hindex hw]
      exact h.index_lt w hw
    · rw [hindex hx, hindex hy]
      exact hxy
  case index_lt =>
    intro w hw
    show _ < s.nextIndex + 1
    rcases List.mem_cons.mp hw with rfl | hw
    · rw [hvindex]
      omega
    · rw [hindex hw]
      have := h.index_lt w hw
      omega
  case called =>
    intro c hc
    rcases List.mem_cons.mp hc with rfl | hc
    · exact List.mem_cons_self
    · exact List.mem_cons_of_mem _ (h.called c hc)
  case callers_down =>
    refine List.pairwise_cons.mpr ⟨fun c hc => ?_, h.callers_down.imp_of_mem fun hx hy hxy => ?_⟩
    · rw [hvindex, hindex (h.called c hc)]
      exact h.index_lt c (h.called c hc)
    · rw [hindex (h.called _ hx), hindex (h.called _ hy)]
      exact hxy
  case calls_targets =>
    intro call hcall w hw
    rcases List.mem_cons.mp hcall with rfl | hcall
    · exact hw
    · exact h.calls_targets call hcall w hw
  case above =>
    intro w hw
    rcases List.mem_cons.mp hw with rfl | hw
    · exact ⟨w, List.mem_cons_self, Nat.le_refl _⟩
    · obtain ⟨c, hc, hle⟩ := h.above w hw
      refine ⟨c, List.mem_cons_of_mem _ hc, ?_⟩
      rw [hindex hw, hindex (h.called c hc)]
      exact hle
  case reaches =>
    intro c hc w hw hle
    rcases List.mem_cons.mp hw with rfl | hold
    · rcases List.mem_cons.mp hc with rfl | hcold
      · exact .refl
      · exact hreach c hcold
    · rw [hindex hold] at hle
      rcases List.mem_cons.mp hc with rfl | hcold
      · rw [hvindex] at hle
        have := h.index_lt w hold
        omega
      · rw [hindex (h.called c hcold)] at hle
        exact h.reaches c hcold w hold hle
  case low_reached =>
    intro w hw
    rcases List.mem_cons.mp hw with rfl | hw
    · rw [hvindex, hvlow]
      exact ⟨Nat.le_refl _, w, List.mem_cons_self, hvindex, .refl⟩
    · obtain ⟨hle, u, hu, heq, hpath⟩ := h.low_reached w hw
      rw [hindex hw, hlow hw]
      exact ⟨hle, u, List.mem_cons_of_mem _ hu, (hindex hu).trans heq, hpath⟩
  case low_lt =>
    intro w hw hout
    rcases List.mem_cons.mp hw with rfl | hw
    · exact absurd List.mem_cons_self hout
    · rw [hindex hw, hlow hw]
      exact h.low_lt w hw fun hc => hout (List.mem_cons_of_mem _ hc)
  case low_passed =>
    intro c hc w hw hlt hlast
    rcases List.mem_cons.mp hw with rfl | hold
    · -- The new node is a caller itself.
      have := hlast w List.mem_cons_self (Nat.le_refl _)
      omega
    · rw [hindex hold] at hlt
      rcases List.mem_cons.mp hc with rfl | hcold
      · rw [hvindex] at hlt
        have := h.index_lt w hold
        omega
      · have hcmem := h.called c hcold
        rw [hindex hcmem] at hlt
        rw [hlow hold, hlow hcmem]
        apply h.low_passed c hcold w hold hlt
        intro d hd hle
        have hcovers := hlast d (List.mem_cons_of_mem _ hd)
        rw [hindex hold, hindex hcmem, hindex (h.called d hd)] at hcovers
        exact hcovers hle
  case followed =>
    intro u hu w hedge
    rcases List.mem_cons.mp hu with rfl | hu
    · exact .inl ⟨g.targets u, List.mem_cons_self, hedge.2.2⟩
    · rcases h.followed u hu w hedge with ⟨rest, hrest, hw⟩ | ⟨i, hi⟩ | ⟨hw, hle⟩
      · exact .inl ⟨rest, List.mem_cons_of_mem _ hrest, hw⟩
      · exact .inr (.inl ⟨i, (hclosed w i).mpr hi⟩)
      · refine .inr (.inr ⟨List.mem_cons_of_mem _ hw, ?_⟩)
        rw [hlow hu, hindex hw]
        exact hle
  case settled => exact h.settled.congr hclosed rfl

/-! ## Low-links -/

/-- Putting the low-link of a caller down to the number of a node it reaches. -/
theorem lower (h : Ordered g s) (hv : v ∈ s.callers) (hw : w ∈ s.stack)
    (hreach : ReflTransGen g.Edge v w) : Ordered g (s.lower v (s.index w)) := by
  constructor
  case size => simpa [Search.lower] using h.size
  case mem_stack => exact fun u => (h.mem_stack u).trans (waiting_lower s v _ u).symm
  case stack_down => simp only [index_lower]; exact h.stack_down
  case index_lt => simp only [index_lower]; exact h.index_lt
  case called => exact h.called
  case callers_down => simp only [index_lower]; exact h.callers_down
  case calls_targets => exact h.calls_targets
  case above => simp only [index_lower]; exact h.above
  case reaches => simp only [index_lower]; exact h.reaches
  case low_reached =>
    intro u hu
    simp only [index_lower]
    obtain ⟨hle, x, hx, heq, hpath⟩ := h.low_reached u hu
    by_cases huv : u = v
    · subst huv
      rw [low_lower_self]
      refine ⟨by omega, ?_⟩
      by_cases hmin : s.low u ≤ s.index w
      · exact ⟨x, hx, by omega, hpath⟩
      · exact ⟨w, hw, by omega, hreach⟩
    · rw [low_lower_of_ne _ huv]
      exact ⟨hle, x, hx, heq, hpath⟩
  case low_lt =>
    intro u hu hout
    have hne : u ≠ v := fun heq => hout (heq ▸ hv)
    rw [index_lower, low_lower_of_ne _ hne]
    exact h.low_lt u hu hout
  case low_passed =>
    intro c hc u hu hlt hlast
    simp only [index_lower] at hlt hlast
    have hne : u ≠ v := by
      -- A caller lies above no other one than itself.
      intro heq
      have := hlast v hv (by rw [heq])
      rw [heq] at hlt
      omega
    rw [low_lower_of_ne _ hne]
    exact Nat.le_trans (low_lower_le s v _ c) (h.low_passed c hc u hu hlt hlast)
  case followed =>
    intro u hu x hedge
    rcases h.followed u hu x hedge with hcall | ⟨j, hj⟩ | ⟨hx, hle⟩
    · exact .inl hcall
    · exact .inr (.inl ⟨j, (closed_lower s v _ x j).mpr hj⟩)
    · refine .inr (.inr ⟨hx, ?_⟩)
      rw [index_lower]
      exact Nat.le_trans (low_lower_le s v _ u) hle
  case settled => exact h.settled.congr (closed_lower s v _) rfl

/-! ## Edges that were followed -/

/-- Taking an edge off a call, when what is needed of it is known. -/
theorem followEdge (h : Ordered g s) (inner : List (Nat × List Nat))
    (hcalls : s.calls = inner ++ (v, w :: rest) :: calls)
    (hknown : g.Edge v w → (∃ i, s.Closed w i) ∨ (w ∈ s.stack ∧ s.low v ≤ s.index w)) :
    Ordered g { s with calls := inner ++ (v, rest) :: calls } := by
  have hcallers : ({ s with calls := inner ++ (v, rest) :: calls } : Search).callers =
      s.callers := by
    unfold callers
    rw [hcalls]
    simp
  constructor
  case size => exact h.size
  case mem_stack => exact h.mem_stack
  case stack_down => exact h.stack_down
  case index_lt => exact h.index_lt
  case called => rw [hcallers]; exact h.called
  case callers_down => rw [hcallers]; exact h.callers_down
  case calls_targets =>
    intro call hcall x hx
    have hold := h.calls_targets
    rw [hcalls] at hold
    rcases List.mem_append.mp hcall with hmem | hmem
    · exact hold call (List.mem_append_left _ hmem) x hx
    · rcases List.mem_cons.mp hmem with rfl | hmem
      · exact hold (v, w :: rest) (List.mem_append_right _ List.mem_cons_self) x
          (List.mem_cons_of_mem _ hx)
      · exact hold call (List.mem_append_right _ (List.mem_cons_of_mem _ hmem)) x hx
  case above => rw [hcallers]; exact h.above
  case reaches => rw [hcallers]; exact h.reaches
  case low_reached => exact h.low_reached
  case low_lt => rw [hcallers]; exact h.low_lt
  case low_passed => rw [hcallers]; exact h.low_passed
  case followed =>
    intro u hu x hedge
    rcases h.followed u hu x hedge with ⟨left, hcall, hx⟩ | hknown
    · rw [hcalls] at hcall
      rcases List.mem_append.mp hcall with hmem | hmem
      · exact .inl ⟨left, List.mem_append_left _ hmem, hx⟩
      · rcases List.mem_cons.mp hmem with heq | hmem
        · obtain ⟨rfl, rfl⟩ := Prod.mk.inj heq
          rcases List.mem_cons.mp hx with rfl | hx
          · exact .inr (hknown hedge)
          · exact .inl ⟨rest, List.mem_append_right _ List.mem_cons_self, hx⟩
        · exact .inl ⟨left, List.mem_append_right _ (List.mem_cons_of_mem _ hmem), hx⟩
    · exact .inr hknown
  case settled => exact h.settled.congr (fun _ _ => Iff.rfl) rfl

/-! ## Leaving a node -/

/-- A caller other than the innermost one is a caller of the calls below. -/
theorem mem_outer (hcalls : s.calls = (v, rest) :: calls) (hw : w ∈ s.callers) (hwv : w ≠ v) :
    w ∈ calls.map (·.1) := by
  unfold callers at hw
  rw [hcalls] at hw
  cases hw with
  | head => exact absurd rfl hwv
  | tail _ hw => exact hw

theorem outer_mem (hcalls : s.calls = (v, rest) :: calls) (hw : w ∈ calls.map (·.1)) :
    w ∈ s.callers := by
  unfold callers
  rw [hcalls]
  exact List.mem_cons_of_mem _ hw

/-- The outer callers lie below the innermost one. -/
theorem outer_lt (h : Ordered g s) (hcalls : s.calls = (v, rest) :: calls)
    (hw : w ∈ calls.map (·.1)) : s.index w < s.index v := by
  have hdown := h.callers_down
  unfold callers at hdown
  rw [hcalls] at hdown
  exact (List.pairwise_cons.mp hdown).1 w hw

/-- An edge that was followed out of the calls below was followed out of all of them, once the
innermost call has no edges left. -/
theorem outer_call (hcalls : s.calls = (v, []) :: calls) {u x : Nat} {left : List Nat}
    (hcall : (u, left) ∈ s.calls) (hx : x ∈ left) : (u, left) ∈ calls := by
  rw [hcalls] at hcall
  cases hcall with
  | head => cases hx
  | tail _ hcall => exact hcall

/-- Leaving a node that reaches further down. -/
theorem leaveOpen (h : Ordered g s) (hcalls : s.calls = (v, []) :: calls)
    (hlt : s.low v < s.index v)
    (hpassed : ∀ c ∈ calls.map (·.1), (∀ d ∈ calls.map (·.1), s.index d ≤ s.index c) →
      s.low c ≤ s.low v) :
    Ordered g { s with calls } := by
  have hv : v ∈ s.stack := h.called v (innermost_mem hcalls)
  constructor
  case size => exact h.size
  case mem_stack => exact h.mem_stack
  case stack_down => exact h.stack_down
  case index_lt => exact h.index_lt
  case called => exact fun c hc => h.called c (outer_mem hcalls hc)
  case callers_down =>
    have hdown := h.callers_down
    unfold callers at hdown
    rw [hcalls] at hdown
    exact (List.pairwise_cons.mp hdown).2
  case calls_targets =>
    exact fun call hcall => h.calls_targets call (hcalls ▸ List.mem_cons_of_mem _ hcall)
  case above =>
    intro u hu
    obtain ⟨c, hc, hle⟩ := h.above u hu
    by_cases hcv : c = v
    · -- The node that `v` reaches lies above another caller, and that one lies below `v`.
      obtain ⟨-, x, hx, hxlow, -⟩ := h.low_reached v hv
      obtain ⟨d, hd, hdx⟩ := h.above x hx
      rw [hcv] at hle
      have hdv : d ≠ v := by
        intro heq
        rw [heq] at hdx
        omega
      exact ⟨d, mem_outer hcalls hd hdv, show s.index d ≤ s.index u by omega⟩
    · exact ⟨c, mem_outer hcalls hc hcv, hle⟩
  case reaches => exact fun c hc => h.reaches c (outer_mem hcalls hc)
  case low_reached => exact h.low_reached
  case low_lt =>
    intro u hu hout
    by_cases huv : u = v
    · rw [huv]
      exact hlt
    · exact h.low_lt u hu fun hc => hout (mem_outer hcalls hc huv)
  case low_passed =>
    intro c hc u hu hcu hlast
    show s.low c ≤ s.low u
    by_cases hvu : s.index v ≤ s.index u
    · -- The last caller below `u` was `v`, and now it is the one that `v` was entered from.
      have hlow : s.low v ≤ s.low u := by
        by_cases heq : u = v
        · rw [heq]
        · have hne : s.index v ≠ s.index u := fun hi => heq (h.eq_of_index_eq hv hu hi).symm
          apply h.low_passed v (innermost_mem hcalls) u hu (by omega)
          intro d hd _
          rcases h.index_le_innermost hcalls hd with rfl | hlt
          · exact Nat.le_refl _
          · exact Nat.le_of_lt hlt
      have hinnermost : ∀ d ∈ calls.map (·.1), s.index d ≤ s.index c := by
        intro d hd
        have := h.outer_lt hcalls hd
        exact hlast d hd (show s.index d ≤ s.index u by omega)
      exact Nat.le_trans (hpassed c hc hinnermost) hlow
    · apply h.low_passed c (outer_mem hcalls hc) u hu hcu
      intro d hd hdu
      apply hlast d _ hdu
      apply mem_outer hcalls hd
      intro heq
      rw [heq] at hdu
      exact hvu hdu
  case followed =>
    intro u hu x hedge
    rcases h.followed u hu x hedge with ⟨left, hcall, hx⟩ | hknown
    · exact .inl ⟨left, outer_call hcalls hcall hx, hx⟩
    · exact .inr hknown
  case settled => exact h.settled.congr (fun _ _ => Iff.rfl) rfl

/-! ## Closing a component -/

section

variable (h : Ordered g s) (hcalls : s.calls = (v, []) :: calls) (hroot : s.low v = s.index v)
include h hcalls hroot

/-- What lies above the innermost caller was left, and its low-link does not go below. -/
theorem low_above {u : Nat} (hu : u ∈ s.stack) (huv : s.index v ≤ s.index u) :
    s.index v ≤ s.low u := by
  have hv : v ∈ s.stack := h.called v (innermost_mem hcalls)
  by_cases heq : u = v
  · rw [heq, hroot]
  · have hne : s.index v ≠ s.index u := fun hi => heq (h.eq_of_index_eq hv hu hi).symm
    rw [← hroot]
    apply h.low_passed v (innermost_mem hcalls) u hu (by omega)
    intro d hd _
    rcases h.index_le_innermost hcalls hd with rfl | hlt
    · exact Nat.le_refl _
    · exact Nat.le_of_lt hlt

/-- What lies above a node that reaches nothing below reaches that node. -/
theorem reaches_root {u : Nat} (hu : u ∈ s.stack) (huv : s.index v ≤ s.index u) :
    ReflTransGen g.Edge u v := by
  have hv : v ∈ s.stack := h.called v (innermost_mem hcalls)
  induction hn : s.index u using Nat.strong_induction_on generalizing u with
  | _ n ih =>
    by_cases heq : u = v
    · rw [heq]
    · have hne : s.index v ≠ s.index u := fun hi => heq (h.eq_of_index_eq hv hu hi).symm
      have hout : u ∉ s.callers := by
        intro hc
        rcases h.index_le_innermost hcalls hc with rfl | hlt
        · exact heq rfl
        · omega
      obtain ⟨-, x, hx, hxlow, hpath⟩ := h.low_reached u hu
      have hlt := h.low_lt u hu hout
      have hge := h.low_above hcalls hroot hu huv
      exact hpath.trans (ih (s.index x) (by omega) hx (by omega) rfl)

/-- The edges of what lies above such a node stay above it or lead to closed components. -/
theorem edge_above {u x : Nat} (hu : u ∈ s.stack) (huv : s.index v ≤ s.index u)
    (hedge : g.Edge u x) : (∃ i, s.Closed x i) ∨ (x ∈ s.stack ∧ s.index v ≤ s.index x) := by
  rcases h.followed u hu x hedge with ⟨left, hcall, hx⟩ | hclosed | ⟨hx, hle⟩
  · -- Every call below is one of a node further down.
    have hmem := outer_call hcalls hcall hx
    have hlt := h.outer_lt hcalls (List.mem_map.mpr ⟨_, hmem, rfl⟩)
    exact absurd huv (Nat.not_le_of_lt hlt)
  · exact .inl hclosed
  · have hge := h.low_above hcalls hroot hu huv
    exact .inr ⟨hx, by omega⟩

end

end Ordered

/-- What is taken off the stack, and what is left. -/
theorem closeThrough_eq (component : Nat) {v : Nat} (above below : List Nat) (marks : Array Mark)
    (hv : v ∉ above) :
    (closeThrough component v (above ++ v :: below) marks).1 = below ∧
    (closeThrough component v (above ++ v :: below) marks).2.size = marks.size ∧
    ∀ w : Nat, (closeThrough component v (above ++ v :: below) marks).2[w]? =
      if w ∈ above ∨ w = v then marks[w]?.map fun _ => .closed component else marks[w]? := by
  have hset (u w : Nat) (marks : Array Mark) : (marks.setIfInBounds u (.closed component))[w]? =
      if w = u then marks[w]?.map fun _ => .closed component else marks[w]? := by
    by_cases hwu : w = u
    · subst hwu
      by_cases hlt : w < marks.size
      · simp [hlt]
      · simp [hlt]
    · simp [hwu, Ne.symm hwu]
  induction above generalizing marks with
  | nil =>
    unfold closeThrough
    simp [hset]
  | cons u above ih =>
    rw [List.mem_cons, not_or] at hv
    obtain ⟨hstack, hsize, hmarks⟩ := ih (marks.setIfInBounds u (.closed component)) hv.2
    unfold closeThrough
    simp only [List.cons_append, Ne.symm hv.1, if_false]
    refine ⟨hstack, by rw [hsize, Array.size_setIfInBounds], fun w => ?_⟩
    rw [hmarks w, hset u w]
    by_cases hwu : w = u
    · cases marks[w]? <;> simp [hwu]
    · simp only [hwu, List.mem_cons, false_or, if_false]

namespace Ordered

variable {g : Graph} {s : Search} {v w : Nat} {rest : List Nat} {calls : List (Nat × List Nat)}

/-- Closing a node takes off the stack what does not lie below it, and marks just that. -/
theorem close_spec (h : Ordered g s) (hv : v ∈ s.stack) :
    (s.close v).stack.Sublist s.stack ∧
    (∀ x, x ∈ (s.close v).stack ↔ x ∈ s.stack ∧ s.index x < s.index v) ∧
    (s.close v).marks.size = s.marks.size ∧
    (∀ x ∈ s.stack, s.index v ≤ s.index x → (s.close v).Closed x s.nextComponent) ∧
    ∀ x, ¬ (x ∈ s.stack ∧ s.index v ≤ s.index x) → (s.close v).marks[x]? = s.marks[x]? := by
  obtain ⟨upper, below, hstack, hout⟩ := List.eq_append_cons_of_mem hv
  obtain ⟨hleft, hsize, hmarks⟩ :=
    closeThrough_eq s.nextComponent upper below s.marks hout
  have hdown := h.stack_down
  rw [hstack, List.pairwise_append, List.pairwise_cons] at hdown
  obtain ⟨-, ⟨hbelow, -⟩, hupper⟩ := hdown
  rw [← hstack] at hleft hsize hmarks
  have htaken (x : Nat) : x ∈ upper ∨ x = v ↔ x ∈ s.stack ∧ s.index v ≤ s.index x := by
    rw [hstack, List.mem_append, List.mem_cons]
    constructor
    · rintro (hx | rfl)
      · exact ⟨.inl hx, Nat.le_of_lt (hupper x hx v List.mem_cons_self)⟩
      · exact ⟨.inr (.inl rfl), Nat.le_refl _⟩
    · rintro ⟨hx | rfl | hx, hle⟩
      · exact .inl hx
      · exact .inr rfl
      · have := hbelow x hx
        omega
  refine ⟨?_, fun x => ?_, hsize, fun x hx hle => ?_, fun x hx => ?_⟩
  · show (closeThrough _ v s.stack s.marks).1.Sublist s.stack
    rw [hleft, hstack]
    exact (List.sublist_cons_self v below).trans (List.sublist_append_right upper _)
  · show x ∈ (closeThrough _ v s.stack s.marks).1 ↔ _
    rw [hleft, hstack, List.mem_append, List.mem_cons]
    constructor
    · intro hx
      exact ⟨.inr (.inr hx), hbelow x hx⟩
    · rintro ⟨hx | rfl | hx, hlt⟩
      · have := hupper x hx v List.mem_cons_self
        omega
      · omega
      · exact hx
  · obtain ⟨i, l, hwait⟩ := (h.mem_stack x).mp hx
    show (closeThrough _ v s.stack s.marks).2[x]? = _
    rw [hmarks x, if_pos ((htaken x).mpr ⟨hx, hle⟩), hwait]
    rfl
  · show (closeThrough _ v s.stack s.marks).2[x]? = _
    rw [hmarks x, if_neg fun htake => hx ((htaken x).mp htake)]

/-- Leaving a node that reaches nothing further down closes its component. -/
theorem leaveClosed (h : Ordered g s) (hcalls : s.calls = (v, []) :: calls)
    (hroot : s.low v = s.index v) : Ordered g (({ s with calls } : Search).close v) := by
  have hv : v ∈ s.stack := h.called v (innermost_mem hcalls)
  obtain ⟨hsub, hmem, hsize, htaken, hkept⟩ := h.close_spec hv
  have hbelow {x : Nat} (hx : x ∈ (s.close v).stack) :
      (s.close v).marks[x]? = s.marks[x]? := by
    apply hkept
    intro ⟨_, hle⟩
    have := ((hmem x).mp hx).2
    omega
  have hindex {x : Nat} (hx : x ∈ (s.close v).stack) : (s.close v).index x = s.index x :=
    index_congr (hbelow hx)
  have hlow {x : Nat} (hx : x ∈ (s.close v).stack) : (s.close v).low x = s.low x :=
    low_congr (hbelow hx)
  have houter {c : Nat} (hc : c ∈ calls.map (·.1)) : c ∈ (s.close v).stack :=
    (hmem c).mpr ⟨h.called c (outer_mem hcalls hc), h.outer_lt hcalls hc⟩
  have hsettled {x i : Nat} (hx : s.Closed x i) : (s.close v).Closed x i := by
    unfold Closed
    rw [hkept x fun ⟨hstack, _⟩ => h.not_mem_of_closed hx hstack]
    exact hx
  -- A node that is closed now was closed before, or it was taken off the stack.
  have hclosed {x i : Nat} (hx : (s.close v).Closed x i) :
      s.Closed x i ∨ (i = s.nextComponent ∧ x ∈ s.stack ∧ s.index v ≤ s.index x) := by
    by_cases htake : x ∈ s.stack ∧ s.index v ≤ s.index x
    · have hnow := htaken x htake.1 htake.2
      unfold Closed at hx hnow
      rw [hnow] at hx
      cases hx
      exact .inr ⟨rfl, htake⟩
    · unfold Closed at hx
      rw [hkept x htake] at hx
      exact .inl hx
  show Ordered g { s.close v with calls }
  constructor
  case size => exact hsize.trans h.size
  case mem_stack =>
    intro x
    by_cases htake : x ∈ s.stack ∧ s.index v ≤ s.index x
    · have hnow := htaken x htake.1 htake.2
      unfold Closed at hnow
      constructor
      · intro hx
        have := ((hmem x).mp hx).2
        omega
      · rintro ⟨i, l, hwait⟩
        rw [hnow] at hwait
        cases hwait
    · show x ∈ (s.close v).stack ↔ ∃ i l, (s.close v).marks[x]? = _
      rw [hkept x htake, ← h.mem_stack x, hmem x]
      constructor
      · exact fun hx => hx.1
      · intro hx
        exact ⟨hx, Nat.lt_of_not_le fun hle => htake ⟨hx, hle⟩⟩
  case stack_down =>
    refine (h.stack_down.sublist hsub).imp_of_mem fun hx hy hxy => ?_
    show (s.close v).index _ < (s.close v).index _
    rw [hindex hx, hindex hy]
    exact hxy
  case index_lt =>
    intro x hx
    show (s.close v).index x < s.nextIndex
    rw [hindex hx]
    exact h.index_lt x (hsub.subset hx)
  case called => exact fun c hc => houter hc
  case callers_down =>
    have hdown := h.callers_down
    unfold callers at hdown
    rw [hcalls] at hdown
    refine (List.pairwise_cons.mp hdown).2.imp_of_mem fun hx hy hxy => ?_
    show (s.close v).index _ < (s.close v).index _
    rw [hindex (houter hx), hindex (houter hy)]
    exact hxy
  case calls_targets =>
    exact fun call hcall => h.calls_targets call (hcalls ▸ List.mem_cons_of_mem _ hcall)
  case above =>
    intro x hx
    obtain ⟨hold, hlt⟩ := (hmem x).mp hx
    obtain ⟨c, hc, hle⟩ := h.above x hold
    have hcv : c ≠ v := by
      intro heq
      rw [heq] at hle
      omega
    have hout := mem_outer hcalls hc hcv
    refine ⟨c, hout, ?_⟩
    show (s.close v).index c ≤ (s.close v).index x
    rw [hindex hx, hindex (houter hout)]
    exact hle
  case reaches =>
    intro c hc x hx hle
    change (s.close v).index c ≤ (s.close v).index x at hle
    rw [hindex hx, hindex (houter hc)] at hle
    exact h.reaches c (outer_mem hcalls hc) x (hsub.subset hx) hle
  case low_reached =>
    intro x hx
    obtain ⟨hold, hlt⟩ := (hmem x).mp hx
    obtain ⟨hle, y, hy, heq, hpath⟩ := h.low_reached x hold
    have hleft : y ∈ (s.close v).stack := (hmem y).mpr ⟨hy, by omega⟩
    show (s.close v).low x ≤ (s.close v).index x ∧
      ∃ w ∈ (s.close v).stack, (s.close v).index w = (s.close v).low x ∧ _
    rw [hindex hx, hlow hx]
    exact ⟨hle, y, hleft, (hindex hleft).trans heq, hpath⟩
  case low_lt =>
    intro x hx hout
    obtain ⟨hold, hlt⟩ := (hmem x).mp hx
    show (s.close v).low x < (s.close v).index x
    rw [hindex hx, hlow hx]
    apply h.low_lt x hold
    intro hc
    apply hout
    apply mem_outer hcalls hc
    intro heq
    rw [heq] at hlt
    omega
  case low_passed =>
    intro c hc x hx hcx hlast
    obtain ⟨hold, hlt⟩ := (hmem x).mp hx
    change (s.close v).index c < (s.close v).index x at hcx
    show (s.close v).low c ≤ (s.close v).low x
    rw [hindex hx, hindex (houter hc)] at hcx
    rw [hlow hx, hlow (houter hc)]
    apply h.low_passed c (outer_mem hcalls hc) x hold hcx
    intro d hd hdx
    have hdv : d ≠ v := by
      intro heq
      rw [heq] at hdx
      omega
    have hout := mem_outer hcalls hd hdv
    have hcovers : (s.close v).index d ≤ (s.close v).index x →
      (s.close v).index d ≤ (s.close v).index c := hlast d hout
    rw [hindex hx, hindex (houter hc), hindex (houter hout)] at hcovers
    exact hcovers hdx
  case followed =>
    intro u hu x hedge
    rcases h.followed u (hsub.subset hu) x hedge with ⟨left, hcall, hx⟩ | ⟨i, hi⟩ | ⟨hx, hle⟩
    · exact .inl ⟨left, outer_call hcalls hcall hx, hx⟩
    · exact .inr (.inl ⟨i, hsettled hi⟩)
    · by_cases htake : s.index v ≤ s.index x
      · exact .inr (.inl ⟨s.nextComponent, htaken x hx htake⟩)
      · have hleft : x ∈ (s.close v).stack := (hmem x).mpr ⟨hx, by omega⟩
        refine .inr (.inr ⟨hleft, ?_⟩)
        show (s.close v).low u ≤ (s.close v).index x
        rw [hlow hu, hindex hleft]
        exact hle
  case settled =>
    constructor
    case lt =>
      intro x i hx
      show i < s.nextComponent + 1
      rcases hclosed hx with hold | ⟨rfl, -⟩
      · have := h.settled.lt x i hold
        omega
      · omega
    case edge =>
      intro u x i hu hedge
      rcases hclosed hu with hold | ⟨rfl, hstack, hle⟩
      · obtain ⟨j, hj, hx⟩ := h.settled.edge u x i hold hedge
        exact ⟨j, hj, hsettled hx⟩
      · rcases h.edge_above hcalls hroot hstack hle hedge with ⟨j, hj⟩ | ⟨hx, hxle⟩
        · exact ⟨j, Nat.le_of_lt (h.settled.lt x j hj), hsettled hj⟩
        · exact ⟨s.nextComponent, Nat.le_refl _, htaken x hx hxle⟩
    case reaches =>
      intro u x i hu hx
      rcases hclosed hu with huold | ⟨rfl, hustack, hule⟩
      · rcases hclosed hx with hxold | ⟨rfl, -⟩
        · exact h.settled.reaches u x i huold hxold
        · exact absurd (h.settled.lt u _ huold) (Nat.lt_irrefl _)
      · rcases hclosed hx with hxold | ⟨-, hxstack, hxle⟩
        · exact absurd (h.settled.lt x _ hxold) (Nat.lt_irrefl _)
        · exact (h.reaches_root hcalls hroot hustack hule).trans
            (h.reaches v (innermost_mem hcalls) x hxstack hxle)

/-! ## Steps -/

/-- Following an edge of the innermost call. -/
theorem follow (h : Ordered g s) (hcalls : s.calls = (v, w :: rest) :: calls) :
    Ordered g (({ s with calls := (v, rest) :: calls } : Search).follow g v w) := by
  have hv : v ∈ s.stack := h.called v (innermost_mem hcalls)
  have htarget : w ∈ g.targets v :=
    h.calls_targets (v, w :: rest) (hcalls ▸ List.mem_cons_self) w List.mem_cons_self
  have hedge (hw : w < s.marks.size) : g.Edge v w := ⟨h.lt_size hv, h.size ▸ hw, htarget⟩
  unfold Search.follow
  split
  case h_1 hmark =>
    change s.marks[w]? = _ at hmark
    have hlt : w < s.marks.size := (Array.getElem?_eq_some_iff.mp hmark).1
    have henter : Ordered g (s.enter g w) := by
      apply h.enter hmark
      intro c hc
      exact (h.reaches_innermost hcalls hc).tail (hedge hlt)
    have hafter : (s.enter g w).calls = [(w, g.targets w)] ++ (v, w :: rest) :: calls := by
      show _ :: s.calls = _
      rw [hcalls]
      rfl
    refine henter.followEdge [_] hafter fun _ => .inr ⟨List.mem_cons_self, ?_⟩
    have hne : v ≠ w := fun heq => h.not_mem_of_unseen hmark (heq ▸ hv)
    have hsame : (s.enter g w).marks[v]? = s.marks[v]? := by simp [Search.enter, hne.symm]
    have hself : (s.enter g w).marks[w]? = some (.waiting s.nextIndex s.nextIndex) := by
      simp [Search.enter, hlt]
    rw [low_congr hsame, index_of_waiting hself]
    have := (h.low_reached v hv).1
    have := h.index_lt v hv
    omega
  case h_2 i l hmark =>
    change s.marks[w]? = _ at hmark
    have hw : w ∈ s.stack := (h.mem_stack w).mpr ⟨i, l, hmark⟩
    have hlt : w < s.marks.size := (Array.getElem?_eq_some_iff.mp hmark).1
    rw [← index_of_waiting hmark]
    have hlower : Ordered g (s.lower v (s.index w)) :=
      h.lower (innermost_mem hcalls) hw (.single (hedge hlt))
    refine hlower.followEdge [] (w := w) hcalls fun _ => .inr ⟨hw, ?_⟩
    rw [low_lower_self, index_lower]
    exact Nat.min_le_right _ _
  case h_3 hunseen hwaiting =>
    refine h.followEdge [] hcalls fun hedge => .inl ?_
    have hlt : w < s.marks.size := h.size ▸ hedge.2.1
    obtain ⟨mark, hmark⟩ : ∃ mark, s.marks[w]? = some mark := ⟨_, Array.getElem?_eq_getElem hlt⟩
    cases mark with
    | unseen => exact absurd hmark hunseen
    | waiting i l => exact absurd hmark (hwaiting i l)
    | closed i => exact ⟨i, hmark⟩

/-- Handing the low-link of the innermost caller on to the one that entered it. -/
theorem lowerCaller (h : Ordered g s) (hcalls : s.calls = (v, []) :: calls) :
    ∃ s' : Search, ({ s with calls } : Search).lowerCaller (s.low v) = { s' with calls } ∧
      Ordered g s' ∧ s'.calls = (v, []) :: calls ∧ s'.index v = s.index v ∧ s'.low v = s.low v ∧
      ∀ c ∈ calls.map (·.1), (∀ d ∈ calls.map (·.1), s'.index d ≤ s'.index c) →
        s'.low c ≤ s'.low v := by
  cases hcs : calls with
  | nil => exact ⟨s, rfl, h, hcs ▸ hcalls, rfl, rfl, by simp⟩
  | cons outer more =>
    obtain ⟨c, left⟩ := outer
    have hout : c ∈ calls.map (·.1) := by rw [hcs]; exact List.mem_cons_self
    have hc : c ∈ s.callers := outer_mem hcalls hout
    have hlt : s.index c < s.index v := h.outer_lt hcalls hout
    have hcv : v ≠ c := fun heq => Nat.lt_irrefl _ (heq ▸ hlt)
    obtain ⟨-, x, hx, hxlow, hpath⟩ := h.low_reached v (h.called v (innermost_mem hcalls))
    have hlower : Ordered g (s.lower c (s.low v)) :=
      hxlow ▸ h.lower hc hx ((h.reaches_innermost hcalls hc).trans hpath)
    refine ⟨s.lower c (s.low v), rfl, hlower, hcs ▸ hcalls, index_lower s c _ v,
      low_lower_of_ne _ hcv, ?_⟩
    intro d hd hinnermost
    -- The innermost caller but one is the one that was lowered.
    have hdc : d = c := by
      have hle := hinnermost c List.mem_cons_self
      rw [index_lower, index_lower] at hle
      have hdown := h.callers_down
      unfold callers at hdown
      rw [hcalls, hcs] at hdown
      have hbelow := (List.pairwise_cons.mp (List.pairwise_cons.mp hdown).2).1
      cases hd with
      | head => rfl
      | tail _ hd => exact absurd hle (Nat.not_le_of_lt (hbelow d hd))
    rw [hdc, low_lower_self, low_lower_of_ne _ hcv]
    exact Nat.min_le_right _ _

/-- Leaving a node whose call is over. -/
theorem leave (h : Ordered g s) (hcalls : s.calls = (v, []) :: calls) :
    Ordered g (({ s with calls } : Search).leave v) := by
  have hv : v ∈ s.stack := h.called v (innermost_mem hcalls)
  obtain ⟨i, l, hmark⟩ := (h.mem_stack v).mp hv
  have hindex : s.index v = i := index_of_waiting hmark
  have hlow : s.low v = l := low_of_waiting hmark
  obtain ⟨s', hs', hordered, hcalls', hindex', hlow', hpassed⟩ := h.lowerCaller hcalls
  have hle := (hordered.low_reached v (hordered.called v (innermost_mem hcalls'))).1
  rw [hlow] at hs' hlow'
  rw [hindex] at hindex'
  unfold Search.leave
  simp only [hmark]
  by_cases hli : l = i
  · rw [if_pos hli, hs']
    exact hordered.leaveClosed hcalls' (by omega)
  · rw [if_neg hli, hs']
    exact hordered.leaveOpen hcalls' (by omega) hpassed

/-- A step of a search. -/
theorem step (h : Ordered g s) : Ordered g (s.step g) := by
  unfold Search.step
  split
  · exact h
  · exact h.follow ‹_›
  · exact h.leave ‹_›

end Ordered

end Search

end DocTypes
