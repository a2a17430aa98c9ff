import DocTypes.Analysis.Run
import DocTypes.Proofs.Lifecycle.Exits
import DocTypes.Proofs.Lifecycle.Visits
import Mathlib.Logic.Relation

/-!
# The life of a scope

The walk is a stack machine: it takes the next piece of work from a stack, does it and puts the
work that follows on top (`Moment.next?`). `Binder.run` is what the machine computes. At every
moment the requests to close a scope on the stack are as many as the scopes on the chain of the
current one, and each of them closes its scope when its turn comes. When the machine stops every
scope is closed, and each name that was ever parked is done with.

## Main statements

* `Moment.perform_on`: a piece of work, with all that follows from it.
* `Moment.Held.step`: what holds at every moment.
* `Moment.History.conserves`: where the names are that were parked.
* `Analysis.walk_lifecycle`: the whole walk.
-/

namespace DocTypes

open Relation

/-- The scope inside the current one was opened, and is closed again. -/
theorem Binder.On.of_inner {c s : ScopeId} {cs : List ScopeId} {b b' : Binder} (hb : b.On c cs)
    (h : (∃ o rest, s :: cs = s :: rest ∧ b'.On o rest) ∨ (s :: cs = [s] ∧ b'.Finished)) :
    b'.On c cs := by
  have hcs : cs = c :: ((b.analysis.scopes.outer? c).map b.analysis.scopes.chain).getD [] := by
    rw [← hb.chain, ScopeTree.chain_eq hb.nested]
  rcases h with ⟨o, rest, heq, hon⟩ | ⟨heq, -⟩
  · obtain rfl : cs = rest := (List.cons.inj heq).2
    have hhead : cs.head? = some o := hon.chain ▸ ScopeTree.head?_chain _ o
    rw [hcs, List.head?_cons] at hhead
    exact Option.some.inj hhead ▸ hon
  · rw [hcs] at heq
    cases (List.cons.inj heq).2

/-- A moment of the walk: the work that is left, next first, and the state. -/
structure Moment where
  works : List Work
  state : Binder

namespace Moment

/-- One piece of work. It gives the work that follows. -/
def act (a : Arena) (reportUndefined : Bool) : Work → Bind (List Work)
  | .exitScope => do
    Binder.exitScope a reportUndefined
    return []
  | .typeNames document => do
    Binder.visitTypeNames a document
    return []
  | .visit n => Binder.visit a n

/-- The next moment, if there is work left. -/
def next? (a : Arena) (reportUndefined : Bool) (m : Moment) : Option Moment :=
  match m.works with
  | [] => none
  | work :: rest =>
    let (works, state) := act a reportUndefined work m.state
    some ⟨works ++ rest, state⟩

/-- One step of the machine. -/
def Step (a : Arena) (reportUndefined : Bool) (m m' : Moment) : Prop :=
  m.next? a reportUndefined = some m'

/-- The scopes that are still to be closed, from the inside out. -/
def chain (m : Moment) : List ScopeId :=
  if m.works.isEmpty then [] else m.state.analysis.scopes.chain m.state.current

/-- The names whose next scope is to be closed now, and that are done with then. -/
def settles (reportUndefined : Bool) (m : Moment) : List (Parked × Outcome) :=
  match m.works with
  | .exitScope :: _ => m.state.settles reportUndefined
  | _ => []

/-- The names that are parked for the first time between two moments. -/
def parks (m m' : Moment) : List Parked :=
  match m.works with
  | .exitScope :: _ => []
  | _ => m'.state.waiting.diff m.state.waiting

/-- A run of the machine up to a moment, with the names that were parked until then and those
that were done with. -/
inductive History (a : Arena) (reportUndefined : Bool) (start : Moment) :
    Moment → List Parked → List (Parked × Outcome) → Prop
  | start : History a reportUndefined start start start.state.waiting []
  | step {m m' : Moment} {parked : List Parked} {settled : List (Parked × Outcome)}
      (h : History a reportUndefined start m parked settled)
      (hstep : m.Step a reportUndefined m') :
    History a reportUndefined start m' (parked ++ m.parks m') (settled ++ m.settles reportUndefined)

/-- How the scopes stand at a moment. -/
structure Orderly (m : Moment) : Prop where
  /-- A scope is younger than the one around it. -/
  nested : ∀ s o, m.state.analysis.scopes.outer? s = some o → o.index < s.index
  /-- There is one request to close a scope for each scope on the chain. -/
  exits : m.works.count .exitScope = m.chain.length
  /-- The scopes on the chain are open. -/
  opened : ∀ s scope, m.state.analysis.scopes.get? s = some scope → s ∈ m.chain →
    scope.state = .opened
  /-- All others are closed, and nothing is parked in them. -/
  closed : ∀ s scope, m.state.analysis.scopes.get? s = some scope → s ∉ m.chain →
    scope.state = .closed ∧ scope.parked = #[]

variable {a : Arena} {reportUndefined : Bool} {c : ScopeId} {cs : List ScopeId} {m m' : Moment}

variable (a reportUndefined) in
theorem step_cons (work : Work) (rest : List Work) (b : Binder) :
    Step a reportUndefined ⟨work :: rest, b⟩
      ⟨(act a reportUndefined work b).1 ++ rest, (act a reportUndefined work b).2⟩ := rfl

theorem step_cons_eq {work : Work} {rest : List Work} {b : Binder}
    (h : Step a reportUndefined ⟨work :: rest, b⟩ m') :
    m' = ⟨(act a reportUndefined work b).1 ++ rest, (act a reportUndefined work b).2⟩ :=
  (Option.some.inj h).symm

/-- A list of work, where each piece leaves the walk where it is. -/
theorem forM_on {f : Work → Bind Unit} {works : List Work}
    (h : ∀ work ∈ works, ∀ b : Binder, b.On c cs → ∀ rest,
      ReflTransGen (Step a reportUndefined) ⟨work :: rest, b⟩ ⟨rest, (f work b).2⟩ ∧
        (f work b).2.On c cs)
    {b : Binder} (hb : b.On c cs) (rest : List Work) :
    ReflTransGen (Step a reportUndefined) ⟨works ++ rest, b⟩ ⟨rest, (works.forM f b).2⟩ ∧
      (works.forM f b).2.On c cs := by
  induction works generalizing b with
  | nil => exact ⟨.refl, hb⟩
  | cons work works ih =>
    obtain ⟨hsteps, hon⟩ := h work List.mem_cons_self b hb (works ++ rest)
    obtain ⟨hsteps', hon'⟩ := ih (fun w hw => h w (List.mem_cons_of_mem _ hw)) hon
    exact ⟨hsteps.trans hsteps', hon'⟩

variable (a reportUndefined) in
/-- Work that closes no scope leaves the walk where it is. -/
theorem perform_on {work : Work} (hwork : work ≠ .exitScope) {c : ScopeId} {cs : List ScopeId}
    {b : Binder} (hb : b.On c cs) (rest : List Work) :
    ReflTransGen (Step a reportUndefined) ⟨work :: rest, b⟩
        ⟨rest, (Binder.perform a reportUndefined work b).2⟩ ∧
      (Binder.perform a reportUndefined work b).2.On c cs := by
  match work with
  | .exitScope => exact absurd rfl hwork
  | .typeNames document =>
    rw [Binder.perform]
    refine ⟨.single (step_cons a reportUndefined (.typeNames document) rest b), ?_⟩
    exact (Binder.visitTypeNames_stays document b hb).1
  | .visit n =>
    rw [Binder.perform, run_bind]
    let perform (next : Work) : Bind Unit :=
      if _h : next.rank < n + 1 then Binder.perform a reportUndefined next else pure ()
    -- the work that follows and closes no scope
    have hbelow (works : List Work) (hworks : Below n works) {c : ScopeId} {cs : List ScopeId}
        {b : Binder} (hb : b.On c cs) (rest : List Work) :
        ReflTransGen (Step a reportUndefined) ⟨works ++ rest, b⟩ ⟨rest, (works.forM perform b).2⟩ ∧
          (works.forM perform b).2.On c cs := by
      refine forM_on (fun next hnext b hb rest => ?_) hb rest
      obtain ⟨hne, hlt⟩ := hworks next hnext
      have hperform : perform next = Binder.perform a reportUndefined next := dif_pos hlt
      rw [hperform]
      exact perform_on hne hb rest
    have hfirst : Step a reportUndefined ⟨.visit n :: rest, b⟩
        ⟨(Binder.visit a n b).1 ++ rest, (Binder.visit a n b).2⟩ :=
          step_cons a reportUndefined (.visit n) rest b
    obtain ⟨-, ⟨hon, -, hworks⟩ | ⟨s, hon, -, works, hworks, heq⟩⟩ := Binder.visit_opens n b hb
    · obtain ⟨hsteps, hdone⟩ := hbelow _ hworks hon rest
      exact ⟨.head hfirst hsteps, hdone⟩
    · -- the scope that was opened is closed last
      obtain ⟨hsteps, hdone⟩ := hbelow works hworks hon (.exitScope :: rest)
      have hrun : ((works ++ [Work.exitScope]).forM perform (Binder.visit a n b).2).2 =
          (Binder.exitScope a reportUndefined (works.forM perform (Binder.visit a n b).2).2).2 := by
        have hexit : perform .exitScope = Binder.exitScope a reportUndefined := by
          rw [← Binder.perform]
          exact dif_pos (Nat.succ_pos n)
        rw [run_forM_append, ← hexit]
        rfl
      rw [heq, List.append_assoc] at hfirst
      rw [heq, hrun]
      exact ⟨.head hfirst (hsteps.tail (step_cons a reportUndefined .exitScope rest _)),
        hb.of_inner (hdone.exitScope a reportUndefined)⟩
termination_by work.rank
decreasing_by assumption

/-! ## What one step does -/

variable (a reportUndefined) in
/-- A step that closes no scope adds a request to close one for each scope that it opens. -/
theorem act_opens {work : Work} (hwork : work ≠ .exitScope) {b : Binder} (hb : b.On c cs) :
    b.Writes (act a reportUndefined work b).2 ∧ ∃ c' cs',
      (act a reportUndefined work b).2.On c' cs' ∧
        cs'.length = (act a reportUndefined work b).1.count .exitScope + cs.length := by
  have hcount {n : Nat} {works : List Work} (hworks : Below n works) : works.count .exitScope = 0 :=
    List.count_eq_zero.2 fun hmem => (hworks _ hmem).1 rfl
  match work with
  | .exitScope => exact absurd rfl hwork
  | .typeNames document =>
    obtain ⟨hon, hwrites, -⟩ := Binder.visitTypeNames_stays (a := a) document b hb
    exact ⟨hwrites, c, cs, hon, (Nat.zero_add _).symm⟩
  | .visit n =>
    obtain ⟨hwrites, ⟨hon, -, hworks⟩ | ⟨s, hon, -, works, hworks, heq⟩⟩ :=
      Binder.visit_opens (a := a) n b hb
    · refine ⟨hwrites, c, cs, hon, ?_⟩
      show cs.length = (Binder.visit a n b).1.count .exitScope + cs.length
      rw [hcount hworks, Nat.zero_add]
    · refine ⟨hwrites, s, s :: cs, hon, ?_⟩
      show (s :: cs).length = (Binder.visit a n b).1.count .exitScope + cs.length
      rw [heq, List.count_append, hcount hworks, List.length_cons, Nat.zero_add, Nat.add_comm]
      rfl

theorem safe_on {b : Binder} (hb : b.On c cs) (hclosed : b.analysis.Closed) : b.Safe := by
  refine ⟨hclosed, fun s hs => ?_⟩
  rw [hb.current, hb.chain] at hs
  obtain ⟨scope, hscope⟩ := Option.isSome_iff_exists.1 (hb.known s hs)
  exact ⟨scope, hscope, hb.opened s scope hscope hs⟩

/-- What a piece of work changes. -/
theorem act_leads {b : Binder} (hb : b.Safe) (a : Arena) (reportUndefined : Bool) (work : Work) :
    b.analysis.Leads (act a reportUndefined work b).2.analysis := by
  cases work with
  | visit n =>
    rcases Binder.visit_visits hb a n with ⟨hleads, -⟩ | ⟨henters, -⟩
    · exact hleads.analysis
    · exact henters.analysis
  | typeNames document => exact (Binder.visitTypeNames_runs hb a document).1.analysis
  | exitScope => exact (Binder.exitScope_leaves hb a reportUndefined).analysis

/-- The walk and the work that is left: there is a request for each scope on the chain, the
outermost one last. -/
inductive Held (m : Moment) : Prop
  | on {c : ScopeId} {cs : List ScopeId} {init : List Work} (hb : m.state.On c cs)
      (hworks : m.works = init ++ [.exitScope]) (hcount : cs.length = init.count .exitScope + 1)
  | finished (hworks : m.works = []) (hstate : m.state.Finished)

theorem Held.step (hm : m.Held) (hstep : m.Step a reportUndefined m') : m'.Held := by
  obtain ⟨works, b⟩ := m
  cases hm with
  | finished hworks =>
    subst hworks
    cases hstep
  | @on c cs init hb hworks hcount =>
    subst hworks
    cases init with
    | nil =>
      rw [step_cons_eq hstep]
      rcases hb.exitScope a reportUndefined with ⟨o, outer, rfl, hon⟩ | ⟨-, hfinished⟩
      · have houter : outer = [] := List.eq_nil_of_length_eq_zero (Nat.succ.inj hcount)
        exact (List.not_mem_nil (houter ▸ hon.mem_current)).elim
      · exact .finished rfl hfinished
    | cons work init =>
      rw [step_cons_eq hstep]
      by_cases hwork : work = .exitScope
      · subst hwork
        rw [List.count_cons_self] at hcount
        rcases hb.exitScope a reportUndefined with ⟨o, outer, rfl, hon⟩ | ⟨rfl, -⟩
        · exact .on hon rfl (Nat.succ.inj hcount)
        · cases Nat.succ.inj hcount
      · rw [List.count_cons_of_ne hwork] at hcount
        obtain ⟨-, c', cs', hon, hlength⟩ := act_opens a reportUndefined hwork hb
        refine .on hon (List.append_assoc _ init [.exitScope]).symm ?_
        rw [hlength, hcount, List.count_append, Nat.add_assoc]

theorem Held.steps (hm : m.Held) (h : ReflTransGen (Step a reportUndefined) m m') : m'.Held := by
  induction h with
  | refl => exact hm
  | tail _ hstep ih => exact ih.step hstep

theorem chain_on {works : List Work} {b : Binder} (hb : b.On c cs) (hworks : works ≠ []) :
    (⟨works, b⟩ : Moment).chain = cs := by
  rw [chain, hb.current, hb.chain]
  exact if_neg (by simpa using hworks)

theorem Held.orderly (hm : m.Held) : m.Orderly := by
  obtain ⟨works, b⟩ := m
  cases hm with
  | finished hworks hstate =>
    subst hworks
    have hclosed := hstate.closed
    exact ⟨hstate.nested, rfl, fun _ _ _ hs => (List.not_mem_nil hs).elim,
      fun s scope hscope _ => hclosed s scope hscope⟩
  | @on c cs init hb hworks hcount =>
    subst hworks
    have hchain :=
      chain_on hb (List.append_ne_nil_of_right_ne_nil init (List.cons_ne_nil .exitScope []))
    refine ⟨hb.nested, ?_, fun s scope hscope hs => ?_, fun s scope hscope hs => ?_⟩
    · rw [hchain, hcount, List.count_append]
      rfl
    · exact hb.opened s scope hscope (hchain ▸ hs)
    · exact hb.closed s scope hscope (hchain ▸ hs)

/-! ## The requests to close a scope -/

variable (a reportUndefined) in
/-- The machine comes past any work that leaves a scope open. -/
theorem steps_past (pre post : List Work) {b : Binder} (hb : b.On c cs)
    (hlt : pre.count .exitScope < cs.length) : ∃ b' c',
      ReflTransGen (Step a reportUndefined) ⟨pre ++ post, b⟩ ⟨post, b'⟩ ∧
        b'.On c' (cs.drop (pre.count .exitScope)) := by
  induction pre generalizing b c cs with
  | nil => exact ⟨b, c, .refl, hb⟩
  | cons work pre ih =>
    by_cases hwork : work = .exitScope
    · subst hwork
      rw [List.count_cons_self] at hlt ⊢
      have hstep := step_cons a reportUndefined .exitScope (pre ++ post) b
      rcases hb.exitScope a reportUndefined with ⟨o, outer, rfl, hon⟩ | ⟨rfl, -⟩
      · obtain ⟨b', c', hsteps, hon'⟩ := ih hon (Nat.lt_of_succ_lt_succ hlt)
        exact ⟨b', c', .head hstep hsteps, hon'⟩
      · exact (Nat.not_lt_zero _ (Nat.lt_of_succ_lt_succ hlt)).elim
    · rw [List.count_cons_of_ne hwork] at hlt ⊢
      obtain ⟨hfirst, hon⟩ :=
        perform_on a reportUndefined hwork hb (pre ++ post)
      obtain ⟨b', c', hsteps, hon'⟩ := ih hon hlt
      exact ⟨b', c', hfirst.trans hsteps, hon'⟩

variable (a reportUndefined) in
/-- Each request closes the scope that has its place on the chain. -/
theorem Held.closes_in_turn {pre post : List Work} {b : Binder}
    (hm : Held ⟨pre ++ .exitScope :: post, b⟩) : ∃ b',
      ReflTransGen (Step a reportUndefined) ⟨pre ++ .exitScope :: post, b⟩
        ⟨.exitScope :: post, b'⟩ ∧
        (⟨pre ++ .exitScope :: post, b⟩ : Moment).chain[pre.count .exitScope]? =
          some b'.current := by
  have hne : pre ++ .exitScope :: post ≠ [] :=
    List.append_ne_nil_of_right_ne_nil _ (List.cons_ne_nil _ _)
  have hcount := hm.orderly.exits
  cases hm with
  | finished hnil => exact absurd hnil hne
  | @on c cs _ hb =>
    rw [chain_on hb hne] at hcount ⊢
    rw [List.count_append, List.count_cons_self] at hcount
    obtain ⟨b', c', hsteps, hon⟩ := steps_past a reportUndefined pre
      (.exitScope :: post) hb (by omega)
    refine ⟨b', hsteps, ?_⟩
    rw [← List.head?_drop, ← hon.chain, ScopeTree.head?_chain, hon.current]

/-! ## What the steps write -/

/-- What a step does with the scopes. -/
structure Tidy (a : Arena) (reportUndefined : Bool) (m m' : Moment) : Prop where
  /-- All entries go to open scopes on the chain. -/
  trail : ∃ es, m.state.Trail es m'.state
  /-- Nothing is taken out of a scope that is not closed. -/
  writes : (∀ rest, m.works ≠ .exitScope :: rest) → m.state.Writes m'.state
  /-- A scope that is closed is the current one, and each name that is parked in it has
  one outcome. -/
  closes : ∀ rest, m.works = .exitScope :: rest → ∃ scope,
    m.state.analysis.scopes.get? m.state.current = some scope ∧
      m'.state = m.state.closeWith a scope (m.state.outcomes reportUndefined)

theorem Held.tidy (hm : m.Held) (hstep : m.Step a reportUndefined m') :
    m.Tidy a reportUndefined m' ∧
      (m.state.waiting ++ m.parks m').Perm
        (m'.state.waiting ++ (m.settles reportUndefined).map (·.1)) := by
  obtain ⟨works, b⟩ := m
  cases works with
  | nil => cases hstep
  | cons work rest =>
    rw [step_cons_eq hstep]
    cases hm with
    | finished hworks => cases hworks
    | @on c cs init hb hworks hcount =>
      by_cases hwork : work = .exitScope
      · subst hwork
        obtain ⟨scope, hscope⟩ := Option.isSome_iff_exists.1 (hb.known c hb.mem_current)
        refine ⟨⟨hb.exitScope_trail hscope a reportUndefined, fun h => absurd rfl (h rest),
          fun _ _ => ⟨scope, hb.current ▸ hscope, hb.exitScope_eq hscope a reportUndefined⟩⟩, ?_⟩
        refine .trans ?_ (hb.exitScope_waiting hscope a reportUndefined)
        exact .of_eq (List.append_nil _)
      · obtain ⟨hwrites, -⟩ := act_opens a reportUndefined hwork hb
        obtain ⟨es, htrail, hwaiting⟩ := id hwrites
        refine ⟨⟨⟨es, htrail⟩, fun _ => hwrites, fun _ h => absurd (List.cons.inj h).1 hwork⟩, ?_⟩
        have hsettles : (⟨work :: rest, b⟩ : Moment).settles reportUndefined = [] := by
          unfold settles
          split
          · next h => exact absurd (List.cons.inj h).1 hwork
          · rfl
        have hparks (m' : Moment) : (⟨work :: rest, b⟩ : Moment).parks m' =
            m'.state.waiting.diff b.waiting := by
          unfold parks
          split
          · next h => exact absurd (List.cons.inj h).1 hwork
          · rfl
        rw [hsettles, hparks, List.map_nil, List.append_nil]
        refine List.subperm_append_diff_self_of_count_le fun p _ => ?_
        rw [hwaiting.count_eq, List.count_append]
        exact Nat.le_add_right _ _

/-- Each name that was parked is parked still, or it was done with once. -/
theorem History.conserves {start : Moment} (hstart : start.Held) {parked : List Parked}
    {settled : List (Parked × Outcome)} (h : History a reportUndefined start m parked settled) :
    m.Held ∧ parked.Perm (m.state.waiting ++ settled.map (·.1)) := by
  induction h with
  | start => exact ⟨hstart, .of_eq (List.append_nil _).symm⟩
  | @step m m' parked settled _ hstep ih =>
    obtain ⟨hm, hperm⟩ := ih
    refine ⟨hm.step hstep, ?_⟩
    have hnow := (hm.tidy hstep).2
    calc parked ++ m.parks m'
      _ |>.Perm (m.state.waiting ++ settled.map (·.1) ++ m.parks m') := hperm.append_right _
      _ |>.Perm (m.state.waiting ++ m.parks m' ++ settled.map (·.1)) := by
        rw [List.append_assoc, List.append_assoc]
        exact List.perm_append_comm.append_left _
      _ |>.Perm (m'.state.waiting ++ (m.settles reportUndefined).map (·.1) ++ settled.map (·.1)) :=
        hnow.append_right _
      _ |>.Perm (m'.state.waiting ++ (settled ++ m.settles reportUndefined).map (·.1)) := by
        rw [List.append_assoc, List.map_append]
        exact List.perm_append_comm.append_left _

/-- The moment at which the names of a unit are declared and nothing in it is visited. -/
def start (a : Arena) (root : NodeRef) : Moment where
  works := Work.children a root ++ [.exitScope]
  state :=
    let b := (Analysis.new a).unit root
    (Binder.openBody a b.current (a.children root) b).2

end Moment

namespace Analysis

/-- The scope of the unit is the only one. -/
theorem get?_unit (a : Arena) (root : NodeRef) (s : ScopeId) :
    ((new a).unit root).analysis.scopes.get? s =
      if s = ⟨0⟩ then some { kind := .global, node := root, outer := none } else none := by
  refine (ScopeTree.get?_push _ _ s).trans (if_congr Iff.rfl rfl ?_)
  exact Array.getElem?_empty

/-- The walk starts in the scope of the unit. -/
theorem unit_on (a : Arena) (root : NodeRef) : ((new a).unit root).On ⟨0⟩ [⟨0⟩] := by
  have hscope := get?_unit a root
  have hnested : ((new a).unit root).analysis.scopes.Nested :=
    (unit_safe (closed_new a) root).2.closed.nested
  refine ⟨rfl, ?_, hnested, fun s hs => ?_, fun s scope h hs => ?_, fun s scope h hs => ?_⟩
  · rw [ScopeTree.chain_eq hnested, ScopeTree.outer?, hscope, if_pos rfl]
    rfl
  · rw [hscope, if_pos (List.mem_singleton.1 hs)]
    rfl
  · rw [hscope, if_pos (List.mem_singleton.1 hs)] at h
    cases h
    rfl
  · rw [hscope, if_neg fun heq : s = ⟨0⟩ => hs (List.mem_singleton.2 heq)] at h
    cases h

theorem start_on (a : Arena) (root : NodeRef) : (Moment.start a root).state.On ⟨0⟩ [⟨0⟩] ∧
    ((new a).unit root).Writes (Moment.start a root).state ∧
    ((new a).unit root).analysis.scopes.SameSites (Moment.start a root).state.analysis.scopes :=
  Binder.openBody_stays (List.mem_singleton_self _) (a.children root) _ (unit_on a root)

theorem start_held (a : Arena) (root : NodeRef) : (Moment.start a root).Held := by
  refine .on (start_on a root).1 rfl ?_
  have hnone : (Work.children a root).count .exitScope = 0 :=
    List.count_eq_zero.2 fun hmem => Work.ne_exitScope_of_mem_children hmem rfl
  rw [hnone]
  rfl

/-- The machine computes the walk. -/
theorem steps_run (a : Arena) (reportUndefined : Bool) (root : NodeRef) : ∃ finish : Binder,
    ReflTransGen (Moment.Step a reportUndefined) (.start a root) ⟨[], finish⟩ ∧
      bindNames a reportUndefined root (new a) = ((), finish.analysis) := by
  have hchildren : ∀ work ∈ Work.children a root, ∀ b : Binder, b.On ⟨0⟩ [⟨0⟩] → ∀ rest,
      ReflTransGen (Moment.Step a reportUndefined) ⟨work :: rest, b⟩
          ⟨rest, (Binder.perform a reportUndefined work b).2⟩ ∧
        (Binder.perform a reportUndefined work b).2.On ⟨0⟩ [⟨0⟩] :=
    fun work hwork b hb rest =>
      Moment.perform_on a reportUndefined (Work.ne_exitScope_of_mem_children hwork) hb rest
  obtain ⟨hvisits, -⟩ := Moment.forM_on hchildren (start_on a root).1 [.exitScope]
  refine ⟨_, hvisits.tail (Moment.step_cons a reportUndefined .exitScope [] _), ?_⟩
  have hrun : (Binder.run a reportUndefined root ((new a).unit root)).2 =
    (Binder.exitScope a reportUndefined
      ((Work.children a root).forM (Binder.perform a reportUndefined)
        (Moment.start a root).state).2).2 := by
    unfold Binder.run
    rw [run_bind, run_get, run_bind, run_forM_append, ← Binder.perform]
    rfl
  exact congrArg (fun b : Binder => ((), b.analysis)) hrun

/-- **The life of a scope.** While the names of a tree are bound, there is a request to close a
scope for each scope on the chain of the current one, and it closes that scope when its turn comes.
The scopes on the chain are those that are not closed, each of them younger than the one around it.
All that is put into a scope is put into an open one on the chain. In the end all scopes are closed,
nothing is parked any more, and each name that was parked was done with once. -/
theorem walk_lifecycle (a : Arena) (reportUndefined : Bool) (root : NodeRef) : ∃ finish : Binder,
    bindNames a reportUndefined root (new a) = ((), finish.analysis) ∧
    (∃ es, ((new a).unit root).Trail es (Moment.start a root).state) ∧
    ReflTransGen (Moment.Step a reportUndefined) (.start a root) ⟨[], finish⟩ ∧
    (∀ m, ReflTransGen (Moment.Step a reportUndefined) (.start a root) m → m.Orderly ∧
      (∀ pre post, m.works = pre ++ .exitScope :: post → ∃ b,
        ReflTransGen (Moment.Step a reportUndefined) m ⟨.exitScope :: post, b⟩ ∧
          m.chain[pre.count .exitScope]? = some b.current) ∧
      (∀ m', m.Step a reportUndefined m' → m.Tidy a reportUndefined m')) ∧
    (∀ m parked settled, Moment.History a reportUndefined (.start a root) m parked settled →
      parked.Perm (m.state.waiting ++ settled.map (·.1))) ∧
    (∀ s scope, finish.analysis.scopes.get? s = some scope → scope.state = .closed) ∧
    finish.waiting = [] := by
  obtain ⟨finish, hsteps, hrun⟩ := steps_run a reportUndefined root
  obtain ⟨es, hopening, -⟩ := (start_on a root).2.1
  have hheld := start_held a root
  have hfinished : finish.Finished := by
    cases hheld.steps hsteps with
    | finished _ hstate => exact hstate
    | on _ hworks =>
        exact absurd hworks.symm (List.append_ne_nil_of_right_ne_nil _ (List.cons_ne_nil _ _))
  refine ⟨finish, hrun, ⟨es, hopening⟩, hsteps, fun m hm => ?_, fun m parked settled h => ?_,
    fun s scope hscope => (hfinished.closed s scope hscope).1, hfinished.waiting⟩
  · have hnow := hheld.steps hm
    refine ⟨hnow.orderly, fun pre post hworks => ?_, fun m' hstep => (hnow.tidy hstep).1⟩
    obtain ⟨works, b⟩ := m
    subst hworks
    exact hnow.closes_in_turn a reportUndefined
  · exact (h.conserves hheld).2

end Analysis

end DocTypes
