import DocTypes.Proofs.Handles.Hierarchy
import DocTypes.Proofs.Handles.Typing
import DocTypes.Proofs.Lifecycle.Moments

/-!
# The stages of a run

A run is taken apart into the pieces of work that its passes do one after the other: a piece of the
walk that binds names, the bases of one class, the ancestors of one class, the type of one node, the
references to one variable. A `Stage` is what is left of the pass that is under way, with the state;
`Stage.next?` does the next piece, and a run is what comes out when nothing is left.

Each piece finds what it names and leaves the state closed, so every stage that a run goes through
is one on a chain of changes from the empty state to the end of the run.

## Main statements

* `Stage.steps_run`: the stages lead to the end of the run.
* `Stage.Sound.step`: one piece of work leads from a closed state to a closed one.
* `Stage.Reached.sound`, `Stage.Reached.leads_run`: so the stages lead from the empty state to the
  end of the run.
-/

namespace DocTypes

open Relation

/-! ## Stages -/

/-- What is left of the pass that is under way, next first, and the state. -/
inductive Stage where
  /-- The walk that binds names. -/
  | names (m : Moment)
  /-- The classes whose bases are to be noted, and those before them with a base that could not be
  resolved. -/
  | bases (decls left : List ClassDecl) (blocked : List ValueId) (x : Analysis)
  /-- The classes whose ancestors are to be listed. -/
  | ancestors (decls : List ClassDecl) (left : List ValueId) (x : Analysis)
  /-- The constructed classes whose ancestors are to be listed in this round, and how many rounds
  there may be after it. It is done twice, the second time at the end of the run. -/
  | constructed (last : Bool) (rounds : Nat) (left : List ValueId) (x : Analysis)
  /-- The nodes that are to be typed. -/
  | types (left : List Nat) (x : Analysis)
  /-- The values whose references are to be typed. -/
  | references (left : List ValueId) (x : Analysis)
  | finished (x : Analysis)

namespace Stage

/-- The state at a stage. -/
def state : Stage → Analysis
  | .names m => m.state.analysis
  | .bases _ _ _ x | .ancestors _ _ x | .constructed _ _ _ x | .types _ x | .references _ x
  | .finished x => x

/-- The stage at which the constructed classes are looked through. -/
def construct (last : Bool) (x : Analysis) : Stage :=
  .constructed last (x.store.values.size + Store.valueLimit) [] x

/-- The stage after the constructed classes. -/
def afterConstructed (a : Arena) (root : NodeRef) (last : Bool) (x : Analysis) : Stage :=
  if last then .finished x
  else .types (a.preorder (fun n => a.isKind (some n) .jsDocDocument) root) x

/-- The stage after a round of constructed classes: the next round, if there may be one and any
class is pending. -/
def nextRound (a : Arena) (root : NodeRef) (last : Bool) (x : Analysis) :
    (rounds : Nat) → (pending : List ValueId) → Stage
  | rounds + 1, v :: pending => .constructed last rounds (v :: pending) x
  | _, _ => afterConstructed a root last x

/-- The stage after the next piece of work, if any is left. -/
def next? (a : Arena) (reportUndefined : Bool) (root : NodeRef) : Stage → Option Stage
  | .names m =>
    match m.next? a reportUndefined with
    | some m' => some (.names m')
    | none => some (.bases m.state.analysis.classes m.state.analysis.classes [] m.state.analysis)
  | .bases decls (decl :: left) blocked x =>
    let (complete, x) := Hierarchy.noteBases a decl x
    some (.bases decls left (if complete then blocked else blocked ++ [decl.cls]) x)
  | .bases decls [] blocked x =>
    let order := Hierarchy.finalizationOrder (Hierarchy.schedule x.store.values decls blocked)
    some (.ancestors decls order x)
  | .ancestors decls (cls :: left) x =>
    some (.ancestors decls left (Analyze.onStore (Hierarchy.finalizeClass cls) x).2)
  | .ancestors decls [] x => some (construct false (Hierarchy.reportCycles a decls x).2)
  | .constructed last rounds (v :: left) x =>
    some (.constructed last rounds left (Analyze.onStore (Store.finalizeConstructed v) x).2)
  | .constructed last rounds [] x =>
    let pending := x.store.values.ids.filter (Store.isPending x.store.values)
    some (nextRound a root last x rounds pending)
  | .types (n :: left) x => some (.types left (Typing.visit a n x).2)
  | .types [] x => some (.references x.store.values.ids x)
  | .references (v :: left) x => some (.references left (Typing.propagate v x).2)
  | .references [] x => some (construct true x)
  | .finished _ => none

/-- One stage comes right after another. -/
def Step (a : Arena) (reportUndefined : Bool) (root : NodeRef) (s s' : Stage) : Prop :=
  s.next? a reportUndefined root = some s'

/-- The stage at which the names of the unit are declared and nothing is visited. -/
def start (a : Arena) (root : NodeRef) : Stage := .names (Moment.start a root)

/-- A run goes through a stage. -/
def Reached (a : Arena) (reportUndefined : Bool) (root : NodeRef) (s : Stage) : Prop :=
  ReflTransGen (Step a reportUndefined root) (start a root) s

section Computing

variable {a : Arena} {reportUndefined : Bool} {root : NodeRef}

/-! ## What the stages compute -/

/-- Pieces of work of one sort, one after the other. -/
theorem forM_steps {α : Type} {S : List α → Analysis → Stage} {f : α → Analyze PUnit}
    (h : ∀ y left x, Step a reportUndefined root (S (y :: left) x) (S left (f y x).2))
    (ys : List α) (x : Analysis) :
    ReflTransGen (Step a reportUndefined root) (S ys x) (S [] (ys.forM f x).2) := by
  induction ys generalizing x with
  | nil => exact .refl
  | cons y ys ih => exact .head (h y ys x) (ih (f y x).2)

/-- Steps of the store, one after the other, are steps of the analysis. -/
theorem onStore_forM {α : Type} (f : α → StateM Store PUnit) (ys : List α) (x : Analysis) :
    (Analyze.onStore (ys.forM f) x).2 = (ys.forM (fun y => Analyze.onStore (f y)) x).2 := by
  induction ys generalizing x with
  | nil => rfl
  | cons y ys ih => exact ih (Analyze.onStore (f y) x).2

theorem names_steps {m m' : Moment} (h : ReflTransGen (Moment.Step a reportUndefined) m m') :
    ReflTransGen (Step a reportUndefined root) (.names m) (.names m') := by
  refine h.lift Stage.names fun m m' (hstep : m.next? a reportUndefined = some m') => ?_
  show next? a reportUndefined root (.names m) = some (.names m')
  rw [next?, hstep]

theorem bases_steps (decls left : List ClassDecl) (blocked : List ValueId) (x : Analysis) :
    ReflTransGen (Step a reportUndefined root) (.bases decls left blocked x)
      (.bases decls [] (blocked ++ (Hierarchy.resolveBases a left x).1)
        (Hierarchy.resolveBases a left x).2) := by
  induction left generalizing blocked x with
  | nil =>
    show ReflTransGen _ _ (bases decls [] (blocked ++ []) x)
    rw [List.append_nil]
  | cons decl left ih =>
    let noted := Hierarchy.noteBases a decl x
    have hstep : Step a reportUndefined root (.bases decls (decl :: left) blocked x)
        (.bases decls left (if noted.1 then blocked else blocked ++ [decl.cls]) noted.2) := rfl
    rw [Hierarchy.resolveBases_cons]
    refine .head hstep ((ih _ _).trans ?_)
    show ReflTransGen _ _ (bases decls [] (blocked ++ if noted.1 then _ else _) _)
    split
    · exact .refl
    · rw [List.append_assoc]
      exact .refl

theorem constructed_steps (last : Bool) (rounds : Nat) (x : Analysis) :
    ReflTransGen (Step a reportUndefined root) (.constructed last rounds [] x)
      (afterConstructed a root last (Analyze.onStore (Store.finalizeRounds rounds) x).2) := by
  induction rounds generalizing x with
  | zero => exact .single rfl
  | succ rounds ih =>
    have hround {pending : List ValueId}
        (hpending : x.store.values.ids.filter (Store.isPending x.store.values) = pending) :
        Step a reportUndefined root (.constructed last (rounds + 1) [] x)
          (nextRound a root last x (rounds + 1) pending) :=
      congrArg (fun pending => some (nextRound a root last x (rounds + 1) pending)) hpending
    show ReflTransGen _ _ (afterConstructed a root last
      { x with store := (Store.finalizeRounds (rounds + 1) x.store).2 })
    rw [Store.finalizeRounds, run_bind, run_get]
    dsimp only
    cases hpending : x.store.values.ids.filter (Store.isPending x.store.values) with
    | nil => exact .single (hround hpending)
    | cons v pending =>
      have hlisted : ReflTransGen (Step a reportUndefined root)
          (.constructed last rounds (v :: pending) x) _ :=
        forM_steps (S := .constructed last rounds) (fun _ _ _ => rfl) (v :: pending) x
      rw [← onStore_forM] at hlisted
      exact .head (hround hpending) (hlisted.trans (ih _))

/-- Steps of the store that do the same to it are the same step of the analysis. -/
theorem onStore_congr {α : Type} {m m' : StateM Store α} {x : Analysis}
    (h : m x.store = m' x.store) : Analyze.onStore m x = Analyze.onStore m' x := by
  unfold Analyze.onStore
  rw [h]

theorem construct_steps (last : Bool) (x : Analysis) :
    ReflTransGen (Step a reportUndefined root) (construct last x)
      (afterConstructed a root last (Analyze.onStore Store.finalizeAllConstructed x).2) := by
  have hall : Store.finalizeAllConstructed x.store =
      Store.finalizeRounds (x.store.values.size + Store.valueLimit) x.store := by
    rw [Store.finalizeAllConstructed, run_bind, run_get]
  rw [onStore_congr hall, construct]
  -- the bound on the rounds is too large to be looked at
  generalize x.store.values.size + Store.valueLimit = rounds
  exact constructed_steps last rounds x

theorem build_steps (x : Analysis) :
    ReflTransGen (Step a reportUndefined root) (.bases x.classes x.classes [] x)
      (afterConstructed a root false (Hierarchy.build a x).2) := by
  have hbases : ReflTransGen (Step a reportUndefined root) (.bases x.classes x.classes [] x)
      (.bases x.classes [] (Hierarchy.resolveBases a x.classes x).1
        (Hierarchy.resolveBases a x.classes x).2) := bases_steps x.classes x.classes [] x
  have hlisted (left : List ValueId) (y : Analysis) : ReflTransGen (Step a reportUndefined root)
      (.ancestors x.classes left y) (.ancestors x.classes []
        (left.forM (fun cls => Analyze.onStore (Hierarchy.finalizeClass cls)) y).2) :=
    forM_steps (S := .ancestors x.classes) (fun _ _ _ => rfl) left y
  have hreported (y : Analysis) : Step a reportUndefined root (.ancestors x.classes [] y)
      (construct false (Hierarchy.reportCycles a x.classes y).2) := rfl
  have hscheduled (blocked : List ValueId) (y : Analysis) : Step a reportUndefined root
      (.bases x.classes [] blocked y) (.ancestors x.classes (Hierarchy.finalizationOrder
        (Hierarchy.schedule y.store.values x.classes blocked)) y) := rfl
  have hfinished (y : Analysis) : ReflTransGen (Step a reportUndefined root) (construct false y)
      (afterConstructed a root false (Analyze.onStore Store.finalizeAllConstructed y).2) :=
    construct_steps false y
  have hsteps := (hbases.tail (hscheduled _ _)).trans ((hlisted _ _).tail (hreported _))
  unfold Hierarchy.build
  generalize Store.finalizeAllConstructed = completion at hfinished ⊢
  rw [run_bind, run_get, run_bind, run_bind, run_get, run_bind, run_bind]
  exact hsteps.trans (hfinished _)

theorem typing_steps (x : Analysis) :
    ReflTransGen (Step a reportUndefined root) (afterConstructed a root false x)
      (.finished (Typing.run a root x).2) := by
  have htyped (left : List Nat) (y : Analysis) : ReflTransGen (Step a reportUndefined root)
      (.types left y) (.types [] (left.forM (Typing.visit a) y).2) :=
    forM_steps (S := .types) (fun _ _ _ => rfl) left y
  have hreferences (left : List ValueId) (y : Analysis) :
      ReflTransGen (Step a reportUndefined root) (.references left y)
        (.references [] (left.forM Typing.propagate y).2) :=
    forM_steps (S := .references) (fun _ _ _ => rfl) left y
  have hvalues (y : Analysis) : Step a reportUndefined root (.types [] y)
      (.references y.store.values.ids y) := rfl
  have hdone (y : Analysis) :
      Step a reportUndefined root (.references [] y) (construct true y) := rfl
  have hfinished (y : Analysis) : ReflTransGen (Step a reportUndefined root) (construct true y)
      (.finished (Analyze.onStore Store.finalizeAllConstructed y).2) := construct_steps true y
  have hsteps := ((htyped (a.preorder (fun n => a.isKind (some n) .jsDocDocument) root) x).tail
    (hvalues _)).trans ((hreferences _ _).tail (hdone _))
  unfold Typing.run
  generalize Store.finalizeAllConstructed = completion at hfinished ⊢
  rw [run_bind, run_bind, run_get, run_bind]
  exact hsteps.trans (hfinished _)

end Computing

/-- The stages lead to the end of the run. -/
theorem steps_run (a : Arena) (root : NodeRef) (options : Options) :
    Reached a (options.reports a root) root (.finished (Analysis.run a root options)) := by
  obtain ⟨finish, hwalk, hbound⟩ := Analysis.steps_run a (options.reports a root) root
  have hnames : Reached a (options.reports a root) root
      (.bases finish.analysis.classes finish.analysis.classes [] finish.analysis) :=
    (names_steps hwalk).tail rfl
  have hbuilt : Reached a (options.reports a root) root
      (afterConstructed a root false (Hierarchy.build a finish.analysis).2) :=
    hnames.trans (build_steps _)
  have hrun : Analysis.run a root options =
      (Typing.run a root (Hierarchy.build a finish.analysis).2).2 := by
    rw [Analysis.run, Analysis.runPasses_three, Analysis.runPasses_two,
      Analysis.runPasses_one, hbound]
  rw [hrun]
  exact hbuilt.trans (typing_steps _)

/-! ## Every stage is closed -/

/-- The state is closed, and what the work that is left is about is there. -/
def Sound : Stage → Prop
  | .names m => m.state.analysis.Closed ∧ m.Held
  | .bases _ left _ x => x.Closed ∧ ∀ decl ∈ left, (x.store.values.class? decl.cls).isSome
  | .constructed _ _ left x => x.Closed ∧ ∀ v ∈ left, (x.store.values.constructed? v).isSome
  | .ancestors _ _ x | .types _ x | .references _ x | .finished x => x.Closed

theorem Sound.closed {s : Stage} (h : s.Sound) : s.state.Closed := by
  cases s with
  | names | bases | constructed => exact h.1
  | ancestors | types | references | finished => exact h

section Sound

variable {a : Arena} {reportUndefined : Bool} {root : NodeRef} {s s' : Stage}

open Analysis

/-- A piece of the walk that binds names. -/
theorem sound_next {m m' : Moment} (hclosed : m.state.analysis.Closed) (hheld : m.Held)
    (hstep : m.Step a reportUndefined m') :
    Sound (.names m') ∧ m.state.analysis.Leads m'.state.analysis := by
  have hheld' := hheld.step hstep
  obtain ⟨works, b⟩ := m
  cases hheld with
  | finished hworks =>
    subst hworks
    cases hstep
  | on hb hworks =>
    cases works with
    | nil => cases hstep
    | cons work rest =>
      have hleads := Moment.act_leads (Moment.safe_on hb hclosed) a reportUndefined work
      obtain rfl := Moment.step_cons_eq hstep
      exact ⟨⟨hleads.closed, hheld'⟩, hleads⟩

theorem sound_construct {x : Analysis} (hx : x.Closed) (last : Bool) : (construct last x).Sound :=
  ⟨hx, fun _ hv => (List.not_mem_nil hv).elim⟩

theorem sound_afterConstructed {x : Analysis} (hx : x.Closed) (last : Bool) :
    (afterConstructed a root last x).Sound ∧ (afterConstructed a root last x).state = x := by
  cases last <;> exact ⟨hx, rfl⟩

/-- The classes of a round are constructed ones. -/
theorem sound_nextRound {x : Analysis} (hx : x.Closed) (last : Bool) (rounds : Nat)
    {pending : List ValueId} (hpending : ∀ v ∈ pending, (x.store.values.constructed? v).isSome) :
    (nextRound a root last x rounds pending).Sound ∧
      (nextRound a root last x rounds pending).state = x := by
  cases rounds with
  | zero => exact sound_afterConstructed hx last
  | succ rounds =>
    cases pending with
    | nil => exact sound_afterConstructed hx last
    | cons v pending => exact ⟨⟨hx, hpending⟩, rfl⟩

/-- A piece of work finds what it names and leaves what was there. -/
theorem Sound.step (h : s.Sound) (hstep : s.Step a reportUndefined root s') :
    s'.Sound ∧ s.state.Leads s'.state := by
  cases s with
  | names m =>
    obtain ⟨hclosed, hheld⟩ := h
    have hstep : next? a reportUndefined root (.names m) = some s' := hstep
    cases hnext : m.next? a reportUndefined with
    | some m' =>
      rw [next?, hnext] at hstep
      obtain rfl := Option.some.inj hstep
      exact sound_next hclosed hheld hnext
    | none =>
      rw [next?, hnext] at hstep
      obtain rfl := Option.some.inj hstep
      exact ⟨⟨hclosed, hclosed.classes⟩, .refl hclosed⟩
  | bases decls left blocked x =>
    obtain ⟨hx, hleft⟩ := h
    cases left with
    | nil =>
      cases hstep
      exact ⟨hx, .refl hx⟩
    | cons decl left =>
      cases hstep
      have hnoted := (Hierarchy.noteBases_runs hx a (hleft decl List.mem_cons_self)).1
      exact ⟨⟨hnoted.closed, fun d hd =>
        hnoted.class? (hleft d (List.mem_cons_of_mem _ hd))⟩, hnoted⟩
  | ancestors decls left x =>
    cases left with
    | nil =>
      cases hstep
      have hreported := (Hierarchy.reportCycles_runs h a decls).1
      exact ⟨sound_construct hreported.closed false, hreported⟩
    | cons cls left =>
      cases hstep
      have hlisted := (onStore_runs h (Hierarchy.finalizeClass_runs h.store cls)).1
      exact ⟨hlisted.closed, hlisted⟩
  | constructed last rounds left x =>
    obtain ⟨hx, hleft⟩ := h
    cases left with
    | nil =>
      obtain rfl := Option.some.inj hstep
      have hpending : ∀ v ∈ x.store.values.ids.filter (Store.isPending x.store.values),
          (x.store.values.constructed? v).isSome := fun v hv =>
        Store.isSome_of_isPending (List.mem_filter.1 hv).2
      obtain ⟨hsound, hstate⟩ := sound_nextRound (a := a) hx last rounds hpending
      refine ⟨hsound, ?_⟩
      rw [hstate]
      exact .refl hx
    | cons v left =>
      cases hstep
      have hlisted := (onStore_runs hx
        (Store.finalizeConstructed_runs hx.store (hleft v List.mem_cons_self))).1
      exact ⟨⟨hlisted.closed, fun w hw =>
        hlisted.constructed? (hleft w (List.mem_cons_of_mem _ hw))⟩, hlisted⟩
  | types left x =>
    cases left with
    | nil =>
      cases hstep
      exact ⟨h, .refl h⟩
    | cons n left =>
      cases hstep
      have htyped := (Typing.visit_runs h a n).1
      exact ⟨htyped.closed, htyped⟩
  | references left x =>
    cases left with
    | nil =>
      cases hstep
      exact ⟨sound_construct h true, .refl h⟩
    | cons v left =>
      cases hstep
      have htyped := (Typing.propagate_runs h v).1
      exact ⟨htyped.closed, htyped⟩
  | finished x => cases hstep

/-- Any number of pieces of work leave the state closed. -/
theorem Sound.steps (h : s.Sound) (hsteps : ReflTransGen (Step a reportUndefined root) s s') :
    s'.Sound ∧ s.state.Leads s'.state := by
  induction hsteps with
  | refl => exact ⟨h, .refl h.closed⟩
  | tail _ hstep ih =>
    obtain ⟨hsound, hleads⟩ := ih.1.step hstep
    exact ⟨hsound, ih.2.trans hleads⟩

/-- The names of a unit are declared in a scope of its own. -/
theorem start_sound (a : Arena) (root : NodeRef) :
    (start a root).Sound ∧ (Analysis.new a).Leads (start a root).state := by
  obtain ⟨hopened, hsafe⟩ := unit_safe (closed_new a) root
  have hdeclared := (Binder.openBody_runs hsafe a hsafe.current (a.children root)).1
  have hleads := hopened.trans hdeclared.analysis
  exact ⟨⟨hleads.closed, start_held a root⟩, hleads⟩

/-- Every stage that a run goes through is on a chain of changes from the empty state. -/
theorem Reached.sound (h : Reached a reportUndefined root s) :
    s.Sound ∧ (Analysis.new a).Leads s.state := by
  obtain ⟨hstart, hleads⟩ := start_sound a root
  obtain ⟨hsound, hrest⟩ := hstart.steps h
  exact ⟨hsound, hleads.trans hrest⟩

end Sound

/-- While names are bound, the current scope is there and open. -/
theorem Reached.isOpen {a : Arena} {reportUndefined : Bool} {root : NodeRef} {m : Moment}
    (h : Reached a reportUndefined root (.names m)) (hworks : m.works ≠ []) :
    m.state.analysis.IsOpen m.state.current := by
  obtain ⟨⟨hclosed, hheld⟩, -⟩ := h.sound
  cases hheld with
  | on hb => exact (Moment.safe_on hb hclosed).current
  | finished hnone => exact (hworks hnone).elim

/-- Every stage that is gone through leads to the end that is come to. -/
theorem Reached.leads {a : Arena} {reportUndefined : Bool} {root : NodeRef} {s : Stage}
    {x : Analysis}
    (h : Reached a reportUndefined root s) (hend : Reached a reportUndefined root (.finished x)) :
    s.state.Leads x := by
  have hunique : Relator.RightUnique (Step a reportUndefined root) := fun _ _ _ hs hs' =>
    Option.some.inj (hs.symm.trans hs')
  rcases ReflTransGen.total_of_right_unique hunique h hend with hrest | hback
  · exact (h.sound.1.steps hrest).2
  · obtain rfl | ⟨_, hstep, -⟩ := hback.cases_head
    · exact .refl hend.sound.1.closed
    · cases hstep

/-- Every stage that a run goes through leads to the end of the run. -/
theorem Reached.leads_run {a : Arena} {root : NodeRef} {options : Options} {s : Stage}
    (h : Reached a (options.reports a root) root s) :
    s.state.Leads (Analysis.run a root options) := h.leads (steps_run a root options)

end Stage

end DocTypes
