import DocTypes.Analysis.Basic
import DocTypes.Proofs.Run

/-!
# Steps that take no notice of a change

A change of states mirrors one step in another if the second does, from a changed state, what
the first does from the state itself: the results are equal, and the state after the second is
the changed state after the first. A step tolerates a change that mirrors it in itself.

The changes that matter here are those of the problems found so far (`Analysis.redress`): no
step looks at them. `Keeps` says which problems may still be reported under such a change.

## Main statements

* `Mirrors.bind`, `Mirrors.forM`: steps that are mirrored one by one are mirrored together.
* `Analysis.onStore_tolerates`: a step of the store tolerates every change of the problems.
-/

namespace DocTypes

variable {σ α β : Type} {φ : σ → σ}

/-- From a changed state the second step does what the first one does from the state. -/
def Mirrors (φ : σ → σ) (m m' : StateM σ α) : Prop := ∀ s, m' (φ s) = ((m s).1, φ (m s).2)

/-- The change makes no difference to the step. -/
def Tolerates (φ : σ → σ) (m : StateM σ α) : Prop := Mirrors φ m m

namespace Mirrors

theorem bind {m m' : StateM σ α} {f f' : α → StateM σ β} (hm : Mirrors φ m m')
    (hf : ∀ x, Mirrors φ (f x) (f' x)) : Mirrors φ (m >>= f) (m' >>= f') := by
  intro s
  show f' (m' (φ s)).1 (m' (φ s)).2 = _
  rw [hm s]
  exact hf (m s).1 (m s).2

/-- The second step looks at the changed state. -/
theorem get_bind {f f' : σ → StateM σ β} (h : ∀ s, Mirrors φ (f s) (f' (φ s))) :
    Mirrors φ (get >>= f) (get >>= f') := fun s => h s s

theorem forM {f f' : α → StateM σ PUnit} {xs : List α}
    (h : ∀ x ∈ xs, Mirrors φ (f x) (f' x)) : Mirrors φ (xs.forM f) (xs.forM f') := by
  induction xs with
  | nil => exact fun _ => rfl
  | cons x xs ih =>
    exact bind (h x List.mem_cons_self) fun _ => ih fun y hy => h y (List.mem_cons_of_mem _ hy)

end Mirrors

namespace Tolerates

theorem pure (x : α) : Tolerates φ (Pure.pure x : StateM σ α) := fun _ => rfl

theorem bind {m : StateM σ α} {f : α → StateM σ β} (hm : Tolerates φ m)
    (hf : ∀ x, Tolerates φ (f x)) : Tolerates φ (m >>= f) := Mirrors.bind hm hf

/-- A step that looks at the state, and sees nothing of the change. -/
theorem get_bind {f : σ → StateM σ β} (hsame : ∀ s, f (φ s) = f s) (h : ∀ s, Tolerates φ (f s)) :
    Tolerates φ (get >>= f) :=
  Mirrors.get_bind fun s => by
    rw [hsame s]
    exact h s

theorem discard {m : StateM σ α} (hm : Tolerates φ m) : Tolerates φ (discard m) := by
  intro s
  show (_, (m (φ s)).2) = _
  rw [hm s]
  rfl

theorem ite {c : Prop} [Decidable c] {m m' : StateM σ α} (h : c → Tolerates φ m)
    (h' : ¬c → Tolerates φ m') : Tolerates φ (if c then m else m') := by
  split
  · exact h ‹_›
  · exact h' ‹_›

theorem forM {f : α → StateM σ PUnit} {xs : List α} (h : ∀ x ∈ xs, Tolerates φ (f x)) :
    Tolerates φ (xs.forM f) := Mirrors.forM h

theorem mapM {f : α → StateM σ β} {xs : List α} (h : ∀ x ∈ xs, Tolerates φ (f x)) :
    Tolerates φ (xs.mapM f) := by
  induction xs with
  | nil =>
    rw [List.mapM_nil]
    exact pure []
  | cons x xs ih =>
    rw [List.mapM_cons]
    refine bind (h x List.mem_cons_self) fun y => ?_
    exact bind (ih fun z hz => h z (List.mem_cons_of_mem _ hz)) fun ys => pure (y :: ys)

theorem foldlM {f : β → α → StateM σ β} {xs : List α} (h : ∀ y, ∀ x ∈ xs, Tolerates φ (f y x))
    (y : β) : Tolerates φ (xs.foldlM f y) := by
  induction xs generalizing y with
  | nil =>
    rw [List.foldlM_nil]
    exact pure y
  | cons x xs ih =>
    rw [List.foldlM_cons]
    exact bind (h y x List.mem_cons_self) fun z =>
      ih (fun w x hx => h w x (List.mem_cons_of_mem _ hx)) z

end Tolerates

/-! ## Changes of the problems found so far -/

/-- A change of the problems found so far. -/
abbrev Redress := Array Diagnostic → Array Diagnostic

/-- Reporting one of these problems comes to the same before and after the change. -/
def Redress.Keeps (g : Redress) (reported : Diagnostic → Prop) : Prop :=
  ∀ problems d, reported d → g (problems.push d) = (g problems).push d

namespace Analysis

/-- The analysis with its problems changed. -/
def redress (g : Redress) (x : Analysis) : Analysis := { x with diagnostics := g x.diagnostics }

variable {g : Redress}

theorem onStore_tolerates {α : Type} (step : StateM Store α) :
    Tolerates (redress g) (Analyze.onStore step) := fun _ => rfl

theorem onTypes_tolerates {α : Type} (f : TypeStore → α × TypeStore) :
    Tolerates (redress g) (onTypes f) := onStore_tolerates _

theorem onValues_tolerates {α : Type} (f : ValueStore → α × ValueStore) :
    Tolerates (redress g) (onValues f) := onStore_tolerates _

theorem setType_tolerates (r : NodeRef) (t : TypeId) : Tolerates (redress g) (setType r t) :=
  fun _ => rfl

theorem setTypeIfNew_tolerates (r : NodeRef) (t : TypeId) :
    Tolerates (redress g) (setTypeIfNew r t) := fun _ => rfl

theorem declareType_tolerates (v : ValueId) (t : TypeId) :
    Tolerates (redress g) (declareType v t) :=
  fun _ => rfl

theorem report_tolerates {reported : Diagnostic → Prop} (hg : g.Keeps reported) {d : Diagnostic}
    (hd : reported d) : Tolerates (redress g) (report d) := by
  intro x
  show ((), { x with diagnostics := (g x.diagnostics).push d }) = _
  rw [← hg x.diagnostics d hd]
  rfl

end Analysis

end DocTypes
