import Mathlib.Data.List.Forall2
import Mathlib.Order.Defs.Unbundled

/-!
# Runs of state steps

A step of a `StateM` moves along a relation if every run of it relates the state before to
the state after. What moves along a relation that is reflexive and transitive can be put
together from steps that do. Where a step does right only because of the state it is taken
from, `MovesFrom` speaks of that state alone, and `Runs` says besides what the result is worth
in the state after. `Yields` speaks of results alone.
-/

namespace DocTypes

variable {σ α β : Type} {R : σ → σ → Prop}

theorem run_bind (m : StateM σ α) (f : α → StateM σ β) (s : σ) :
    (m >>= f) s = f (m s).1 (m s).2 := rfl

theorem run_get (s : σ) : (get : StateM σ σ) s = (s, s) := rfl

theorem run_forM_append (xs ys : List α) (f : α → StateM σ PUnit) (s : σ) :
    ((xs ++ ys).forM f s).2 = (ys.forM f (xs.forM f s).2).2 := by
  induction xs generalizing s with
  | nil => rfl
  | cons x xs ih => exact ih (f x s).2

/-- A state that is led to leads to itself. -/
class Anchored (R : σ → σ → Prop) : Prop where
  self : ∀ {s t}, R s t → R t t

/-- Every run of the step relates the state before to the state after. -/
def Moves (R : σ → σ → Prop) (m : StateM σ α) : Prop := ∀ s, R s (m s).2

/-- The run of the step from a state relates that state to the one after it. -/
def MovesFrom (R : σ → σ → Prop) (s : σ) (m : StateM σ α) : Prop := R s (m s).2

/-- The run of the step from a state relates that state to the one after it, and the result
holds good in the state after. -/
def Runs (R : σ → σ → Prop) (s : σ) (m : StateM σ α) (P : α → σ → Prop) : Prop :=
  R s (m s).2 ∧ P (m s).1 (m s).2

namespace Moves

theorem movesFrom {m : StateM σ α} (h : Moves R m) (s : σ) : MovesFrom R s m := h s

theorem runs {m : StateM σ α} (h : Moves R m) (s : σ) : Runs R s m fun _ _ => True := ⟨h s, trivial⟩

theorem pure [Std.Refl R] (x : α) : Moves R (Pure.pure x : StateM σ α) :=
  fun s => Std.Refl.refl s

theorem get [Std.Refl R] : Moves R (get : StateM σ σ) := fun s => Std.Refl.refl s

/-- A step that looks at the state has to do right by that state alone. -/
theorem get_bind {f : σ → StateM σ β} (h : ∀ s, MovesFrom R s (f s)) :
    Moves R (MonadState.get >>= f) := h

theorem bind [IsTrans σ R] {m : StateM σ α} {f : α → StateM σ β} (hm : Moves R m)
    (hf : ∀ x, Moves R (f x)) : Moves R (m >>= f) :=
  fun s => IsTrans.trans _ _ _ (hm s) (hf (m s).1 (m s).2)

theorem discard {m : StateM σ α} (hm : Moves R m) : Moves R (discard m) := hm

theorem ite {c : Prop} [Decidable c] {m m' : StateM σ α} (h : c → Moves R m)
    (h' : ¬c → Moves R m') : Moves R (if c then m else m') := by
  split
  · exact h ‹_›
  · exact h' ‹_›

theorem forM [Std.Refl R] [IsTrans σ R] {f : α → StateM σ PUnit} {xs : List α}
    (h : ∀ x ∈ xs, Moves R (f x)) : Moves R (xs.forM f) := by
  induction xs with
  | nil => exact pure PUnit.unit
  | cons x xs ih =>
    exact bind (h x List.mem_cons_self) fun _ => ih fun y hy => h y (List.mem_cons_of_mem _ hy)

theorem mapM [Std.Refl R] [IsTrans σ R] {f : α → StateM σ β} {xs : List α}
    (h : ∀ x ∈ xs, Moves R (f x)) : Moves R (xs.mapM f) := by
  induction xs with
  | nil =>
    rw [List.mapM_nil]
    exact pure []
  | cons x xs ih =>
    rw [List.mapM_cons]
    refine bind (h x List.mem_cons_self) fun y => ?_
    exact bind (ih fun z hz => h z (List.mem_cons_of_mem _ hz)) fun ys => pure (y :: ys)

theorem foldlM [Std.Refl R] [IsTrans σ R] {f : β → α → StateM σ β} {xs : List α}
    (h : ∀ y, ∀ x ∈ xs, Moves R (f y x)) (y : β) : Moves R (xs.foldlM f y) := by
  induction xs generalizing y with
  | nil =>
    rw [List.foldlM_nil]
    exact pure y
  | cons x xs ih =>
    rw [List.foldlM_cons]
    exact bind (h y x List.mem_cons_self) fun z =>
      ih (fun w x hx => h w x (List.mem_cons_of_mem _ hx)) z

end Moves

namespace MovesFrom

variable {s : σ}

theorem bind [IsTrans σ R] {m : StateM σ α} {f : α → StateM σ β} (hm : MovesFrom R s m)
    (hf : ∀ x, Moves R (f x)) : MovesFrom R s (m >>= f) :=
  IsTrans.trans _ _ _ hm (hf (m s).1 (m s).2)

/-- The second step has to do right by the state and the result that the first one leaves. -/
theorem bind_from [IsTrans σ R] {m : StateM σ α} {f : α → StateM σ β} (hm : MovesFrom R s m)
    (hf : MovesFrom R (m s).2 (f (m s).1)) : MovesFrom R s (m >>= f) :=
  IsTrans.trans _ _ _ hm hf

end MovesFrom

namespace Runs

variable {s : σ} {P P' : α → σ → Prop} {Q : β → σ → Prop}

theorem pure {x : α} (hs : R s s) (hx : P x s) : Runs R s (Pure.pure x) P := ⟨hs, hx⟩

theorem get_bind {f : σ → StateM σ β} (h : Runs R s (f s) Q) :
    Runs R s (MonadState.get >>= f) Q := h

theorem bind [IsTrans σ R] {m : StateM σ α} {f : α → StateM σ β} (hm : Runs R s m P)
    (hf : ∀ x t, R s t → P x t → Runs R t (f x) Q) : Runs R s (m >>= f) Q :=
  have h := hf (m s).1 (m s).2 hm.1 hm.2
  ⟨IsTrans.trans _ _ _ hm.1 h.1, h.2⟩

/-- A step may be replaced by one that does the same in this state. -/
theorem of_eq {m m' : StateM σ α} (h : m s = m' s) (hm : Runs R s m' P) : Runs R s m P := by
  unfold Runs
  rw [h]
  exact hm

theorem weaken {m : StateM σ α} (hm : Runs R s m P) (h : ∀ x t, R s t → P x t → P' x t) :
    Runs R s m P' := ⟨hm.1, h _ _ hm.1 hm.2⟩

theorem discard {m : StateM σ α} (hm : Runs R s m P) :
    Runs R s (discard m) fun _ _ => True := ⟨hm.1, trivial⟩

theorem ite {c : Prop} [Decidable c] {m m' : StateM σ α} (h : c → Runs R s m P)
    (h' : ¬c → Runs R s m' P) : Runs R s (if c then m else m') P := by
  split
  · exact h ‹_›
  · exact h' ‹_›

theorem forM [Anchored R] [IsTrans σ R] {f : α → StateM σ PUnit} {xs : List α} (hs : R s s)
    (h : ∀ x ∈ xs, ∀ t, R s t → Runs R t (f x) fun _ _ => True) :
    Runs R s (xs.forM f) fun _ _ => True := by
  induction xs generalizing s with
  | nil => exact pure hs trivial
  | cons x xs ih =>
    refine bind (h x List.mem_cons_self s hs) fun _ t ht _ =>
      ih (Anchored.self ht) fun y hy u hu => ?_
    exact h y (List.mem_cons_of_mem _ hy) u (IsTrans.trans _ _ _ ht hu)

/-- What holds of a result when it is made holds of it in the end, if it stays true. -/
theorem mapM [Anchored R] [IsTrans σ R] {f : α → StateM σ β} {xs : List α} (hs : R s s)
    (keep : ∀ y t u, R t u → Q y t → Q y u)
    (h : ∀ x ∈ xs, ∀ t, R s t → Runs R t (f x) Q) :
    Runs R s (xs.mapM f) fun ys t => ∀ y ∈ ys, Q y t := by
  induction xs generalizing s with
  | nil =>
    rw [List.mapM_nil]
    exact pure hs fun y hy => (List.not_mem_nil hy).elim
  | cons x xs ih =>
    rw [List.mapM_cons]
    refine bind (h x List.mem_cons_self s hs) fun y t ht hy => ?_
    have hrest := ih (Anchored.self ht) fun z hz u hu =>
      h z (List.mem_cons_of_mem _ hz) u (IsTrans.trans _ _ _ ht hu)
    refine bind hrest fun ys u hu hys => pure (Anchored.self hu) fun z hz => ?_
    rcases List.mem_cons.1 hz with rfl | hz
    · exact keep _ t u hu hy
    · exact hys z hz

/-- Each result is right for the item that it comes from. -/
theorem mapM_forall₂ [Anchored R] [IsTrans σ R] {f : α → StateM σ β} {xs : List α}
    {Q : α → β → σ → Prop} (hs : R s s) (keep : ∀ x y t u, R t u → Q x y t → Q x y u)
    (h : ∀ x ∈ xs, ∀ t, R s t → Runs R t (f x) (Q x)) :
    Runs R s (xs.mapM f) fun ys t => List.Forall₂ (fun x y => Q x y t) xs ys := by
  induction xs generalizing s with
  | nil =>
    rw [List.mapM_nil]
    exact pure hs .nil
  | cons x xs ih =>
    rw [List.mapM_cons]
    refine bind (h x List.mem_cons_self s hs) fun y t ht hy => ?_
    have hrest := ih (Anchored.self ht) fun z hz u hu =>
      h z (List.mem_cons_of_mem _ hz) u (IsTrans.trans _ _ _ ht hu)
    refine bind hrest fun ys u hu hys => pure (Anchored.self hu) ?_
    exact .cons (keep x y t u hu hy) hys

theorem foldlM [Anchored R] [IsTrans σ R] {f : β → α → StateM σ β} {xs : List α} {y : β}
    (hs : R s s) (hy : Q y s) (h : ∀ y, ∀ x ∈ xs, ∀ t, R s t → Q y t → Runs R t (f y x) Q) :
    Runs R s (xs.foldlM f y) Q := by
  induction xs generalizing y s with
  | nil =>
    rw [List.foldlM_nil]
    exact pure hs hy
  | cons x xs ih =>
    rw [List.foldlM_cons]
    refine bind (h y x List.mem_cons_self s hs hy) fun z t ht hz => ih (Anchored.self ht) hz ?_
    exact fun w v hv u hu => h w v (List.mem_cons_of_mem _ hv) u (IsTrans.trans _ _ _ ht hu)

end Runs

/-- Whatever state the step is taken from, its result is of a sort. -/
def Yields (P : α → Prop) (m : StateM σ α) : Prop := ∀ s, P (m s).1

namespace Yields

variable {P : α → Prop} {Q : β → Prop}

theorem pure {x : α} (h : P x) : Yields P (Pure.pure x : StateM σ α) := fun _ => h

theorem bind {m : StateM σ α} {f : α → StateM σ β} (hm : Yields P m)
    (hf : ∀ x, P x → Yields Q (f x)) : Yields Q (m >>= f) := fun s => hf _ (hm s) (m s).2

/-- The result of a step is that of its last part. -/
theorem after {m : StateM σ α} {f : α → StateM σ β} (hf : ∀ x, Yields Q (f x)) :
    Yields Q (m >>= f) := fun s => hf (m s).1 (m s).2

theorem ite {c : Prop} [Decidable c] {m m' : StateM σ α} (h : c → Yields P m)
    (h' : ¬c → Yields P m') : Yields P (if c then m else m') := by
  split
  · exact h ‹_›
  · exact h' ‹_›

theorem mapM {f : α → StateM σ β} {xs : List α} (h : ∀ x ∈ xs, Yields Q (f x)) :
    Yields (fun ys => ∀ y ∈ ys, Q y) (xs.mapM f) := by
  induction xs with
  | nil =>
    rw [List.mapM_nil]
    exact pure fun _ hy => (List.not_mem_nil hy).elim
  | cons x xs ih =>
    rw [List.mapM_cons]
    refine bind (h x List.mem_cons_self) fun y hy => ?_
    refine bind (ih fun z hz => h z (List.mem_cons_of_mem _ hz)) fun ys hys => pure ?_
    exact List.forall_mem_cons.2 ⟨hy, hys⟩

theorem foldlM {f : β → α → StateM σ β} {xs : List α} {y : β} (hy : Q y)
    (h : ∀ y, ∀ x ∈ xs, Q y → Yields Q (f y x)) : Yields Q (xs.foldlM f y) := by
  induction xs generalizing y with
  | nil =>
    rw [List.foldlM_nil]
    exact pure hy
  | cons x xs ih =>
    rw [List.foldlM_cons]
    refine bind (h y x List.mem_cons_self hy) fun z hz => ?_
    exact ih hz fun w v hv hw => h w v (List.mem_cons_of_mem _ hv) hw

end Yields

end DocTypes
