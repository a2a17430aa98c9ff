import DocTypes.Proofs.Handles.Run
import DocTypes.Proofs.Hierarchy.Linearization
import DocTypes.Proofs.TypeExpr.Annotating

/-!
# Ancestors in a run

The third pass makes types and constructed classes, and leaves classes and what was applied to
types as they are, until it lists the ancestors of the constructed classes that are new. So what
holds of the ancestors that the second pass notes holds in the end.

## Main statements

* `Typing.run_finalizes`: the third pass leaves the classes alone, but for ancestors.
* `Analysis.runPasses_linearizes`: the ancestors that are noted in a run are the ancestors.
-/

namespace DocTypes

namespace Analysis

/-- Classes and constructed classes stay as they are. -/
def Still (x y : Analysis) : Prop := x.store.Still y.store

instance : Std.Refl Still := ⟨fun x => .refl x.store⟩

instance : IsTrans Analysis Still := ⟨fun _ _ _ => Store.Still.trans⟩

theorem onTypes_still {α : Type} (f : TypeStore → α × TypeStore) : Moves Still (onTypes f) :=
  fun x => Store.Applies.types x.store (f x.store.types).2

/-- Steps that do not touch the store. -/
theorem still_of_store {α : Type} {m : Analyze α} (h : ∀ x, (m x).2.store = x.store) :
    Moves Still m := fun x => by
  rw [Still, h x]
  exact .refl x.store

instance : Interpreting Still where
  interns {_ f} _ := onTypes_still f
  targets _ _ := onTypes_still _
  reports _ _ := still_of_store fun _ => rfl

instance : Evaluating Still where
  applications := TypeExpr.application_moves fun node generic arguments x =>
    .newConstructedClass x.store node generic arguments

instance (a : Arena) : Declaring a Still where
  typed _ _ _ := still_of_store fun _ => rfl
  cyclic _ := still_of_store fun _ => rfl
  aliases _ _ := onTypes_still _

instance : Annotating Still where
  sets _ _ := still_of_store fun _ => rfl
  setsIfNew _ _ := still_of_store fun _ => rfl
  declares _ _ := still_of_store fun _ => rfl

end Analysis

namespace Typing

open Analysis

/-- The third pass leaves classes alone, and then lists the ancestors of constructed classes. -/
theorem run_finalizes {x : Analysis} (hx : x.Closed) (a : Arena) (root : NodeRef) :
    ∃ s, x.store.Follows s ∧ (run a root x).2.store = (Store.finalizeAllConstructed s).2 := by
  let nodes := a.preorder (fun n => a.isKind (some n) .jsDocDocument) root
  let y := (nodes.forM (visit a) x).2
  let z := (y.store.values.ids.forM propagate y).2
  have hy : x.Leads y := (Runs.forM (.refl hx) fun n _ y hy => visit_runs hy.closed a n).1
  have hz : y.Leads z := (Runs.forM (.refl hy.closed) fun v _ z hz => propagate_runs hz.closed v).1
  have hvisits : Moves Still (nodes.forM (visit a)) := .forM fun n _ => visit_moves n
  have hpropagates : Moves Still (y.store.values.ids.forM propagate) :=
    .forM fun v _ => propagate_moves v
  refine ⟨z.store, (Store.Follows.refl.still hy.store (hvisits x)).still hz.store
    (hpropagates y), ?_⟩
  unfold run
  rw [run_bind, run_bind, run_get, run_bind, Hierarchy.onStore_store]

theorem run_follows {x : Analysis} (hx : x.Closed) (a : Arena) (root : NodeRef) :
    x.store.Follows (run a root x).2.store := by
  obtain ⟨s, hs, hrun⟩ := run_finalizes hx a root
  exact hrun ▸ hs.finalize

end Typing

/-! ## The whole run -/

namespace Analysis

section Passes

variable (a : Arena) (reportUndefined : Bool) (root : NodeRef)

omit a reportUndefined root in
/-- After some of three passes none, one, two or all of them were made. -/
theorem foldl_take_cases {P : Analysis → Prop} {p q r : Analyze Unit} {x : Analysis}
    (hnone : P x) (hone : P (p x).2) (htwo : P (q (p x).2).2) (hthree : P (r (q (p x).2).2).2)
    (count : Nat) : P (([p, q, r].take count).foldl (fun x pass => (pass x).2) x) := by
  match count with
  | 0 => exact hnone
  | 1 => exact hone
  | 2 => exact htwo
  | count + 3 =>
    rw [List.take_of_length_le (by simp)]
    exact hthree

/-- The ancestors that are noted after the third pass were listed. -/
theorem run_traced {x : Analysis} (hx : x.Ready) (hclosed : x.Closed) (hlisted : x.store.Unlisted) :
    Store.Traced (Hierarchy.finalizedInOrder a x)
      (Typing.run a root (Hierarchy.build a x).2).2.store := by
  have hbuild := (Hierarchy.build_traces a hx hclosed hlisted).traced
  have hbuildClosed : (Hierarchy.build a x).2.Closed := (Hierarchy.build_runs hclosed a).1.closed
  exact hbuild.follows (Typing.run_follows hbuildClosed a root)

/-- All ancestors that are noted after some of the passes were listed, along one order
of classes. -/
theorem runPasses_listed (count : Nat) : ∃ order, ∀ v ancestors,
    (runPasses a reportUndefined root count).store.values.ancestors? v = some ancestors →
    (runPasses a reportUndefined root count).store.Listed order v ancestors := by
  have hx := bindNames_ready a reportUndefined root
  have hclosed := (bindNames_leads (closed_new a) a reportUndefined root).closed
  have hlisted := bindNames_unlisted a reportUndefined root
  have hbuild := (Hierarchy.build_traces a hx hclosed hlisted).traced
  have htypes := run_traced a root hx hclosed hlisted
  refine ⟨Hierarchy.finalizedInOrder a (bindNames a reportUndefined root (new a)).2,
    fun v ancestors => ?_⟩
  unfold runPasses passes
  refine @foldl_take_cases (fun y => y.store.values.ancestors? v = some ancestors →
      y.store.Listed (Hierarchy.finalizedInOrder a (bindNames a reportUndefined root (new a)).2) v
        ancestors)
    _ _ _ _ (fun hv => ?_) (fun hv => ?_) (fun hv => ?_) (fun hv => ?_) count
  · rw [Hierarchy.ancestors?_eq_none (ready_new a) (unlisted_new a)] at hv
    cases hv
  · rw [Hierarchy.ancestors?_eq_none hx hlisted] at hv
    cases hv
  · exact (hbuild.noted v ancestors hv).listed
  · exact (htypes.noted v ancestors hv).listed

/-- The ancestors that are noted in a run are all that is reached from a class along direct
bases, nearer ones first. -/
theorem runPasses_linearizes (count : Nat) (v : ValueId) (ancestors : List ValueId)
    (hv : (runPasses a reportUndefined root count).store.values.ancestors? v = some ancestors) :
    (runPasses a reportUndefined root count).store.Linearized v ancestors := by
  obtain ⟨order, hlisted⟩ := runPasses_listed a reportUndefined root count
  exact (hlisted v ancestors hv).linearized

end Passes

end Analysis

end DocTypes
