import DocTypes.Hierarchy.Build
import DocTypes.Proofs.TypeExpr.Evaluating

/-!
# Building the hierarchy step by step

The second pass works out what the bases of classes refer to, as in a type expression, notes the
bases, lists ancestors and reports cycles. A relation of states along which the hierarchy moves in
each of these steps (`Analysis.Building`) is one that the whole pass moves along.

## Main statements

* `Hierarchy.resolveBases_moves`: the bases of all classes are resolved.
* `Hierarchy.build_moves`: the whole pass.
-/

namespace DocTypes

/-- A relation of states along which the hierarchy is built. -/
class Analysis.Building (a : Arena) (R : Analysis → Analysis → Prop) : Prop
    extends Working a R where
  notesBases (cls : ValueId) (bases : List ValueId) :
    Moves R (modifyValues (·.updateClass cls fun data => { data with bases }))
  finalizes (cls : ValueId) : Moves R (Analyze.onStore (Hierarchy.finalizeClass cls))
  completes : Moves R (Analyze.onStore Store.finalizeAllConstructed)

namespace Hierarchy

open Analysis

variable {a : Arena} {R : Analysis → Analysis → Prop}

section Bases

variable [Working a R]

theorem heritage_moves (node : NodeRef) : Moves R (heritage a node) := by
  unfold heritage
  split
  · exact .pure _
  · refine .ite (fun _ => .bind (Working.transforms _ _) fun t => ?_) fun _ => .bind .get fun
      x => ?_
    · unfold heritageOfType
      refine .ite (fun _ => .pure _) fun _ => ?_
      refine .bind (TypeExpr.removeMember_moves _ _) fun t => .bind .get fun y => ?_
      split <;> exact .pure _
    · split
      · split <;> exact .pure _
      · split <;> exact .pure _
      · exact .pure _

/-- A base of the wrong sort is no alias that is defined through itself. -/
theorem sortProblem_ne_cyclicTypedef (interface : Bool) :
    sortProblem interface ≠ .cyclicTypedef := by
  cases interface <;> decide

theorem resolveBase_moves (cls : ValueId) (base : BaseRef) : Moves R (resolveBase a cls base) := by
  have hsort (interface : Bool) : Moves R (reportAt a (sortProblem interface) base.node) :=
    TypeExpr.reportAt_moves a _ (sortProblem_ne_cyclicTypedef interface)
  refine .bind .get fun x => .bind (heritage_moves _) fun found => ?_
  split
  · exact .bind (TypeExpr.reportAt_moves a _ (by decide)) fun _ => .pure _
  · exact .bind (hsort _) fun _ => .pure _
  · exact .bind .get fun y => .ite (fun _ => .pure _) fun _ => .bind (hsort _) fun _ => .pure _

end Bases

variable [Building a R]

theorem resolveBases_moves (decls : List ClassDecl) : Moves R (resolveBases a decls) := by
  induction decls with
  | nil => exact .pure _
  | cons decl rest ih =>
    refine .bind (.foldlM (fun r base _ => ?_) _) fun resolved => ?_
    · refine .bind (resolveBase_moves _ base) fun found => ?_
      split
      · exact .pure _
      · exact .pure _
      · exact .pure _
    · exact .bind (Building.notesBases a _ _) fun _ => .bind ih fun _ => .pure _

/-- The hierarchy is built along the relation. -/
theorem build_moves : Moves R (build a) := by
  refine .bind .get fun x => .bind (resolveBases_moves _) fun blocked => .bind .get fun y => ?_
  refine .bind (.forM fun cls _ => Building.finalizes a cls) fun _ => ?_
  refine .bind (.bind .get fun z => .forM fun pair _ => ?_) fun _ => Building.completes a
  exact Composing.reports _ (by simp)

end Hierarchy

end DocTypes
