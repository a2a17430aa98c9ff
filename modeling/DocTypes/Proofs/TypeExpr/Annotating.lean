import DocTypes.Proofs.TypeExpr.Evaluating
import DocTypes.Typing.Declare

/-!
# Giving types to nodes

Where a declaration, a function, a class or a literal is given its type, types are worked out as in
a type expression, and then entered at nodes and declared for slots. A relation of states along
which that moves as well (`Analysis.Annotating`) is one that the visit of a node moves along.

## Main statements

* `Typing.visit_moves`: the visit of a node.
* `Typing.propagate_moves`: the references of a slot.
-/

namespace DocTypes

/-- A relation of states along which nodes and slots get types. -/
class Analysis.Annotating (R : Analysis → Analysis → Prop) : Prop
    extends Std.Refl R, IsTrans Analysis R where
  sets (r : NodeRef) (t : TypeId) : Moves R (setType r t)
  setsIfNew (r : NodeRef) (t : TypeId) : Moves R (setTypeIfNew r t)
  declares (v : ValueId) (t : TypeId) : Moves R (declareType v t)

namespace Typing

open Analysis

variable {a : Arena} {R : Analysis → Analysis → Prop}

theorem remainingOperands_moves [Working a R] (document : NodeRef) :
    Moves R (remainingOperands a document) := by
  refine .forM fun tag _ => .bind .get fun x => ?_
  refine .ite (fun _ => ?_) fun _ => .pure _
  exact .bind (Working.transforms _ _) fun _ => .pure _

/-! ## Sites -/

variable [Annotating R]

theorem register_moves (site : NodeRef) (t : TypeId) : Moves R (register site t) := by
  refine .bind (Annotating.sets _ _) fun _ => .bind .get fun x => ?_
  split
  · exact Annotating.declares _ _
  · exact .pure _

theorem registerIfNew_moves (site : NodeRef) (t : TypeId) : Moves R (registerIfNew site t) := by
  refine .bind (Annotating.setsIfNew _ _) fun _ => .bind .get fun x => ?_
  split
  · exact .ite (fun _ => Annotating.declares _ _) fun _ => .pure _
  · exact .pure _

/-- The references of a slot get its type. -/
theorem propagate_moves (v : ValueId) : Moves R (propagate v) := by
  refine .bind .get fun x => ?_
  split
  · exact .forM fun _ _ => Annotating.setsIfNew _ _
  · exact .pure _

theorem enumMembers_moves (site : NodeRef) (t : TypeId) : Moves R (enumMembers a site t) :=
  .bind .get fun _ => .forM fun _ _ => register_moves _ _

/-! ## Nodes -/

variable [Declaring a R]

theorem function_moves (node : NodeRef) : Moves R (function a node) := by
  refine .bind .get fun x => .ite (fun _ => .pure _) fun _ => ?_
  refine .bind (receiverType?_moves a node) fun _ => ?_
  refine .bind (Signature.functionType_moves _ _ _) fun _ => .bind (Annotating.sets _ _) fun _ => ?_
  exact .ite (fun _ => registerIfNew_moves _ _) fun _ => .pure _

theorem classType_moves (node : NodeRef) (cls : ValueId) (doc : Option DocComment) :
    Moves R (classType a node cls doc) := by
  refine .ite (fun _ => TypeExpr.instanceOf_moves _) fun _ => ?_
  generalize a.constructorMethod node = method
  obtain ⟨function, document⟩ := method
  refine .bind (Signature.functionType_moves _ _ _) fun _ => ?_
  exact .ite (fun _ => .bind (Annotating.sets _ _) fun _ => .pure _) fun _ => .pure _

theorem classBody_moves (node : NodeRef) (doc : Option DocComment) :
    Moves R (classBody a node doc) := by
  refine .bind .get fun x => ?_
  split
  · exact .pure _
  · exact .pure _
  · refine .bind (classType_moves node _ doc) fun _ => .bind (Annotating.sets _ _) fun _ => ?_
    dsimp only
    split
    · exact .bind (register_moves _ _) fun _ => .pure _
    · exact .pure _

theorem aliasSites_moves (doc : DocComment) (d : Declaration) (sites : List Nat) :
    Moves R (aliasSites a doc d sites) := by
  induction sites with
  | nil => exact .pure _
  | cons site rest ih =>
    refine .bind (Signature.declaredType_moves doc _) fun _ =>
      .bind (Annotating.sets _ _) fun _ => ?_
    dsimp only
    split
    · exact .bind (enumMembers_moves _ _) fun _ => ih
    · exact ih

theorem plainSites_moves (doc : DocComment) (d : Declaration) (sites : List Nat) :
    Moves R (plainSites a doc d sites) := by
  have hsites (t : TypeId) : Moves R (do
      sites.forM fun site => register (some site) t
      if sites.isEmpty && doc.kind = .type then
        Analysis.setType (a.castExpression doc.target) t : Analyze Unit) :=
    .bind (.forM fun _ _ => register_moves _ _) fun _ =>
      .ite (fun _ => Annotating.sets _ _) fun _ => .pure _
  refine .bind (Signature.declaredType_moves doc _) fun t => ?_
  refine .ite (fun _ => .bind (Annotating.sets _ _) fun _ => ?_) fun _ => ?_
  all_goals
    refine .bind .get fun _ => ?_
    dsimp only
    split
    · exact .bind (Annotating.sets _ _) fun _ => hsites t
    · exact hsites t

theorem declaration_moves (doc : DocComment) (function : NodeRef) (sites : List Nat) :
    Moves R (declaration a doc function sites) := by
  refine .bind .get fun x => ?_
  refine .ite (fun _ => .bind (receiverType?_moves a function) fun _ => ?_)
    fun _ => .bind (.pure _) fun _ => ?_
  all_goals
    split
    · exact aliasSites_moves doc _ sites
    · exact aliasSites_moves doc _ sites
    · exact plainSites_moves doc _ sites

theorem annotated_moves (node : NodeRef) : Moves R (annotated a node) := by
  have hlast := remainingOperands_moves (a := a) (R := R) (a.child node 0)
  unfold annotated
  refine .bind .get fun x => ?_
  dsimp only
  split
  · split
    · refine .bind (classBody_moves _ _) fun _ => .bind (.forM fun _ _ => register_moves _ _) ?_
      exact fun _ => hlast
    · exact .bind (declaration_moves _ _ _) fun _ => hlast
  · exact hlast

/-- The visit of a node moves along the relation. -/
theorem visit_moves (n : Nat) : Moves R (visit a n) := by
  unfold visit
  split
  · exact .pure _
  · exact annotated_moves _
  · exact .bind (classBody_moves _ _) fun _ => .pure _
  · exact .bind (classBody_moves _ _) fun _ => .pure _
  · exact .bind .get fun x => .ite (fun _ => Annotating.setsIfNew _ _) fun _ => .pure _
  · refine .ite (fun _ => function_moves _) fun _ => ?_
    split
    · exact Annotating.setsIfNew _ _
    · exact .pure _

end Typing

end DocTypes
