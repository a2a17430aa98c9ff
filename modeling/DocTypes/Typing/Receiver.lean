import DocTypes.Analysis.Denotation
import DocTypes.Binding.Names

/-!
# Declared classes and receivers

The class that a declaration makes is the value of the node that defines it. The receiver
of a function is the instance it is installed on: that of the class for a method in a
class body, and that of `X` for `X.prototype.m = function() {}`.
-/

namespace DocTypes

namespace Analysis

/-- The class that a node stands for. -/
def classAt? (x : Analysis) (r : NodeRef) : Option ValueId :=
  (x.valueOf? r).filter fun v => (x.store.values.class? v).isSome

/-- The class that a declaration makes, seen through statements, declarations, assignments
and properties. -/
def declaredClass? (x : Analysis) (a : Arena) (target : NodeRef) : Option ValueId :=
  match x.classAt? target with
  | some cls => some cls
  | none =>
    match target with
    | none => none
    | some n =>
      match a.kind? (some n) with
      | some .expressionStatement | some .varStatement =>
        declaredClass? x a (a.child (some n) 0)
      | some .varDeclaration | some .assignment | some .property =>
        declaredClass? x a (a.child (some n) 1)
      | _ => none
termination_by target.rank
decreasing_by
  all_goals exact Arena.rank_child_lt a n _

/-- The expression `X` if a function is assigned to a member of `X.prototype`. -/
def prototypeOwner? (x : Analysis) (a : Arena) (function : NodeRef) : Option NodeRef :=
  let assignment := a.parent function
  let target := a.child assignment 0
  let object := a.child target 0
  if a.isKind assignment .assignment && a.child assignment 1 = function
    && a.isKind target .memberExpression && a.isKind object .memberExpression
    && a.atom (a.child object 1) = x.store.values.prototypeName
  then some (a.child object 0)
  else none

/-- The class on whose instances a function is installed. -/
def receiverClass? (x : Analysis) (a : Arena) (function : NodeRef) : Option ValueId :=
  if a.isKind function .method then
    if (a.flags function).isStatic then none else x.classAt? (a.enclosingClass function)
  else ((x.prototypeOwner? a function).bind x.valueOf?).bind x.classOf?

/-- The type of the instances a function is installed on. -/
def receiverType? (a : Arena) (function : NodeRef) : Analyze (Option TypeId) := do
  match (← get).receiverClass? a function with
  | some cls => return some (← Analyze.onStore (Store.instanceType cls))
  | none => return none

end Analysis

end DocTypes
