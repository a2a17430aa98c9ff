import DocTypes.Tree.Arena

/-!
# What a comment stands on

The declaration below a comment is seen through the statement or the assignment that
makes it: `var f = function() {}` and `a.b = function() {}` both define a function.
-/

namespace DocTypes

/-- The coarse shape of a declaration under a comment. -/
inductive TargetKind where
  | function
  | classLike
  | method
  /-- A declaration list, or an assignment to a plain name. -/
  | variableLike
  /-- A member of an object literal, or an assignment to a member. -/
  | property
  | expression
  | other
  deriving DecidableEq, Repr

namespace TargetKind

/-- Members of objects and classes, the only things that have a visibility. -/
def isPropertyLike : TargetKind → Bool
  | .method | .property => true
  | _ => false

/-- The written form of a shape. -/
def render : TargetKind → String
  | .function => "Function"
  | .classLike => "Class"
  | .method => "Method"
  | .variableLike => "Variable"
  | .property => "Property"
  | .expression => "Expression"
  | .other => "Other"

end TargetKind

namespace Arena

/-- The shape of a declaration. -/
def targetKind (a : Arena) (target : NodeRef) : TargetKind :=
  match target with
  | none => .other
  | some n =>
    match a.kind? (some n) with
    | none => .other
    | some .functionDeclaration | some .functionExpression | some .arrowFunction => .function
    | some .classDeclaration | some .classExpression => .classLike
    | some .method => .method
    | some .varStatement => .variableLike
    | some .property | some .memberExpression | some .computedMemberExpression => .property
    | some .expressionStatement =>
      match targetKind a (a.child (some n) 0) with
      | .expression => .other
      | shape => shape
    | some .assignment =>
      match a.kind? (a.child (some n) 0) with
      | some .identifier => .variableLike
      | some .memberExpression | some .computedMemberExpression => .property
      | _ => .expression
    | some _ => .expression
termination_by target.rank
decreasing_by exact rank_child_lt a n 0

/-- The node of an accepted kind that a declaration defines, seen through statements,
declaration lists, assignments and object members. -/
def defined (a : Arena) (accept : NodeKind → Bool) (target : NodeRef) : NodeRef :=
  match target with
  | none => none
  | some n =>
    match a.kind? (some n) with
    | none => none
    | some kind =>
      if accept kind then some n
      else match kind with
        | .expressionStatement => defined a accept (a.child (some n) 0)
        | .varStatement => defined a accept (a.child (a.child (some n) 0) 1)
        | .assignment | .property => defined a accept (a.child (some n) 1)
        | _ => none
termination_by target.rank
decreasing_by
  · exact rank_child_lt a n 0
  · exact Nat.lt_of_le_of_lt (rank_child_le a _ 1) (rank_child_lt a n 0)
  · exact rank_child_lt a n 1

/-- The function a declaration defines. -/
def definedFunction (a : Arena) (target : NodeRef) : NodeRef :=
  a.defined NodeKind.isFunctionLike target

/-- The class body a declaration defines. -/
def definedClass (a : Arena) (target : NodeRef) : NodeRef :=
  a.defined NodeKind.isClassLike target

end Arena

end DocTypes
