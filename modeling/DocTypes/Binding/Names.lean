import DocTypes.Tree.Arena

/-!
# Names of declarations

What a declaration is called depends on where it stands: a function that is assigned to
`ns.Foo` is called `ns.Foo`, whatever its own name says. These functions read such names
and the nodes that carry them off the tree.
-/

namespace DocTypes

namespace Arena

/-- The expression at the root of a dotted path. -/
def pathRoot (a : Arena) (r : NodeRef) : NodeRef :=
  match r with
  | none => none
  | some n =>
    match a.kind? (some n) with
    | some .memberExpression => pathRoot a (a.child (some n) 0)
    | _ => some n
termination_by r.rank
decreasing_by exact rank_child_lt a n 0

/-- The parts of a dotted path, as far as they are names. -/
def pathParts (a : Arena) (r : NodeRef) : List String :=
  match r with
  | none => []
  | some n =>
    match a.kind? (some n) with
    | some .memberExpression => pathParts a (a.child (some n) 0) ++ [a.text (a.child (some n) 1)]
    | some .identifier | some .propertyName => [a.text (some n)]
    | some .thisExpression => ["this"]
    | _ => []
termination_by r.rank
decreasing_by exact rank_child_lt a n 0

/-- The text of a dotted path. -/
def pathText (a : Arena) (r : NodeRef) : String := ".".intercalate (a.pathParts r)

/-- The class whose body a member stands in, under a comment or not. -/
def enclosingClass (a : Arena) (member : NodeRef) : NodeRef :=
  let parent := a.parent member
  let body := if a.isKind parent .annotated then a.parent parent else parent
  if a.isKind body .classBody then a.parent body else none

/-- The name of a declaration by its own node. -/
def ownName (a : Arena) (node : NodeRef) : String × NodeRef :=
  match a.kind? node with
  | some .functionDeclaration | some .functionExpression | some .classDeclaration
  | some .classExpression | some .varDeclaration =>
    match a.child node 0 with
    | none => ("", node)
    | name => (a.text name, name)
  | some .expressionStatement => (a.pathText (a.child node 0), a.child node 0)
  | _ => ("", node)

/-- The name of a declaration and the node that carries it. What it is assigned to comes
before its own name. -/
def declarationName (a : Arena) (node : NodeRef) : String × NodeRef :=
  let parent := a.parent node
  if a.child parent 1 = node then
    match a.kind? parent with
    | some .varDeclaration | some .property => (a.text (a.child parent 0), a.child parent 0)
    | some .assignment => (a.pathText (a.child parent 0), a.child parent 0)
    | _ => a.ownName node
  else a.ownName node

/-- The node under a comment whose declaration gives `n` its value: the node itself, or
what it initializes, is assigned in or stands in as a statement. -/
def governingTarget (a : Arena) (n : Nat) : NodeRef :=
  match _h : a.parent (some n) with
  | none => none
  | some p =>
    match a.kind? (some p) with
    | some .annotated => if a.child (some p) 1 = some n then some n else none
    | some .varDeclaration | some .assignment | some .property =>
      if a.child (some p) 1 = some n then governingTarget a p else none
    | some .varStatement | some .expressionStatement => governingTarget a p
    | _ => none
termination_by a.size - n
decreasing_by
  all_goals
    have hlt := lt_of_parent_eq_some _h
    omega

/-- The binding names of a declaration list. -/
def bindingNames (a : Arena) (statement : NodeRef) : List Nat :=
  (a.children statement).filterMap fun declaration =>
    (a.child declaration 0).filter fun b => a.isKind (some b) .bindingName

end Arena

end DocTypes
