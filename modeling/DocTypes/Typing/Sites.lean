import DocTypes.Binding.Names
import DocTypes.Comment.Target

/-!
# The places that a declaration types

These functions read off the tree which nodes carry the names of a declaration, which
expression a cast is about, and which method constructs a class.
-/

namespace DocTypes

namespace Arena

/-- Whether a node can be assigned to. -/
def isAssignable (a : Arena) (r : NodeRef) : Bool :=
  a.isKind r .identifier || a.isKind r .memberExpression || a.isKind r .computedMemberExpression

/-- The nodes that carry the names a declaration binds: bindings, targets of assignments,
keys of properties, names of methods. -/
def declarationSites (a : Arena) (target : NodeRef) : List Nat :=
  match target with
  | none => []
  | some n =>
    match a.kind? (some n) with
    | some .expressionStatement => declarationSites a (a.child (some n) 0)
    | some .assignment => ((a.child (some n) 0).filter fun l => a.isAssignable (some l)).toList
    | some .memberExpression => [n]
    | some .varStatement => a.bindingNames (some n)
    | some .property | some .method | some .functionDeclaration | some .classDeclaration =>
      (a.child (some n) 0).toList
    | _ => []
termination_by target.rank
decreasing_by exact rank_child_lt a n 0

/-- The name under which an alias is declared at a site. -/
def siteName (a : Arena) (site : NodeRef) : Atom :=
  if a.isKind site .memberExpression then a.atom (a.child site 1) else a.atom site

/-- The expression that a cast applies to. -/
def castExpression (a : Arena) (target : NodeRef) : NodeRef :=
  if a.isKind target .expressionStatement then a.child target 0 else target

/-- What a commented node is about, and the comment. A node without a comment is about
itself. -/
def uncommented (a : Arena) (r : NodeRef) : NodeRef × NodeRef :=
  if a.isKind r .annotated then (a.child r 1, a.child r 0) else (r, none)

/-- Whether a node is the method that constructs the instances of its class. -/
def isConstructor (a : Arena) (r : NodeRef) : Bool :=
  a.isKind r .method && !(a.flags r).isStatic && a.text (a.child r 0) == "constructor"

/-- The method that constructs the instances of a class, and the comment on it. -/
def constructorMethod (a : Arena) (cls : NodeRef) : NodeRef × NodeRef :=
  (((a.children (a.child cls 2)).map a.uncommented).find? fun m =>
    a.isConstructor m.1).getD (none, none)

/-- The object literal that initializes what is declared at a site. -/
def objectInitializer (a : Arena) (site : NodeRef) : NodeRef :=
  let parent := a.parent site
  if (a.isKind parent .varDeclaration || a.isKind parent .assignment) && a.child parent 0 = site
  then (a.child parent 1).filter fun init => a.isKind (some init) .objectLiteral
  else none

/-- The keys of the properties of an object literal. -/
def propertyKeys (a : Arena) (object : NodeRef) : List NodeRef :=
  (((a.children object).map fun member => (a.uncommented member).1).filter
    fun property => a.isKind property .property).map fun property => a.child property 0

end Arena

end DocTypes
