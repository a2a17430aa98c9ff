import DocTypes.Binding.Names
import DocTypes.Comment.Compile
import DocTypes.Scopes.Scope

/-!
# What a body declares before it runs

When a scope opens, what its text binds is read off the tree. `var` and function
declarations of the body, however deep in its blocks and loops, belong to the function
(`Arena.hoisted`). `let`, `const` and class declarations belong to the block they stand in
and are bound only when they are reached; until then their names are reserved
(`Arena.reservations`). The same holds for the type names that comments declare.
-/

namespace DocTypes

/-- What a function or the unit declares when it opens. -/
inductive Hoisted where
  /-- A `var` name. -/
  | variableName (binding : Nat)
  /-- A function declaration with its name. -/
  | functionName (function binding : Nat)
  /-- A type name that is bound further on. -/
  | typeName (name : Atom)
  deriving DecidableEq, Repr

namespace Arena

/-- What the comment of an annotated node declares. -/
def declaredKind (a : Arena) (annotated : NodeRef) : DocKind :=
  (DocComment.silent a (a.child annotated 0) (a.child annotated 1)).kind

/-- The type names that a comment on a `var` or function declaration binds further on. -/
def hoistedTypes (a : Arena) (annotated : NodeRef) : List Hoisted :=
  let target := a.child annotated 1
  match a.kind? target with
  | some .varStatement =>
    if !(a.flags target).isBlockScoped && (a.declaredKind annotated).declaresType then
      (a.bindingNames target).map fun b => .typeName (a.atom (some b))
    else []
  | some .functionDeclaration =>
    match a.child target 0 with
    | none => []
    | name => if (a.declaredKind annotated).isClass then [.typeName (a.atom name)] else []
  | _ => []

/-- What a statement of a body declares when the body's function opens, in the order of the
text. Functions and expressions inside the statement are not entered. -/
def hoisted (a : Arena) (statement : NodeRef) : List Hoisted :=
  match statement with
  | none => []
  | some n =>
    match a.kind? (some n) with
    | some .varStatement =>
      if (a.flags (some n)).isBlockScoped then []
      else (a.bindingNames (some n)).map .variableName
    | some .functionDeclaration =>
      match a.child (some n) 0 with
      | some binding => [.functionName n binding]
      | none => []
    | some .annotated => a.hoistedTypes (some n) ++ hoisted a (a.child (some n) 1)
    | some .block | some .ifStatement | some .forStatement | some .forInStatement
    | some .forOfStatement | some .whileStatement | some .doWhileStatement
    | some .tryStatement | some .catchClause =>
      (a.children (some n)).attach.flatMap fun ⟨c, _⟩ => hoisted a c
    | _ => []
termination_by statement.rank
decreasing_by
  · exact rank_child_lt a n 1
  · exact rank_lt_of_mem_children ‹_›

/-- The names that a statement binds in the scope it stands in, once it is reached. -/
def reservations (a : Arena) (statement : NodeRef) : List (Namespace × Atom) :=
  let (target, kind) :=
    if a.isKind statement .annotated then (a.child statement 1, a.declaredKind statement)
    else (statement, .plain)
  match a.kind? target with
  | some .varStatement =>
    if (a.flags target).isBlockScoped then
      let names := (a.bindingNames target).map fun b => a.atom (some b)
      names.map (.value, ·) ++ if kind.declaresType then names.map (.type, ·) else []
    else []
  | some .classDeclaration =>
    match a.child target 0 with
    | none => []
    | name => [(.value, a.atom name), (.type, a.atom name)]
  | _ => []

end Arena

end DocTypes
