import DocTypes.Binding.State

/-!
# References

A reference is looked up from the current scope outward. If a scope binds it, it is bound
at once. If a scope will bind it further on, it is parked in that scope; if no scope says
anything about it, it is parked in the current one. When a scope closes, its parked
references are tried against its own bindings, and those that miss move to the scope
around it. What is left when the outermost scope closes is undefined.
-/

namespace DocTypes

namespace Binder

/-- Bind a reference to a variable. -/
def bindReference (node : NodeRef) (target : ValueId) (assigned : NodeRef) : Bind Unit := do
  Analysis.setValue node target
  Analysis.modifyValues (·.addRead target node)
  if assigned.isSome then Analysis.modifyValues (·.addWrite target assigned)

/-- Park a reference in a scope. -/
def park (id : ScopeId) (p : Parked) : Bind Unit := updateScope id (Scope.park p)

/-- Bind an identifier, or park it. Two names need no binding: `undefined`, and `arguments`
inside a function, which has no value. -/
def visitIdentifier (a : Arena) (node assigned : NodeRef) : Bind (Option ValueId) := do
  let b ← get
  let parked : Parked := { name := a.atom node, node, space := .value, assigned }
  match b.analysis.scopes.lookupVariable b.current parked.name with
  | .bound binding =>
    bindReference node binding.target assigned
    return some binding.target
  | .declared id =>
    park id parked
    return none
  | .unbound =>
    if a.text node = "undefined" then
      Analysis.setValue node b.analysis.undefinedValue
      return some b.analysis.undefinedValue
    let scope := b.analysis.scopes.get? (b.analysis.scopes.nearestFunction b.current)
    if a.text node = "arguments" && scope.any (·.kind = .function) then return none
    park b.current parked
    return none

/-- Look a member up in what its object stands for. With `create` it is made if it is
missing, and the node does not count as a reader. -/
def visitMember (a : Arena) (n : Nat) (object : ValueId) (create : Bool) :
    Bind (Option ValueId) := do
  let name := a.child (some n) 1
  let key := PropertyKey.name (a.atom name)
  let x := (← get).analysis
  let owner := x.denote object
  if create then
    let property ← Analysis.onValues (·.newProperty owner key name)
    Analysis.setValue name property
    Analysis.setValue (some n) property
    return some property
  else
    match x.store.values.property? owner key with
    | none => return none
    | some property =>
      Analysis.setValue name property
      Analysis.setValue (some n) property
      Analysis.modifyValues (·.addRead property (some n))
      return some property

/-- The value of an object or of a dotted path, from its root outward. With `create`, the
last member of the path is made if it is missing. An object of another kind has no value
and is to be visited. -/
def visitPath (a : Arena) (r : NodeRef) (create : Bool) : Bind (Option ValueId × List Work) :=
  match r with
  | none => return (none, [])
  | some n =>
    match a.kind? (some n) with
    | none => return (none, [])
    | some .identifier => return (← visitIdentifier a (some n) none, [])
    | some .memberExpression => do
      let (object?, works) ← visitPath a (a.child (some n) 0) false
      match object? with
      | none => return (none, works)
      | some object => return (← visitMember a n object create, works)
    | some .thisExpression => return (none, [])
    | some _ => return (none, [.visit n])
termination_by r.rank
decreasing_by exact Arena.rank_child_lt a n 0

end Binder

/-! ## Type names in comments -/

namespace Arena

/-- The type names at and below a type expression, from right to left. -/
def typeNamesIn (a : Arena) (r : NodeRef) : List Nat :=
  match r with
  | none => []
  | some n =>
    match a.kind? (some n) with
    | none => []
    | some .typeName => [n]
    | some .recordMember => typeNamesIn a (a.child (some n) 1)
    | some _ => (a.children (some n)).reverse.attach.flatMap fun ⟨c, _⟩ => typeNamesIn a c
termination_by r.rank
decreasing_by
  · exact rank_child_lt a n 1
  · exact rank_lt_of_mem_children (List.mem_reverse.1 ‹_›)

/-- The type names in the tags of a comment, from right to left. -/
def commentTypeNames (a : Arena) (document : NodeRef) : List Nat :=
  (a.typeOperands document).reverse.flatMap fun n => a.typeNamesIn (some n)

end Arena

namespace Binder

/-- Bind a type name, or park it. A dotted name is bound at its root, as a value; the rest is
followed once all values are known. -/
def visitTypeName (a : Arena) (n : Nat) : Bind Unit := do
  let reference := a.child (some n) 0
  match a.kind? reference with
  | some .identifier =>
    if (builtinType? (a.text reference)).isSome then return
    let b ← get
    let parked : Parked := { name := a.atom reference, node := reference, space := .type }
    match b.analysis.scopes.lookupType b.current parked.name with
    | .bound binding => Analysis.setType reference binding.target
    | .declared id => park id parked
    | .unbound => park b.current parked
  | some .memberExpression =>
    let root := a.pathRoot reference
    if a.isKind root .identifier then discard (visitIdentifier a root none)
  | _ => return

/-- Bind the type names of a comment. -/
def visitTypeNames (a : Arena) (document : NodeRef) : Bind Unit :=
  (a.commentTypeNames document).forM (visitTypeName a)

/-! ## Closing scopes -/

/-- The problem of a reference that no scope binds. -/
def unboundProblem : Namespace → Problem
  | .value => .undefinedVariable
  | .type => .undefinedType

/-- Try a parked reference against the bindings of a closing scope. -/
def retry (a : Arena) (reportUndefined : Bool) (scope : Scope) (p : Parked) : Bind Unit := do
  match p.space, scope.boundVariable? p.name, scope.boundType? p.name with
  | .value, some binding, _ => bindReference p.node binding.target p.assigned
  | .type, _, some binding => Analysis.setType p.node binding.target
  | _, _, _ =>
    match scope.outer with
    | some outer => park outer p
    | none => if reportUndefined then Analysis.reportAt a (unboundProblem p.space) p.node

/-- Close the current scope. -/
def exitScope (a : Arena) (reportUndefined : Bool) : Bind Unit := do
  let id := (← get).current
  match (← get).analysis.scopes.get? id with
  | none => pure ()
  | some scope =>
    updateScope id fun s => { s with state := .resolving, parked := #[] }
    scope.parked.toList.forM (retry a reportUndefined scope)
    updateScope id fun s => { s with state := .closed }
    match scope.outer with
    | some outer => modify fun b => { b with current := outer }
    | none => pure ()

end Binder

end DocTypes
