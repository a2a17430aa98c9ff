import DocTypes.Binding.Reference

/-!
# Visiting nodes

Each kind of node has its own rule: what it declares, which scope it opens, and what is to
be done after it. A rule does not descend by itself. It gives back the work that follows,
in order, and `Binder.perform` does that work next, before anything that was left to do
earlier. A rule only asks for nodes below its own, so the walk ends.
-/

namespace DocTypes

namespace Binder

/-! ## Functions -/

/-- Declare one parameter. Its default value is to be visited. -/
def declareParameter (a : Arena) (id : ScopeId) (param : NodeRef) : Bind (List Work) := do
  match a.kind? param with
  | some .bindingName =>
    discard (declareVariable a id param)
    return []
  | some .bindingWithDefault =>
    let variableId ← declareVariable a id (a.child param 0)
    match a.child param 1 with
    | none => return []
    | init =>
      Analysis.modifyValues (·.addWrite variableId init)
      return Work.visit? init
  | some .restParameter =>
    discard (declareVariable a id (a.child param 0))
    return []
  | _ => return []

/-- Declare the parameters of a function and what its body declares when it opens. -/
def enterBody (a : Arena) (params body : NodeRef) : Bind (List Work) := do
  let id := (← get).current
  let defaults ← (a.children params).mapM (declareParameter a id)
  if a.isKind body .block then
    openBody a id (a.children body)
    return defaults.flatten ++ Work.children a body
  else return defaults.flatten ++ Work.visit? body

/-- The comment that governs the value made at a node. -/
def governingComment (a : Arena) (n : Nat) : Bind (Option DocComment) := do
  let b ← get
  return (a.governingTarget n).bind fun target => b.comments.get? (some target)

/-- Make the value of a function, which is a class if its comment says so. -/
def createFunction (a : Arena) (n : Nat) : Bind Unit := do
  let doc ← governingComment a n
  match doc with
  | some x =>
    if x.kind.isClass then
      let (name, reportNode) := a.declarationName (some n)
      let cls ← declareClass a (some n) name (some x) none reportNode
      bindClassType a (some n) cls
    else
      Analysis.setValue (some n) (← Analysis.onValues (·.newFunction (some n)))
  | none => Analysis.setValue (some n) (← Analysis.onValues (·.newFunction (some n)))

/-- A function declaration, function expression or arrow function. -/
def visitFunction (a : Arena) (n : Nat) (kind : NodeKind) : Bind (List Work) := do
  if ((← get).analysis.valueOf? (some n)).isNone then createFunction a n
  let name := a.child (some n) 0
  if kind = .functionDeclaration && name.isSome then
    if ((← get).analysis.valueOf? name).isNone then
      let variableId ← declareVariable a (← functionScope) name
      Analysis.modifyValues (·.addWrite variableId (some n))
  let id ← enterScope .function (some n)
  if kind = .functionExpression && name.isSome then
    let variableId ← declareVariable a id name
    Analysis.modifyValues (·.addWrite variableId (some n))
  let works ←
    if kind = .arrowFunction then enterBody a (a.child (some n) 0) (a.child (some n) 1)
    else enterBody a (a.child (some n) 1) (a.child (some n) 2)
  return works ++ [.exitScope]

/-- A method: a function that is a member of its class, or of the class's prototype. -/
def visitMethod (a : Arena) (n : Nat) : Bind (List Work) := do
  Analysis.setValue (some n) (← Analysis.onValues (·.newFunction (some n)))
  let x := (← get).analysis
  let name := a.child (some n) 0
  match x.valueOf? (a.enclosingClass (some n)) with
  | none => pure ()
  | some cls =>
    match x.store.values.class? cls with
    | none => pure ()
    | some data =>
      let owner := if (a.flags (some n)).isStatic then cls else data.prototype
      let property ← Analysis.onValues (·.newProperty owner (.name (a.atom name)) name)
      Analysis.setValue name property
      Analysis.modifyValues (·.addWrite property (some n))
  discard (enterScope .function (some n))
  let works ← enterBody a (a.child (some n) 1) (a.child (some n) 2)
  return works ++ [.exitScope]

/-! ## Classes -/

/-- Bind the name of a class as a variable and as a type. -/
def declareClassName (a : Arena) (id : ScopeId) (n : Nat) (name : NodeRef) (cls : ValueId) :
    Bind Unit := do
  let variableId ← declareVariable a id name
  Analysis.modifyValues (·.addWrite variableId (some n))
  declareType a id name (← instanceOf cls)

/-- A class declaration or class expression. The name of an expression is bound inside it
alone. -/
def visitClass (a : Arena) (n : Nat) : Bind (List Work) := do
  let name := a.child (some n) 0
  let heritage := a.child (some n) 1
  let doc ← governingComment a n
  let (className, reportNode) := a.declarationName (some n)
  let cls ← declareClass a (some n) className doc heritage reportNode
  let inner := Work.visit? heritage ++ Work.children a (a.child (some n) 2)
  if a.isKind (some n) .classDeclaration then
    if name.isSome then declareClassName a (← lexicalScope) n name cls
    return inner
  else
    bindClassType a (some n) cls
    if name.isSome then
      let id ← enterScope .block (some n)
      declareClassName a id n name cls
      return inner ++ [.exitScope]
    else return inner

/-! ## Statements -/

/-- What an annotated `var Foo;` declares besides the variable. -/
def declareAnnotated (a : Arena) (doc : DocComment) (id : ScopeId)
    (declaration : NodeRef) (variableId : ValueId) : Bind Unit := do
  let binding := a.child declaration 0
  if doc.kind.isClass then
    let definesItself := (a.kind? (a.child declaration 1)).any fun k =>
      k.isFunctionLike || k.isClassLike
    if !definesItself then
      let cls ← declareClass a declaration (a.text binding) (some doc) none binding
      Analysis.modifyValues (·.addWrite variableId declaration)
      declareType a id binding (← instanceOf cls)
  else if doc.kind.declaresType then
    declareType a id binding (← aliasFor doc (a.atom binding))

/-- One declaration of a list: its initializer, or its pattern, is to be visited. -/
def visitDeclaration (a : Arena) (id : ScopeId) (doc : Option DocComment)
    (declaration : NodeRef) : Bind (List Work × List Work) := do
  let binding := a.child declaration 0
  let init := a.child declaration 1
  if !a.isKind binding .bindingName then return ([], Work.visit? binding)
  let variableId ← match (← get).analysis.valueOf? binding with
    | some variableId => pure variableId
    | none => declareVariable a id binding
  match doc with
  | some x => declareAnnotated a x id declaration variableId
  | none => pure ()
  if init.isSome then Analysis.modifyValues (·.addWrite variableId init)
  return (Work.visit? init, [])

/-- A declaration list. `var` names were declared when the function opened. -/
def visitDeclarations (a : Arena) (n : Nat) : Bind (List Work) := do
  let id ← declarationScope a (some n)
  let doc := (← get).comments.get? (some n)
  let works ← (a.children (some n)).mapM (visitDeclaration a id doc)
  return works.flatMap (·.1) ++ (works.flatMap (·.2)).reverse

/-- A statement under a comment. The names of its `@template` tags are bound around it. -/
def visitAnnotated (a : Arena) (n : Nat) : Bind (List Work) := do
  let document := a.child (some n) 0
  let target := a.child (some n) 1
  let (doc, sink) := DocComment.compile a document target
    (some (← get).analysis.diagnostics)
  modify fun b =>
    { b with analysis :=
      { b.analysis with diagnostics := sink.getD b.analysis.diagnostics } }
  let shape := a.targetKind target
  if !(doc.kind = .type || doc.kind = .plain)
      && (shape = .expression || shape = .other) then
    Analysis.reportAt a .unexpectedComment document
  let generic := !doc.typeParameters.isEmpty
  if generic then
    let id ← enterScope .typeParameters (some n)
    doc.typeParameters.forM fun name => do
      let t ← Analysis.onTypes (·.parameter (a.atom (some name)) (some name))
      Analysis.setType (some name) t
      declareType a id (some name) t
  modify fun b => { b with comments := b.comments.insert target doc }
  return .typeNames document :: (Work.visit? target ++ if generic then [.exitScope] else [])

/-- An expression statement. Under a comment, `ns.Name;` declares a member without a value. -/
def visitExpressionStatement (a : Arena) (n : Nat) : Bind (List Work) := do
  let expression := a.child (some n) 0
  match (← get).comments.get? (some n) with
  | none => return Work.visit? expression
  | some doc =>
    if !a.isKind expression .memberExpression then return Work.visit? expression
    let (property?, works) ← visitPath a expression true
    match property? with
    | none => return works
    | some property =>
      if doc.kind.isClass then
        discard (declareClass a (some n) (a.pathText expression) (some doc) none expression)
        Analysis.modifyValues (·.addWrite property (some n))
      else if doc.kind.declaresType then
        let t ← aliasFor doc (a.atom (a.child expression 1))
        Analysis.nameType property t
      return works

/-! ## Expressions -/

/-- A comment with `@typedef` or `@enum` on `ns.Name = ...;` names a type through the
property. -/
def nameMemberType (a : Arena) (n : Nat) (property : ValueId) : Bind Unit := do
  let statement := a.parent (some n)
  if !a.isKind statement .expressionStatement then return
  match (← get).comments.get? statement with
  | some doc =>
    if doc.kind = .enum || doc.kind = .typedef then
      let t ← aliasFor doc (a.atom (a.child (a.child (some n) 0) 1))
      Analysis.nameType property t
  | none => return

/-- Whether a node is a string or number written out. -/
def isLiteralKey (a : Arena) (r : NodeRef) : Bool :=
  a.isKind r .stringLiteral || a.isKind r .numericLiteral

/-- An assignment. A member that is assigned to is made if it is missing. -/
def visitAssignment (a : Arena) (n : Nat) : Bind (List Work) := do
  let target := a.child (some n) 0
  let value := a.child (some n) 1
  match a.kind? target with
  | none => return Work.visit? value
  | some .identifier =>
    discard (visitIdentifier a target value)
    return Work.visit? value
  | some .memberExpression =>
    let (property?, works) ← visitPath a target true
    match property? with
    | some property =>
      if value.isSome then Analysis.modifyValues (·.addWrite property value)
      nameMemberType a n property
    | none => pure ()
    return works ++ Work.visit? value
  | some .computedMemberExpression =>
    let key := a.child target 1
    let (object?, works) ← visitPath a (a.child target 0) false
    match object?, isLiteralKey a key with
    | some object, true =>
      let owner := (← get).analysis.denote object
      let property ← Analysis.onValues (·.newProperty owner (.computed (a.text key)) key)
      Analysis.setValue target property
      if value.isSome then Analysis.modifyValues (·.addWrite property value)
      return works ++ Work.visit? value
    | _, _ => return Work.visit? key ++ works ++ Work.visit? value
  | some _ => return Work.visit? target ++ Work.visit? value

/-- The key of a member of an object literal. -/
def literalKey (a : Arena) (key : NodeRef) : Option PropertyKey :=
  match a.kind? key with
  | some .propertyName | some .identifier | some .stringLiteral | some .numericLiteral =>
    some (.name (a.atom key))
  | some .computedPropertyName =>
    if isLiteralKey a (a.child key 0) then some (.computed (a.text (a.child key 0))) else none
  | _ => none

/-- A member of an object literal. -/
def visitProperty (a : Arena) (n : Nat) : Bind (List Work) := do
  let key := a.child (some n) 0
  let value := a.child (some n) 1
  let parent := a.parent (some n)
  let literal := if a.isKind parent .annotated then a.parent parent else parent
  match (← get).analysis.valueOf? literal with
  | none => return Work.visit? value
  | some object =>
    match literalKey a key with
    | some propertyKey =>
      let property ← Analysis.onValues (·.newProperty object propertyKey key)
      Analysis.setValue key property
      if value.isSome then Analysis.modifyValues (·.addWrite property value)
      return Work.visit? value
    | none =>
      if a.isKind key .computedPropertyName then
        return Work.visit? (a.child key 0) ++ Work.visit? value
      else return Work.visit? value

/-! ## The walk -/

/-- A block, whose names are its own. -/
def visitBlock (a : Arena) (n : Nat) : Bind (List Work) := do
  let id ← enterScope .block (some n)
  reserveAll id ((a.children (some n)).flatMap a.reservations)
  return Work.children a (some n) ++ [.exitScope]

/-- The handler of a `try`, whose parameter is its own. -/
def visitCatch (a : Arena) (n : Nat) : Bind (List Work) := do
  let id ← enterScope .catchClause (some n)
  let param := a.child (some n) 0
  if param.isSome then discard (declareVariable a id param)
  return Work.visit? (a.child (some n) 1) ++ [.exitScope]

/-- A loop with a head. What the head declares with `let` or `const` belongs to the loop. -/
def visitFor (a : Arena) (n : Nat) : Bind (List Work) := do
  let head := a.child (some n) 0
  if a.isKind head .varStatement && (a.flags head).isBlockScoped then
    let id ← enterScope .forHead (some n)
    reserveAll id ((a.bindingNames head).map fun b => (.value, a.atom (some b)))
    return Work.children a (some n) ++ [.exitScope]
  else return Work.children a (some n)

/-- Visit a node, and give the work that follows. -/
def visit (a : Arena) (n : Nat) : Bind (List Work) := do
  match a.kind? (some n) with
  | none => return []
  | some kind =>
    match kind with
    | .annotated => visitAnnotated a n
    | .varStatement => visitDeclarations a n
    | .functionDeclaration | .functionExpression | .arrowFunction => visitFunction a n kind
    | .method => visitMethod a n
    | .classDeclaration | .classExpression => visitClass a n
    | .block => visitBlock a n
    | .catchClause => visitCatch a n
    | .forStatement | .forInStatement | .forOfStatement => visitFor a n
    | .expressionStatement => visitExpressionStatement a n
    | .assignment => visitAssignment a n
    | .identifier =>
      discard (visitIdentifier a (some n) none)
      return []
    | .memberExpression => return (← visitPath a (some n) false).2
    | .objectLiteral =>
      Analysis.setValue (some n) (← Analysis.onValues (·.newObject (some n)))
      return Work.children a (some n)
    | .property => visitProperty a n
    | .jsDocDocument | .jsDocTag | .jsDocName | .jsDocText | .propertyName | .bindingName
    | .thisExpression => return []
    | _ => if kind.isTypeExpression then return [] else return Work.children a (some n)

/-- Do a piece of work, and all the work that follows from it. -/
def perform (a : Arena) (reportUndefined : Bool) (work : Work) : Bind Unit :=
  match work with
  | .exitScope => exitScope a reportUndefined
  | .typeNames document => visitTypeNames a document
  | .visit n => do
    let works ← visit a n
    works.forM fun next =>
      if _h : next.rank < n + 1 then perform a reportUndefined next else pure ()
termination_by work.rank
decreasing_by exact _h

/-- Bind the names of a unit. -/
def run (a : Arena) (reportUndefined : Bool) (root : NodeRef) : Bind Unit := do
  openBody a (← get).current (a.children root)
  (Work.children a root ++ [Work.exitScope]).forM (perform a reportUndefined)

end Binder

namespace Analysis

/-- The first pass: open the scope of the unit and bind its names. -/
def bindNames (a : Arena) (reportUndefined : Bool) (root : NodeRef) : Analyze Unit := fun x =>
  let (current, scopes) := x.scopes.push { kind := .global, node := root, outer := none }
  let ((), b) := Binder.run a reportUndefined root { analysis := { x with scopes }, current }
  ((), b.analysis)

end Analysis

end DocTypes
