import DocTypes.Comment.Compile
import DocTypes.Hierarchy.Linearize
import DocTypes.Signature.Declared
import DocTypes.Tree.Preorder
import DocTypes.Typing.Receiver
import DocTypes.Typing.Sites

/-!
# Types of nodes

The third pass. It walks the tree from the top and gives a type to every commented
declaration, every function, every class and every literal. What is declared at a name
also becomes the declared type of its variable or property, and at the end every reference
to a variable or property gets the type it is declared with.

A node that has a type keeps it, so the comment on a declaration is seen before the
declaration itself.
-/

namespace DocTypes

namespace Typing

/-- The variable or property that a node stands for. -/
def slotAt? (x : Analysis) (site : NodeRef) : Option ValueId :=
  (x.valueOf? site).filter fun v => (x.store.values.slot? v).isSome

/-- Give a site its type, and its variable or property the declared type. -/
def register (site : NodeRef) (t : TypeId) : Analyze Unit := do
  Analysis.setType site t
  match slotAt? (← get) site with
  | some v => Analysis.declareType v t
  | none => pure ()

/-- Give a site a type and its variable or property a declared type, where there is none. -/
def registerIfNew (site : NodeRef) (t : TypeId) : Analyze Unit := do
  Analysis.setTypeIfNew site t
  let x ← get
  match slotAt? x site with
  | some v => if (x.declaredType? v).isNone then Analysis.declareType v t
  | none => pure ()

/-! ## Functions and classes -/

/-- Type a function that has no comment. -/
def function (a : Arena) (node : NodeRef) : Analyze Unit := do
  if ((← get).typeOf? node).isSome then return
  let receiver ← Analysis.receiverType? a node
  let t ← Signature.plainFunctionType a { function := node, receiver }
  Analysis.setType node t
  if a.isKind node .functionDeclaration || a.isKind node .method then
    registerIfNew (a.child node 0) t

/-- The type of a class body: that of its instances for an interface, and that of its
constructor for a class. The comment on the constructor comes before the one on the
class. -/
def classType (a : Arena) (node : NodeRef) (cls : ValueId) (doc : Option DocComment) :
    Analyze TypeId := do
  if doc.any (·.kind = .interface) then Analysis.onTypes (·.instanceOf cls)
  else
    let (function, document) := a.constructorMethod node
    let doc :=
      if document.isSome then some (DocComment.silent a document function) else doc
    let t ← Signature.constructorType a doc { function, cls := some cls }
    if function.isSome then Analysis.setType function t
    return t

/-- Type a class body. -/
def classBody (a : Arena) (node : NodeRef) (doc : Option DocComment) :
    Analyze TypeId := do
  let x ← get
  match x.typeOf? node, x.classAt? node with
  | some t, _ => return t
  | none, none => return .unspecified
  | none, some cls =>
    let t ← classType a node cls doc
    Analysis.setType node t
    if (a.child node 0).isSome then register (a.child node 0) t
    return t

/-! ## Commented declarations -/

/-- Type the members of an enumeration, if it is an object literal. -/
def enumMembers (a : Arena) (site : NodeRef) (t : TypeId) : Analyze Unit := do
  let element := ((← get).store.types.aliasTarget? t).getD .unspecified
  (a.propertyKeys (a.objectInitializer site)).forM fun key => register key element

/-- Type the sites of an alias. Each has an alias of its own name. -/
def aliasSites (a : Arena) (doc : DocComment) (d : Declaration) :
    List Nat → Analyze Unit
  | [] => return
  | site :: rest => do
    let t ← Signature.declaredType a doc { d with name := a.siteName (some site) }
    Analysis.setType (some site) t
    if doc.kind = .enum then enumMembers a (some site) t
    aliasSites a doc d rest

/-- Type a declaration that makes no alias: its function, the node of its class and its
sites, or, if it has no sites, the expression of a cast. -/
def plainSites (a : Arena) (doc : DocComment) (d : Declaration) (sites : List Nat) :
    Analyze Unit := do
  let name := (sites.head?.map fun site => a.siteName (some site)).getD .empty
  let t ← Signature.declaredType a doc { d with name }
  if d.function.isSome then Analysis.setType d.function t
  let values := (← get).store.values
  match d.cls with
  | some cls => Analysis.setType ((values.get? cls).bind (·.node)) t
  | none => pure ()
  sites.forM fun site => register (some site) t
  if sites.isEmpty && doc.kind = .type then
    Analysis.setType (a.castExpression doc.target) t

/-- Type a declaration that defines no class body. -/
def declaration (a : Arena) (doc : DocComment) (function : NodeRef) (sites : List Nat) :
    Analyze Unit := do
  let cls := (← get).declaredClass? a doc.target
  let receiver ← if function.isSome then Analysis.receiverType? a function else pure none
  let d : Declaration := { function, cls, receiver }
  match doc.kind with
  | .typedef | .enum => aliasSites a doc d sites
  | _ => plainSites a doc d sites

/-- Type the type expressions of a comment that the declaration did not use. -/
def remainingOperands (a : Arena) (document : NodeRef) : Analyze Unit :=
  (a.tags document).forM fun tag => do
    let operand := a.typeOperand (some tag)
    if operand.isSome && ((← get).typeOf? operand).isNone then
      let position : Position := if a.text (some tag) == "param" then .parameter else .plain
      let _ ← TypeExpr.transform a operand position

/-- Type a commented declaration. A constructor method has the type of its class already. -/
def annotated (a : Arena) (node : NodeRef) : Analyze Unit := do
  let document := a.child node 0
  let target := a.child node 1
  let doc := DocComment.silent a document target
  let function := a.definedFunction target
  if function.isNone || ((← get).typeOf? function).isNone then
    let sites := a.declarationSites target
    match a.definedClass target with
    | some cls =>
      let t ← classBody a (some cls) (some doc)
      sites.forM fun site => register (some site) t
    | none => declaration a doc function sites
  remainingOperands a document

/-! ## The pass -/

/-- The type of a literal. -/
def literalType? : NodeKind → Option TypeId
  | .numericLiteral => some .number
  | .stringLiteral => some .string
  | .booleanLiteral => some .boolean
  | .nullLiteral => some .null
  | _ => none

/-- Type one node. -/
def visit (a : Arena) (n : Nat) : Analyze Unit := do
  match a.kind? (some n) with
  | none => return
  | some .annotated => annotated a (some n)
  | some .classDeclaration | some .classExpression =>
    let _ ← classBody a (some n) none
  | some .identifier =>
    let x ← get
    if x.valueOf? (some n) = some x.undefinedValue then Analysis.setTypeIfNew (some n) .void
  | some kind =>
    if kind.isFunctionLike then function a (some n)
    else match literalType? kind with
      | some t => Analysis.setTypeIfNew (some n) t
      | none => return

/-- Give the references to a variable or property the type it is declared with. -/
def propagate (v : ValueId) : Analyze Unit := do
  let x ← get
  match x.declaredType? v, x.store.values.slot? v with
  | some t, some slot => slot.reads.forM fun node => Analysis.setTypeIfNew node t
  | _, _ => return

/-- Give types to the nodes of a tree. -/
def run (a : Arena) (root : NodeRef) : Analyze Unit := do
  (a.preorder (fun n => a.isKind (some n) .jsDocDocument) root).forM (visit a)
  (← get).store.values.ids.forM propagate
  Analyze.onStore Store.finalizeAllConstructed

end Typing

end DocTypes
