import DocTypes.Analysis.Denotation
import DocTypes.Binding.Hoist

/-!
# The walk that binds names

The first pass walks the tree in the order of the text, opens and closes scopes, makes
the values and binds the names. A `Binder` is its state: the analysis so far, the scope
it is in, and the comments it has compiled, each at the node it stands on.
-/

namespace DocTypes

/-- The state of the walk that binds names. -/
structure Binder where
  analysis : Analysis
  current : ScopeId
  /-- The compiled comments, by the node under the comment. -/
  comments : NodeTable DocComment := .empty

/-- A step of the walk. -/
abbrev Bind := StateM Binder

/-- A step of the analysis is a step of the walk. -/
def Bind.onAnalysis {α : Type} (step : Analyze α) : Bind α := fun b =>
  let (result, analysis) := step b.analysis
  (result, { b with analysis })

instance : MonadLift Analyze Bind := ⟨Bind.onAnalysis⟩

/-- What is still to be done: a node to visit, a scope to close, or the type names of a
comment to bind. -/
inductive Work where
  | visit (n : Nat)
  | exitScope
  | typeNames (document : NodeRef)
  deriving DecidableEq, Repr

namespace Work

/-- How far down the work reaches. -/
def rank : Work → Nat
  | .visit n => n + 1
  | .exitScope | .typeNames _ => 0

/-- Visit a node, if it is there. -/
def visit? : NodeRef → List Work
  | none => []
  | some n => [.visit n]

/-- Visit the children of a node. -/
def children (a : Arena) (r : NodeRef) : List Work := (a.presentChildren r).map .visit

end Work

namespace Binder

/-! ## Scopes -/

/-- Change a scope. -/
def updateScope (id : ScopeId) (f : Scope → Scope) : Bind Unit :=
  modify fun b =>
    { b with analysis := { b.analysis with scopes := b.analysis.scopes.update id f } }

/-- Open a scope in the current one. The caller has it closed. -/
def enterScope (kind : ScopeKind) (node : NodeRef) : Bind ScopeId :=
  modifyGet fun b =>
    let (id, scopes) := b.analysis.scopes.push { kind, node, outer := some b.current }
    (id, { b with analysis := { b.analysis with scopes }, current := id })

/-- The scope for `var` and function declarations. -/
def functionScope : Bind ScopeId := do
  let b ← get
  return b.analysis.scopes.nearestFunction b.current

/-- The scope for `let`, `const` and class declarations. -/
def lexicalScope : Bind ScopeId := do
  let b ← get
  return b.analysis.scopes.nearestLexical b.current

/-- The scope for the names of a declaration list. -/
def declarationScope (a : Arena) (statement : NodeRef) : Bind ScopeId :=
  if (a.flags statement).isBlockScoped then lexicalScope else functionScope

/-- Reserve names in a scope. -/
def reserveAll (id : ScopeId) (names : List (Namespace × Atom)) : Bind Unit :=
  names.forM fun (space, name) => updateScope id (Scope.reserve space name)

/-! ## Declarations -/

/-- Bind a name in a scope to a new variable. A name that is bound there keeps its variable,
and the second binding is a problem. -/
def declareVariable (a : Arena) (id : ScopeId) (binding : NodeRef) : Bind ValueId := do
  let name := a.atom binding
  match ((← get).analysis.scopes.get? id).bind (·.boundVariable? name) with
  | some existing =>
    Analysis.reportRelated a .duplicateBinding binding existing.node
    Analysis.setValue binding existing.target
    return existing.target
  | none =>
    let variableId ← Analysis.onValues (·.newVariable binding name)
    updateScope id (Scope.insertVariable name ⟨variableId, binding⟩)
    Analysis.setValue binding variableId
    return variableId

/-- Bind a type name in a scope. A name that is bound there stays as it is, and the second
binding is a problem. -/
def declareType (a : Arena) (id : ScopeId) (nameNode : NodeRef) (t : TypeId) : Bind Unit := do
  let name := a.atom nameNode
  match ((← get).analysis.scopes.get? id).bind (·.boundType? name) with
  | some existing => Analysis.reportRelated a .duplicateBinding nameNode existing.node
  | none => updateScope id (Scope.insertType name ⟨t, nameNode⟩)

/-- Declare one thing that a body declares when it opens. -/
def hoist (a : Arena) (id : ScopeId) : Hoisted → Bind Unit
  | .variableName binding => discard (declareVariable a id (some binding))
  | .functionName function binding => do
    let variableId ← declareVariable a id (some binding)
    Analysis.modifyValues (·.addWrite variableId (some function))
  | .typeName name => updateScope id (Scope.reserve .type name)

/-- Declare what the statements of a function's body, or of the unit, declare when it
opens. -/
def openBody (a : Arena) (id : ScopeId) (statements : List NodeRef) : Bind Unit := do
  (statements.flatMap a.hoisted).forM (hoist a id)
  reserveAll id (statements.flatMap a.reservations)

/-! ## Classes -/

/-- The sort of class a comment declares. -/
def classKind : Option DocComment → ClassKind
  | some x => if x.kind = .interface then (if x.isRecord then .record else .interface)
      else .ordinary
  | none => .ordinary

/-- The bases a class names: the first `@extends`, else the heritage of its body, and every
`@implements`. -/
def baseRefs (a : Arena) (doc : Option DocComment) (heritage : NodeRef) : List BaseRef :=
  let tagged := (doc.bind (·.extendsTags.head?)).bind fun tag => a.typeOperand (some tag)
  let implemented := (doc.map (·.implementsTags)).getD []
  ((tagged.orElse fun _ => heritage).map fun n => ⟨some n, .extending⟩).toList
    ++ implemented.filterMap fun tag =>
      (a.typeOperand (some tag)).map fun n => ⟨some n, .implementing⟩

/-- Make a class at a node and note the bases it names. -/
def declareClass (a : Arena) (site : NodeRef) (name : String) (doc : Option DocComment)
    (heritage reportNode : NodeRef) : Bind ValueId := do
  let x := (← get).analysis
  let typeParameters := ((doc.map (·.typeParameters)).getD []).filterMap fun n =>
    x.typeOf? (some n)
  let cls ← Analysis.onValues (·.newClass site (classKind doc) name typeParameters)
  Analysis.setValue site cls
  let decl : ClassDecl := { cls, node := reportNode, bases := baseRefs a doc heritage }
  modify fun b => { b with analysis := { b.analysis with classes := b.analysis.classes ++ [decl] } }
  return cls

/-- The type of a class's instances. -/
def instanceOf (cls : ValueId) : Bind TypeId := Analysis.onTypes (·.instanceOf cls)

/-- The name that a class defined at a node is known by as a type, and its scope. -/
def classBindingSite (a : Arena) (node : NodeRef) : Bind (Option (NodeRef × ScopeId)) := do
  match a.kind? node with
  | none => return none
  | some .functionDeclaration => return some (a.child node 0, ← functionScope)
  | some .classDeclaration => return some (a.child node 0, ← lexicalScope)
  | some _ =>
    let parent := a.parent node
    if a.isKind parent .varDeclaration && a.child parent 1 = node then
      return some (a.child parent 0, ← declarationScope a (a.parent parent))
    else return none

/-- Bind the type name of a class in the scope its declaration binds in. -/
def bindClassType (a : Arena) (node : NodeRef) (cls : ValueId) : Bind Unit := do
  match ← classBindingSite a node with
  | none => pure ()
  | some (nameNode, scope) => declareType a scope nameNode (← instanceOf cls)

/-- The type of a `@typedef` or `@enum` name. -/
def aliasFor (doc : DocComment) (name : Atom) : Bind TypeId :=
  let slot := if doc.kind = .enum then TagSlot.enumTag else .typedefTag
  Analysis.onTypes (·.aliasOf name (doc.tag slot))

end Binder

end DocTypes
