import DocTypes.Tree.Load

/-!
# Building trees by hand

A `Builder` makes trees without a source text and lays them out as it goes: a leaf is
as wide as its text (at least one character) and is followed by one blank, and an
inner node spans its present children. Where a node has no present child it takes one
position of its own.

The functions below the first section are the shapes of the language, one for each way
to write a node.
-/

namespace DocTypes

/-- A tree under construction and the next free offset. -/
structure Builder where
  arena : Arena
  cursor : Nat

/-- A step that builds. -/
abbrev Build := StateM Builder

namespace Builder

/-- Nothing built yet. -/
def new : Builder := ⟨Arena.empty, 0⟩

/-! ## Leaves and inner nodes -/

/-- The atom of a text. -/
def intern (text : String) : Build Atom := fun b =>
  let (atom, arena) := b.arena.intern text
  (atom, { b with arena })

/-- Add a node at a span that is already known. -/
def place (kind : NodeKind) (flags : Flags) (span : Span) (atom : Atom)
    (children : List NodeRef) : Build NodeRef := fun b =>
  let (n, arena) := b.arena.addNode kind flags span atom children
  (some n, { b with arena })

/-- Take `width` positions and the blank after them, and give where they begin. -/
def advance (width : Nat) : Build Nat := fun b =>
  (b.cursor, { b with cursor := b.cursor + width + 1 })

/-- A leaf that holds a text. -/
def leaf (kind : NodeKind) (flags : Flags) (text : String) : Build NodeRef := do
  let atom ← intern text
  let width := max text.length 1
  let start ← advance width
  place kind flags ⟨start, start + width⟩ atom []

/-- An inner node over its children. -/
def node (kind : NodeKind) (flags : Flags) (atom : Atom) (children : List NodeRef) :
    Build NodeRef := do
  let arena := (← get).arena
  match Span.coverAll? (children.filterMap fun c => (arena.node? c).map (·.span)) with
  | some span => place kind flags span atom children
  | none =>
    let start ← advance 1
    place kind flags ⟨start, start + 1⟩ atom children

/-- An inner node without flags and name. -/
def simple (kind : NodeKind) (children : List NodeRef) : Build NodeRef :=
  node kind Flags.empty Atom.empty children

/-- A leaf without flags. -/
def plainLeaf (kind : NodeKind) (text : String) : Build NodeRef := leaf kind Flags.empty text

/-! ## Units -/

def script (statements : List NodeRef) : Build NodeRef := simple .script statements

def moduleUnit (statements : List NodeRef) : Build NodeRef := simple .moduleUnit statements

def externs (statements : List NodeRef) : Build NodeRef := simple .externs statements

/-! ## Names and literals -/

def identifier (name : String) : Build NodeRef := plainLeaf .identifier name

def bindingName (name : String) : Build NodeRef := plainLeaf .bindingName name

def propertyName (name : String) : Build NodeRef := plainLeaf .propertyName name

def number (text : String) : Build NodeRef := plainLeaf .numericLiteral text

def string (text : String) : Build NodeRef := plainLeaf .stringLiteral text

def boolean (value : Bool) : Build NodeRef :=
  if value then leaf .booleanLiteral { isTrue := true } "true"
  else plainLeaf .booleanLiteral "false"

def null : Build NodeRef := plainLeaf .nullLiteral "null"

def thisExpression : Build NodeRef := plainLeaf .thisExpression "this"

/-! ## Declarations -/

def declaration (name init : NodeRef) : Build NodeRef := simple .varDeclaration [name, init]

def declarationList (flags : Flags) (declarations : List NodeRef) : Build NodeRef :=
  node .varStatement flags Atom.empty declarations

/-- A declaration list of one name. -/
def declare (flags : Flags) (name : String) (init : NodeRef) : Build NodeRef := do
  let binding ← bindingName name
  let declaration ← declaration binding init
  declarationList flags [declaration]

def varStatement (name : String) (init : NodeRef) : Build NodeRef :=
  declare Flags.empty name init

def letStatement (name : String) (init : NodeRef) : Build NodeRef :=
  declare { letList := true } name init

def constStatement (name : String) (init : NodeRef) : Build NodeRef :=
  declare { constList := true } name init

def parameters (list : List NodeRef) : Build NodeRef := simple .parameterList list

def defaultParameter (name : String) (init : NodeRef) : Build NodeRef := do
  simple .bindingWithDefault [← bindingName name, init]

def restParameter (name : String) : Build NodeRef := do
  simple .restParameter [← bindingName name]

/-- A parameter list of plain names. -/
def parameterNames (names : List String) : Build NodeRef := do
  parameters (← names.mapM bindingName)

def block (statements : List NodeRef) : Build NodeRef := simple .block statements

/-- The binding of an optional name. -/
def bindingName? : Option String → Build NodeRef
  | some name => bindingName name
  | none => pure none

def functionDeclaration (name : String) (params : NodeRef) (body : List NodeRef) :
    Build NodeRef := do
  let binding ← bindingName name
  let body ← block body
  simple .functionDeclaration [binding, params, body]

def functionExpression (name : Option String) (params : NodeRef) (body : List NodeRef) :
    Build NodeRef := do
  let binding ← bindingName? name
  let body ← block body
  simple .functionExpression [binding, params, body]

def arrowFunction (params body : NodeRef) : Build NodeRef := simple .arrowFunction [params, body]

def classDeclaration (name : String) (heritage : NodeRef) (members : List NodeRef) :
    Build NodeRef := do
  let binding ← bindingName name
  let body ← simple .classBody members
  simple .classDeclaration [binding, heritage, body]

def classExpression (name : Option String) (heritage : NodeRef) (members : List NodeRef) :
    Build NodeRef := do
  let binding ← bindingName? name
  let body ← simple .classBody members
  simple .classExpression [binding, heritage, body]

def method (name : String) (flags : Flags) (params : NodeRef) (body : List NodeRef) :
    Build NodeRef := do
  let name ← propertyName name
  let body ← block body
  node .method flags Atom.empty [name, params, body]

/-- A declaration under its documentation comment. -/
def annotated (document target : NodeRef) : Build NodeRef := simple .annotated [document, target]

/-! ## Statements -/

def expressionStatement (expression : NodeRef) : Build NodeRef :=
  simple .expressionStatement [expression]

def ifStatement (condition consequent alternative : NodeRef) : Build NodeRef :=
  simple .ifStatement [condition, consequent, alternative]

def forStatement (init condition update body : NodeRef) : Build NodeRef :=
  simple .forStatement [init, condition, update, body]

def forInStatement (binding object body : NodeRef) : Build NodeRef :=
  simple .forInStatement [binding, object, body]

def forOfStatement (binding iterable body : NodeRef) : Build NodeRef :=
  simple .forOfStatement [binding, iterable, body]

def whileStatement (condition body : NodeRef) : Build NodeRef :=
  simple .whileStatement [condition, body]

def returnStatement (expression : NodeRef) : Build NodeRef :=
  simple .returnStatement [expression]

def throwStatement (expression : NodeRef) : Build NodeRef := simple .throwStatement [expression]

def tryStatement (body handler finalizer : NodeRef) : Build NodeRef :=
  simple .tryStatement [body, handler, finalizer]

def catchClause (name : Option String) (body : List NodeRef) : Build NodeRef := do
  let binding ← bindingName? name
  let body ← block body
  simple .catchClause [binding, body]

def emptyStatement : Build NodeRef := plainLeaf .emptyStatement ";"

/-! ## Expressions -/

def member (object : NodeRef) (name : String) : Build NodeRef := do
  simple .memberExpression [object, ← propertyName name]

/-- A dotted path as nested member expressions over an identifier. -/
def path (dotted : String) : Build NodeRef := do
  match dotted.splitOn "." with
  | [] => identifier ""
  | root :: members => members.foldlM member (← identifier root)

def computedMember (object key : NodeRef) : Build NodeRef :=
  simple .computedMemberExpression [object, key]

def assignment (target value : NodeRef) : Build NodeRef := do
  node .assignment Flags.empty (← intern "=") [target, value]

def binary (operator : String) (left right : NodeRef) : Build NodeRef := do
  node .binary Flags.empty (← intern operator) [left, right]

def call (callee : NodeRef) (arguments : List NodeRef) : Build NodeRef :=
  simple .call (callee :: arguments)

def newExpression (callee : NodeRef) (arguments : List NodeRef) : Build NodeRef :=
  simple .newExpression (callee :: arguments)

def object (properties : List NodeRef) : Build NodeRef := simple .objectLiteral properties

def property (name : String) (value : NodeRef) : Build NodeRef := do
  simple .property [← propertyName name, value]

def computedProperty (key value : NodeRef) : Build NodeRef := do
  simple .property [← simple .computedPropertyName [key], value]

def array (elements : List NodeRef) : Build NodeRef := simple .arrayLiteral elements

/-! ## Documentation comments -/

def document (parts : List NodeRef) : Build NodeRef := simple .jsDocDocument parts

/-- A tag, named without its `@`. It starts where its name does and covers its operands. -/
def tag (name : String) (operands : List NodeRef) : Build NodeRef := do
  let atom ← intern name
  let start ← advance (name.length + 1)
  let arena := (← get).arena
  let stop := (operands.filterMap fun o => (arena.node? o).map (·.span.stop)).foldl max
    (start + name.length + 1)
  place .jsDocTag Flags.empty ⟨start, stop⟩ atom operands

def documentName (name : String) : Build NodeRef := plainLeaf .jsDocName name

def documentText (text : String) : Build NodeRef := plainLeaf .jsDocText text

/-! ## Type expressions -/

def anyType : Build NodeRef := plainLeaf .anyType "*"

def unknownType : Build NodeRef := plainLeaf .unknownType "?"

def voidType : Build NodeRef := plainLeaf .voidType "void"

/-- A type name, which may be dotted. -/
def typeName (dotted : String) : Build NodeRef := do
  simple .typeName [← path dotted]

def typeApplication (name : String) (arguments : List NodeRef) : Build NodeRef := do
  simple .typeApplication ((← typeName name) :: arguments)

def nullableType (type : NodeRef) : Build NodeRef := simple .nullableType [type]

def nonNullableType (type : NodeRef) : Build NodeRef := simple .nonNullableType [type]

def optionalType (type : NodeRef) : Build NodeRef := simple .optionalType [type]

def restType (type : NodeRef) : Build NodeRef := simple .restType [type]

def unionType (members : List NodeRef) : Build NodeRef := simple .unionType members

def tupleType (members : List NodeRef) : Build NodeRef := simple .tupleType members

def recordType (members : List NodeRef) : Build NodeRef := simple .recordType members

def recordMember (label : String) (type : NodeRef) : Build NodeRef := do
  simple .recordMember [← propertyName label, type]

/-- A wrapped receiver type in front of the parameters, if there is one. -/
def receiver (kind : NodeKind) : NodeRef → Build (List NodeRef)
  | none => pure []
  | type => do return [← simple kind [type]]

/-- A function type. `this` and `new` types stand in front of the parameters. -/
def functionType (thisType newType : NodeRef) (params : List NodeRef) (result : NodeRef) :
    Build NodeRef := do
  let this ← receiver .thisType thisType
  let new ← receiver .newType newType
  let params ← simple .functionTypeParameters (this ++ new ++ params)
  simple .functionType [params, result]

end Builder

end DocTypes
