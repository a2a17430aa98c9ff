import DocTypes.Analysis.NodeTable
import DocTypes.Diagnostic
import DocTypes.Scopes.Tree
import DocTypes.Types.Printer

/-!
# The state of an analysis

An `Analysis` is everything a run knows: the values and types it made, the scopes, what
each node stands for and which type it has, the classes that were declared, and the
problems that were found. The passes run one after the other and only add to it.
-/

namespace DocTypes

/-- How a class refers to a base. -/
inductive BaseRelation where
  | extending
  | implementing
  deriving DecidableEq, Repr

/-- The written form of a relation. -/
def BaseRelation.name : BaseRelation → String
  | .extending => "Extends"
  | .implementing => "Implements"

/-- A base as it is written: a type expression, or the heritage of a class body. -/
structure BaseRef where
  node : NodeRef
  relation : BaseRelation
  deriving DecidableEq, Repr

/-- A class declaration, with the bases it names. -/
structure ClassDecl where
  cls : ValueId
  /-- Where problems with the class are reported: at its name if it has one. -/
  node : NodeRef
  bases : List BaseRef
  deriving DecidableEq, Repr

/-- Everything a run knows. -/
structure Analysis where
  store : Store
  /-- The value of the name `undefined`. -/
  undefinedValue : ValueId
  scopes : ScopeTree := .new
  /-- What nodes stand for. -/
  valueTable : NodeTable ValueId := .empty
  /-- The types of nodes. -/
  typeTable : NodeTable TypeId := .empty
  /-- The types that properties name, the latest entry first. -/
  namedTypes : List (ValueId × TypeId) := []
  /-- The declared types of variables and properties, the latest entry first. -/
  declaredTypes : List (ValueId × TypeId) := []
  /-- The classes in the order of declaration. -/
  classes : List ClassDecl := []
  diagnostics : Array Diagnostic := #[]

/-- The type of a name that needs no declaration. -/
def builtinType? : String → Option TypeId
  | "boolean" => some .boolean
  | "number" => some .number
  | "string" => some .string
  | "symbol" => some .symbol
  | "null" => some .null
  | "undefined" | "void" => some .void
  | _ => none

namespace Analysis

/-- The state before the first pass. Its only value is `undefined`. -/
def new (a : Arena) : Analysis :=
  let store := Store.new ((a.atoms.lookup? "prototype").getD .empty)
  let (undefinedValue, values) := store.values.newUndefined
  { store := { store with values }, undefinedValue }

/-- What a node stands for. -/
def valueOf? (x : Analysis) (r : NodeRef) : Option ValueId := x.valueTable.get? r

/-- The type of a node. -/
def typeOf? (x : Analysis) (r : NodeRef) : Option TypeId := x.typeTable.get? r

/-- The type of a node, `TypeId.unspecified` if it has none. -/
def typeOf (x : Analysis) (r : NodeRef) : TypeId := (x.typeOf? r).getD .unspecified

/-- The type a variable or property is declared with. -/
def declaredType? (x : Analysis) (v : ValueId) : Option TypeId := x.declaredTypes.lookup v

/-- The type a property names. -/
def namedType? (x : Analysis) (v : ValueId) : Option TypeId := x.namedTypes.lookup v

/-- What types are written from. -/
def printer (x : Analysis) (a : Arena) : Printer := ⟨x.store, a.atoms⟩

end Analysis

/-! ## Steps -/

/-- A step of an analysis. -/
abbrev Analyze := StateM Analysis

/-- A step on the store is a step of the analysis. -/
def Analyze.onStore {α : Type} (step : StateM Store α) : Analyze α := fun x =>
  let (result, store) := step x.store
  (result, { x with store })

instance : MonadLift (StateM Store) Analyze := ⟨Analyze.onStore⟩

namespace Analysis

/-- A step on the types. -/
def onTypes {α : Type} (f : TypeStore → α × TypeStore) : Analyze α :=
  Analyze.onStore (Store.onTypes f)

/-- A step on the values. -/
def onValues {α : Type} (f : ValueStore → α × ValueStore) : Analyze α :=
  Analyze.onStore (Store.onValues f)

/-- Change the values. -/
def modifyValues (f : ValueStore → ValueStore) : Analyze Unit :=
  onValues fun values => ((), f values)

/-- Note what a node stands for. -/
def setValue (r : NodeRef) (v : ValueId) : Analyze Unit :=
  modify fun x => { x with valueTable := x.valueTable.insert r v }

/-- Note the type of a node. -/
def setType (r : NodeRef) (t : TypeId) : Analyze Unit :=
  modify fun x => { x with typeTable := x.typeTable.insert r t }

/-- Note the type of a node that has none. -/
def setTypeIfNew (r : NodeRef) (t : TypeId) : Analyze Unit :=
  modify fun x => { x with typeTable := x.typeTable.insertIfNew r t }

/-- Note the declared type of a variable or property. -/
def declareType (v : ValueId) (t : TypeId) : Analyze Unit :=
  modify fun x => { x with declaredTypes := (v, t) :: x.declaredTypes }

/-- Note the type a property names. -/
def nameType (v : ValueId) (t : TypeId) : Analyze Unit :=
  modify fun x => { x with namedTypes := (v, t) :: x.namedTypes }

/-- Report a problem. -/
def report (d : Diagnostic) : Analyze Unit :=
  modify fun x => { x with diagnostics := x.diagnostics.push d }

/-- Report a problem at a node. -/
def reportAt (a : Arena) (problem : Problem) (node : NodeRef) : Analyze Unit :=
  report { problem, span := a.span node }

/-- Report a problem at a node that another node explains. -/
def reportRelated (a : Arena) (problem : Problem) (node related : NodeRef) : Analyze Unit :=
  report { problem, span := a.span node, related := some (a.span related) }

end Analysis

end DocTypes
