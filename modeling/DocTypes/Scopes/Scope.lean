import DocTypes.Handle
import DocTypes.Tree.Arena

/-!
# Scopes

A scope binds names, values and types apart. It may also be known to bind a name further
on in the text (`Scope.reserve`), before the binding is there. References that are not
bound yet are parked in a scope until it closes.

A scope should get bindings and parked names while it is open. It notes when it gets one later
(`Scope.overdue`). Along a run none does.
-/

namespace DocTypes

/-- A scope, by number. -/
structure ScopeId where
  index : Nat
  deriving DecidableEq, Repr, Inhabited

/-- What opens a scope. -/
inductive ScopeKind where
  | global
  | function
  | block
  | catchClause
  /-- The head of a loop that declares with `let` or `const`. -/
  | forHead
  /-- The names of a comment's `@template` tags. -/
  | typeParameters
  deriving DecidableEq, Repr

namespace ScopeKind

/-- Scopes that take `var` and function declarations. -/
def isFunctionScope : ScopeKind → Bool
  | .global | .function => true
  | _ => false

/-- Scopes that take `let`, `const` and class declarations. -/
def isLexical : ScopeKind → Bool
  | .typeParameters => false
  | _ => true

/-- Every kind, in the order of declaration. -/
def all : List ScopeKind := [.global, .function, .block, .catchClause, .forHead, .typeParameters]

/-- The written form of a kind. -/
def name : ScopeKind → String
  | .global => "Global"
  | .function => "Function"
  | .block => "Block"
  | .catchClause => "Catch"
  | .forHead => "For"
  | .typeParameters => "TypeParameters"

/-- The kind of a name. -/
def ofName? (s : String) : Option ScopeKind := all.find? (·.name == s)

end ScopeKind

/-- How far a scope's life has come. It takes bindings and parked names while it is open. -/
inductive ScopeState where
  | opened
  /-- Its parked names are being tried again. -/
  | resolving
  | closed
  deriving DecidableEq, Repr

/-- The written form of a state. -/
def ScopeState.name : ScopeState → String
  | .opened => "Open"
  | .resolving => "Resolving"
  | .closed => "Closed"

/-- The two sorts of name. -/
inductive Namespace where
  | value
  | type
  deriving DecidableEq, Repr

/-- The sort of a name. -/
def Namespace.ofName? : String → Option Namespace
  | "Value" => some .value
  | "Type" => some .type
  | _ => none

/-- A reference that found no binding when it was met. -/
structure Parked where
  name : Atom
  node : NodeRef
  space : Namespace
  /-- What is written to the variable, if the reference is the target of an assignment. -/
  assigned : NodeRef := none
  deriving DecidableEq, Repr

/-- What a name stands for, and the node that bound it first. -/
structure Binding (α : Type) where
  target : α
  node : NodeRef
  deriving DecidableEq, Repr

/-- The bindings of one sort, in the order of declaration. -/
abbrev Bindings (α : Type) := List (Atom × Binding α)

/-- Bind a name that is not bound yet. -/
def Bindings.insert {α : Type} (b : Bindings α) (name : Atom) (binding : Binding α) :
    Bindings α :=
  if (b.lookup name).isSome then b else b ++ [(name, binding)]

/-- A scope. -/
structure Scope where
  kind : ScopeKind
  node : NodeRef
  outer : Option ScopeId
  state : ScopeState := .opened
  vars : Bindings ValueId := []
  types : Bindings TypeId := []
  /-- The names that are bound here, now or further on. -/
  reserved : List (Namespace × Atom) := []
  parked : Array Parked := #[]
  /-- Whether a binding or a parked name came when it was not open. -/
  overdue : Bool := false
  deriving Repr

namespace Scope

/-- What a name stands for here. -/
def boundVariable? (s : Scope) (name : Atom) : Option (Binding ValueId) := s.vars.lookup name

/-- What a type name stands for here. -/
def boundType? (s : Scope) (name : Atom) : Option (Binding TypeId) := s.types.lookup name

/-- Note that something comes, which should not be if the scope is not open. -/
def receive (s : Scope) : Scope := { s with overdue := s.overdue || s.state ≠ .opened }

/-- Bind a variable; a binding that is there stays. -/
def insertVariable (name : Atom) (binding : Binding ValueId) (s : Scope) : Scope :=
  { s.receive with vars := s.vars.insert name binding }

/-- Bind a type name; a binding that is there stays. -/
def insertType (name : Atom) (binding : Binding TypeId) (s : Scope) : Scope :=
  { s.receive with types := s.types.insert name binding }

/-- A declaration further on binds the name. -/
def reserve (space : Namespace) (name : Atom) (s : Scope) : Scope :=
  if (space, name) ∈ s.reserved then s else { s with reserved := s.reserved ++ [(space, name)] }

/-- Whether a name is bound here, now or further on. -/
def reserves (s : Scope) (space : Namespace) (name : Atom) : Bool :=
  s.reserved.contains (space, name)

/-- Keep a reference until the scope closes. -/
def park (p : Parked) (s : Scope) : Scope := { s.receive with parked := s.parked.push p }

end Scope

end DocTypes
