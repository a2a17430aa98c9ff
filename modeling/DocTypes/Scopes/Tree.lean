import DocTypes.Scopes.Scope

/-!
# The tree of scopes

Scopes are numbered in the order in which they are pushed, and each knows the scope around
it. A name is looked up from a scope outward along `ScopeTree.chain`, and the first scope
that binds or reserves it decides.

A scope that is asked for to be changed should be there. Along a run it is.
-/

namespace DocTypes

/-- Where a lookup ended. -/
inductive Lookup (α : Type) where
  | bound (binding : Binding α)
  /-- The scope binds the name further on. -/
  | declared (scope : ScopeId)
  | unbound
  deriving DecidableEq, Repr

/-- The scopes of one run. -/
structure ScopeTree where
  scopes : Array Scope
  /-- What was to be changed and is not there, the latest first. -/
  missed : List ScopeId := []
  deriving Repr

namespace ScopeTree

/-- No scopes. -/
def new : ScopeTree := { scopes := #[] }

/-- How many scopes there are. -/
def size (t : ScopeTree) : Nat := t.scopes.size

/-- Open a scope. -/
def push (t : ScopeTree) (scope : Scope) : ScopeId × ScopeTree :=
  (⟨t.scopes.size⟩, { t with scopes := t.scopes.push scope })

/-- A scope by number. -/
def get? (t : ScopeTree) (id : ScopeId) : Option Scope := t.scopes[id.index]?

/-- Change one scope. A number that names no scope is noted, and nothing else happens. -/
def update (t : ScopeTree) (id : ScopeId) (f : Scope → Scope) : ScopeTree :=
  if (t.get? id).isSome then { t with scopes := t.scopes.modify id.index f }
  else { t with missed := id :: t.missed }

/-- The scope around a scope. -/
def outer? (t : ScopeTree) (id : ScopeId) : Option ScopeId := (t.get? id).bind (·.outer)

/-- A scope and the scopes around it, from the inside out, after at most `steps` steps. -/
def chainIn (t : ScopeTree) : (steps : Nat) → ScopeId → List ScopeId
  | 0, id => [id]
  | steps + 1, id =>
    match t.outer? id with
    | none => [id]
    | some o => id :: t.chainIn steps o

/-- A scope and the scopes around it, from the inside out. No scope is around itself, so
there are no more steps than scopes. -/
def chain (t : ScopeTree) (id : ScopeId) : List ScopeId := t.chainIn t.size id

theorem head?_chainIn (t : ScopeTree) (steps : Nat) (id : ScopeId) :
    (t.chainIn steps id).head? = some id := by
  cases steps with
  | zero => simp [chainIn]
  | succ steps =>
    unfold chainIn
    split <;> simp

/-- A scope is the first on its own chain. -/
theorem head?_chain (t : ScopeTree) (id : ScopeId) : (t.chain id).head? = some id :=
  t.head?_chainIn t.size id

/-- The innermost scope on the chain whose kind is accepted, else the outermost one. -/
def nearest (t : ScopeTree) (id : ScopeId) (accept : ScopeKind → Bool) : ScopeId :=
  match (t.chain id).find? fun s => (t.get? s).any (accept ·.kind) with
  | some s => s
  | none => (t.chain id).getLast?.getD id

/-- The nearest scope for `var` and function declarations. -/
def nearestFunction (t : ScopeTree) (id : ScopeId) : ScopeId :=
  t.nearest id ScopeKind.isFunctionScope

/-- The nearest scope for `let`, `const` and class declarations. -/
def nearestLexical (t : ScopeTree) (id : ScopeId) : ScopeId := t.nearest id ScopeKind.isLexical

/-- What one scope says about a name. -/
def verdict? {α : Type} (t : ScopeTree) (space : Namespace) (name : Atom)
    (bindings : Scope → Bindings α) (id : ScopeId) : Option (Lookup α) :=
  (t.get? id).bind fun scope =>
    match (bindings scope).lookup name with
    | some binding => some (.bound binding)
    | none => if scope.reserves space name then some (.declared id) else none

/-- Look a name up from a scope outward. -/
def lookup {α : Type} (t : ScopeTree) (space : Namespace) (name : Atom)
    (bindings : Scope → Bindings α) (id : ScopeId) : Lookup α :=
  ((t.chain id).findSome? (t.verdict? space name bindings)).getD .unbound

/-- Look a variable up. -/
def lookupVariable (t : ScopeTree) (id : ScopeId) (name : Atom) : Lookup ValueId :=
  t.lookup .value name (·.vars) id

/-- Look a type name up. -/
def lookupType (t : ScopeTree) (id : ScopeId) (name : Atom) : Lookup TypeId :=
  t.lookup .type name (·.types) id

end ScopeTree

end DocTypes
