import DocTypes.Analysis.Denotation

/-!
# Accesses

Numbers of values, of tables of members and of scopes are handed around freely, and many are
used without a look whether they name anything. The functions here use them one at a time, in the
order in which the passes do, and stop with the first that names nothing. What can be asked
without such a risk is asked as everywhere else.

`ValueStore.fetch`, `ValueStore.fetchTable` and `ScopeTree.fetch` are the accesses themselves. The
others are the questions that are made of them: for a member of a value, for a scope or a name
from a scope outward, for what a value or a dotted path stands for.
-/

namespace DocTypes

namespace ValueStore

/-- The value at a number. -/
def fetch (s : ValueStore) (v : ValueId) : Except Missing Value :=
  (s.get? v).elim (.error (.value v)) .ok

/-- The table at a number. -/
def fetchTable (s : ValueStore) (t : TableId) : Except Missing MemberTable :=
  (s.table? t).elim (.error (.table t)) .ok

/-- A member of a value. A number that names no value has no members, but a value's table has to
be there. -/
def fetchMember (s : ValueStore) (v : ValueId) (key : PropertyKey) :
    Except Missing (Option ValueId) :=
  match s.tableOf? v with
  | none => return none
  | some t => return (← s.fetchTable t).property? key

end ValueStore

namespace ScopeTree

/-- The scope at a number. -/
def fetch (t : ScopeTree) (id : ScopeId) : Except ScopeId Scope :=
  (t.get? id).elim (.error id) .ok

/-- Ask one scope after the other, from one outward, until one answers. If none does, `last` answers
for the outermost one. -/
def fetchOutward {α : Type} (t : ScopeTree) (ask : ScopeId → Scope → Option α)
    (last : ScopeId → α) : (steps : Nat) → ScopeId → Except ScopeId α
  | 0, id => .error id
  | steps + 1, id => do
    let scope ← t.fetch id
    match ask id scope, scope.outer with
    | some answer, _ => return answer
    | none, some o => t.fetchOutward ask last steps o
    | none, none => return last id

/-- The innermost scope from one outward whose kind is accepted, else the outermost one. -/
def fetchNearest (t : ScopeTree) (id : ScopeId) (accept : ScopeKind → Bool) :
    Except ScopeId ScopeId :=
  t.fetchOutward (fun id scope => if accept scope.kind then some id else none) (fun id => id)
    t.size id

/-- What the scopes from one outward say about a name. -/
def fetchName {α : Type} (t : ScopeTree) (space : Namespace) (name : Atom)
    (bindings : Scope → Bindings α) (id : ScopeId) : Except ScopeId (Lookup α) :=
  t.fetchOutward
    (fun id scope =>
      match (bindings scope).lookup name with
      | some binding => some (.bound binding)
      | none => if scope.reserves space name then some (.declared id) else none)
    (fun _ => .unbound) t.size id

end ScopeTree

namespace Analysis

/-- Go through the nodes that are written to a slot: on the left the first value that stands for
itself, else on the right the first variable or property that is not the slot's own. -/
def fetchWritten (x : Analysis) (v : ValueId) :
    (found : Option ValueId) → List NodeRef → Except Missing (ValueId ⊕ Option ValueId)
  | found, [] => return .inr found
  | found, site :: rest =>
    match x.valueOf? site with
    | none => x.fetchWritten v found rest
    | some w => do
      match (← x.store.values.fetch w).data with
      | .functionValue | .classValue _ | .constructedClass _ | .objectValue => return .inl w
      | .variableSlot .. | .propertySlot .. =>
        if w ≠ v ∧ found.isNone then x.fetchWritten v (some w) rest
        else x.fetchWritten v found rest
      | .undefinedValue => x.fetchWritten v found rest

/-- What a value stands for, after at most `steps` aliases. -/
def fetchDenoted (x : Analysis) : (steps : Nat) → ValueId → Except Missing ValueId
  | 0, v => return v
  | steps + 1, v =>
    match x.store.values.slot? v with
    | none => return v
    | some slot => do
      match ← x.fetchWritten v none slot.writes with
      | .inl w => return w
      | .inr (some w) => x.fetchDenoted steps w
      | .inr none => return v

/-- The class or constructed class a value stands for. -/
def fetchClass (x : Analysis) (v : ValueId) : Except Missing (Option ValueId) := do
  let denoted ← x.fetchDenoted aliasSteps v
  return if (← x.store.values.fetch denoted).isClassLike then some denoted else none

/-- What an identifier or a dotted path stands for. -/
def fetchPath (x : Analysis) (a : Arena) (r : NodeRef) : Except Missing (Option ValueId) :=
  match r with
  | none => return none
  | some n =>
    match a.kind? (some n) with
    | some .memberExpression => do
      match ← fetchPath x a (a.child (some n) 0) with
      | none => return none
      | some object =>
        x.store.values.fetchMember (← x.fetchDenoted aliasSteps object)
          (.name (a.atom (a.child (some n) 1)))
    | some .identifier => return x.valueOf? (some n)
    | _ => return none
termination_by r.rank
decreasing_by exact Arena.rank_child_lt a n 0

/-- The variable or property that a node stands for. -/
def fetchSlot (x : Analysis) (site : NodeRef) : Except Missing (Option ValueId) :=
  match x.valueOf? site with
  | none => return none
  | some v => return if (← x.store.values.fetch v).slot?.isSome then some v else none

end Analysis

end DocTypes
