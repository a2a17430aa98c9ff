import DocTypes.Values.Value

/-!
# The value store

Values are numbered in the order in which they are made, and none is ever removed. Tables of
members are numbered in the same way, each for one value, which knows it. A generic class is
applied to one list of types once: the second time the value of the first is given back.

A number that is asked for to change what it names should name something. One that names nothing
is noted (`ValueStore.missed`), and nothing else happens. Along a run nothing is noted.

## Main statements

* `ValueStore.get?_alloc_self`, `ValueStore.get?_alloc_of_some`: a new value is found
  under its number, and the values before it stay as they are.
* `ValueStore.get?_update`: an update changes one value.
* `ValueStore.newProperty_steps`, `ValueStore.ensureMembers_steps`: what making a property and
  making a table come down to.
-/

namespace DocTypes

/-- A number that names nothing. -/
inductive Missing where
  | value (v : ValueId)
  | table (t : TableId)
  deriving DecidableEq, Repr

/-- The values of one run. -/
structure ValueStore where
  values : Array Value
  /-- The tables of members. -/
  tables : Array MemberTable := #[]
  /-- The name `prototype`. -/
  prototypeName : Atom
  /-- The constructed classes, by what is applied. -/
  applications : Std.TreeMap Application ValueId := {}
  /-- What was to be changed and is not there, the latest first. -/
  missed : List Missing := []

namespace ValueStore

/-- No values. -/
def new (prototypeName : Atom) : ValueStore := { values := #[], prototypeName }

/-- How many values there are. -/
def size (s : ValueStore) : Nat := s.values.size

/-- The values by number. -/
def ids (s : ValueStore) : List ValueId := (List.range s.values.size).map ValueId.atPosition

/-- A value by number. -/
def get? (s : ValueStore) (v : ValueId) : Option Value := v.position?.bind (s.values[·]?)

/-- A table by number. -/
def table? (s : ValueStore) (t : TableId) : Option MemberTable := s.tables[t.index]?

/-- Note that something is not there. -/
def miss (s : ValueStore) (what : Missing) : ValueStore := { s with missed := what :: s.missed }

/-- Add a value under the next number. -/
def alloc (s : ValueStore) (value : Value) : ValueId × ValueStore :=
  (.atPosition s.values.size, { s with values := s.values.push value })

/-- Change one value. -/
def update (s : ValueStore) (v : ValueId) (f : Value → Value) : ValueStore :=
  if (s.get? v).isSome then
    { s with values := s.values.modify (v.index - ValueId.first) f }
  else s.miss (.value v)

/-! ## Questions -/

/-- The class at a number. -/
def class? (s : ValueStore) (v : ValueId) : Option ClassData := (s.get? v).bind Value.class?

/-- The constructed class at a number. -/
def constructed? (s : ValueStore) (v : ValueId) : Option ConstructedData :=
  (s.get? v).bind Value.constructed?

/-- The slot of a variable or property. -/
def slot? (s : ValueStore) (v : ValueId) : Option Slot := (s.get? v).bind Value.slot?

/-- Whether the value is a class or a constructed class. -/
def isClassLike (s : ValueStore) (v : ValueId) : Bool := (s.get? v).any Value.isClassLike

/-- The classes above a class that is finalized. -/
def ancestors? (s : ValueStore) (v : ValueId) : Option (List ValueId) :=
  match s.get? v with
  | some { data := .classValue cls, .. } => if cls.finalized then some cls.ancestors else none
  | some { data := .constructedClass cls, .. } =>
    if cls.finalized then some cls.ancestors else none
  | _ => none

/-- Whether the classes above a class are known. -/
def isFinalized (s : ValueStore) (v : ValueId) : Bool := (s.ancestors? v).isSome

/-- The sort of a class, or of the generic class behind a constructed one. -/
def classKind? (s : ValueStore) (v : ValueId) : Option ClassKind :=
  match s.get? v with
  | some { data := .classValue cls, .. } => some cls.kind
  | some { data := .constructedClass cls, .. } => (s.class? cls.generic).map (·.kind)
  | _ => none

/-- Whether a class is an interface of either sort. -/
def isInterface (s : ValueStore) (v : ValueId) : Bool :=
  (s.classKind? v).any ClassKind.isInterface

/-- The table of a value. -/
def tableOf? (s : ValueStore) (v : ValueId) : Option TableId := (s.get? v).bind (·.table)

/-- The members of a value. -/
def members (s : ValueStore) (v : ValueId) : List (PropertyKey × ValueId) :=
  (((s.tableOf? v).bind s.table?).map (·.entries)).getD []

/-- A member of a value. -/
def property? (s : ValueStore) (v : ValueId) (key : PropertyKey) : Option ValueId :=
  (s.members v).lookup key

/-! ## New values and tables -/

/-- Make a table for a value that has none. -/
def allocTable (s : ValueStore) (owner : ValueId) : TableId × ValueStore :=
  let t : TableId := ⟨s.tables.size⟩
  (t, { s with tables := s.tables.push { owner } }.update owner
    fun value => { value with table := some t })

/-- The table of a value, which is made if there is none. -/
def ensureTable (s : ValueStore) (v : ValueId) : TableId × ValueStore :=
  match s.tableOf? v with
  | some t => (t, s)
  | none => s.allocTable v

/-- Give a value a table of members, if it has none. -/
def ensureMembers (s : ValueStore) (v : ValueId) : ValueStore := (s.ensureTable v).2

/-- The property of a table at a key, which is made if there is none. -/
def newPropertyIn (s : ValueStore) (t : TableId) (key : PropertyKey) (node : NodeRef) :
    ValueId × ValueStore :=
  match s.table? t with
  | none => (.atPosition s.values.size, s.miss (.table t))
  | some table =>
    match table.property? key with
    | some property => (property, s)
    | none =>
      let (property, s) := s.alloc { node, data := .propertySlot key t {} }
      (property, { s with tables := s.tables.modify t.index (.insert key property) })

/-- The member of a value at a key, which is made if there is none. -/
def newProperty (s : ValueStore) (owner : ValueId) (key : PropertyKey) (node : NodeRef) :
    ValueId × ValueStore :=
  let (t, s) := s.ensureTable owner
  s.newPropertyIn t key node

def newVariable (s : ValueStore) (node : NodeRef) (name : Atom) : ValueId × ValueStore :=
  s.alloc { node, data := .variableSlot name {} }

def newFunction (s : ValueStore) (node : NodeRef) : ValueId × ValueStore :=
  s.alloc { node, data := .functionValue }

def newUndefined (s : ValueStore) : ValueId × ValueStore :=
  s.alloc { node := none, data := .undefinedValue }

/-- An object literal, with an empty table. -/
def newObject (s : ValueStore) (node : NodeRef) : ValueId × ValueStore :=
  let (object, s) := s.alloc { node, data := .objectValue }
  (object, (s.allocTable object).2)

/-- A class, with a table that holds its `prototype`, which has a table of its own. -/
def newClass (s : ValueStore) (node : NodeRef) (kind : ClassKind) (name : String)
    (typeParameters : List TypeId) : ValueId × ValueStore :=
  let key := PropertyKey.name s.prototypeName
  let (cls, s) := s.alloc
    { node, data := .classValue { kind, name, typeParameters, prototype := ⟨0⟩ } }
  let (statics, s) := s.allocTable cls
  let (prototype, s) := s.newPropertyIn statics key node
  let s := s.ensureMembers prototype
  (cls, s.update cls (Value.mapClass fun c => { c with prototype }))

/-- A generic class applied to a list of types. -/
def newConstructedClass (s : ValueStore) (node : NodeRef) (generic : ValueId)
    (arguments : ListId) : ValueId × ValueStore :=
  match s.applications[Application.mk generic arguments]? with
  | some v => (v, s)
  | none =>
    let (v, s) := s.alloc { node, data := .constructedClass { generic, arguments } }
    (v, { s with applications := s.applications.insert ⟨generic, arguments⟩ v })

/-! ## Growing slots -/

/-- Note a node that is written to a slot. -/
def addWrite (s : ValueStore) (v : ValueId) (node : NodeRef) : ValueStore :=
  s.update v (Value.mapSlot fun slot => { slot with writes := slot.writes ++ [node] })

/-- Note a node that reads a slot. -/
def addRead (s : ValueStore) (v : ValueId) (node : NodeRef) : ValueStore :=
  s.update v (Value.mapSlot fun slot => { slot with reads := slot.reads ++ [node] })

/-- Change a class. -/
def updateClass (s : ValueStore) (v : ValueId) (f : ClassData → ClassData) : ValueStore :=
  s.update v (Value.mapClass f)

/-- Change a constructed class. -/
def updateConstructed (s : ValueStore) (v : ValueId) (f : ConstructedData → ConstructedData) :
    ValueStore :=
  s.update v (Value.mapConstructed f)

/-! ## Reading back -/

@[simp] theorem get?_alloc_self (s : ValueStore) (value : Value) :
    (s.alloc value).2.get? (s.alloc value).1 = some value := by
  simp [alloc, get?]

theorem get?_alloc_of_some {s : ValueStore} {v : ValueId} {old : Value} (value : Value)
    (h : s.get? v = some old) : (s.alloc value).2.get? v = some old := by
  simp only [get?, alloc, Option.bind_eq_some_iff] at h ⊢
  obtain ⟨i, hi, h⟩ := h
  refine ⟨i, hi, ?_⟩
  obtain ⟨hlt, heq⟩ := Array.getElem?_eq_some_iff.1 h
  rw [Array.getElem?_push_lt hlt, heq]

/-- A new value is found under its number alone. -/
theorem get?_alloc (s : ValueStore) (value : Value) (v : ValueId) :
    (s.alloc value).2.get? v = if v = (s.alloc value).1 then some value else s.get? v := by
  simp only [get?, alloc]
  cases hv : v.position? with
  | none =>
    have hne : v ≠ .atPosition s.values.size := fun h => by simp [h] at hv
    simp [hne]
  | some i =>
    rw [ValueId.position?_eq_some_iff] at hv
    subst hv
    simp only [Option.bind_some, Array.getElem?_push, ValueId.atPosition, ValueId.mk.injEq,
      Nat.add_left_cancel_iff]

theorem get?_miss (s : ValueStore) (what : Missing) (v : ValueId) :
    (s.miss what).get? v = s.get? v := rfl

/-- An update changes one value. -/
theorem get?_update (s : ValueStore) (v w : ValueId) (f : Value → Value) :
    (s.update v f).get? w = if v = w then (s.get? w).map f else s.get? w := by
  unfold update
  by_cases hv : (s.get? v).isSome
  · obtain ⟨value, hvalue⟩ := Option.isSome_iff_exists.1 hv
    obtain ⟨i, hi, -⟩ := Option.bind_eq_some_iff.1 hvalue
    obtain rfl := ValueId.position?_eq_some_iff.1 hi
    have hindex : (ValueId.atPosition i).index - ValueId.first = i := Nat.add_sub_cancel_left ..
    rw [if_pos hv, hindex]
    by_cases hw : ValueId.atPosition i = w
    · subst hw
      simp [get?, Array.getElem?_modify]
    · rw [if_neg hw]
      simp only [get?]
      cases hj : w.position? with
      | none => rfl
      | some j =>
        obtain rfl := ValueId.position?_eq_some_iff.1 hj
        have hij : i ≠ j := fun h => hw (congrArg ValueId.atPosition h)
        rw [Option.bind_some, Option.bind_some, Array.getElem?_modify, if_neg hij]
  · rw [if_neg hv, get?_miss]
    split
    · next heq =>
      subst heq
      rw [Option.not_isSome_iff_eq_none.1 hv, Option.map_none]
    · rfl

/-! ## What an operation comes down to -/

section Steps

variable {R : ValueStore → ValueStore → Prop} (s : ValueStore) (refl : ∀ s, R s s)
  (trans : ∀ {s s' s''}, R s s' → R s' s'' → R s s'')
  (tables : ∀ s tables missed, R s { s with tables, missed })
include refl trans tables

/-- Making a table comes down to adding it and linking its value to it. -/
theorem ensureMembers_steps (v : ValueId)
    (link : ∀ s t, R s (s.update v fun value => { value with table := some t })) :
    R s (s.ensureMembers v) := by
  unfold ensureMembers ensureTable
  split
  · exact refl s
  · exact trans (tables s (s.tables.push { owner := v }) s.missed) (link _ _)

theorem newPropertyIn_steps (t : TableId) (key : PropertyKey) (node : NodeRef)
    (alloc : ∀ s, R s (s.alloc { node, data := .propertySlot key t {} }).2) :
    R s (s.newPropertyIn t key node).2 := by
  unfold newPropertyIn
  split
  · exact tables s s.tables _
  · split
    · exact refl s
    · exact trans (alloc s) (tables _ _ _)

/-- Making a property comes down to making its table, allocating it and entering it. -/
theorem newProperty_steps (owner : ValueId) (key : PropertyKey) (node : NodeRef)
    (alloc : ∀ s t, R s (s.alloc { node, data := .propertySlot key t {} }).2)
    (link : ∀ s t, R s (s.update owner fun value => { value with table := some t })) :
    R s (s.newProperty owner key node).2 :=
  trans (ensureMembers_steps s refl trans tables owner link)
    (newPropertyIn_steps _ refl trans tables _ key node fun s => alloc s _)

end Steps

/-- The first table of a new value. -/
theorem ensureTable_alloc (s : ValueStore) {value : Value} (h : value.table = none) :
    (s.alloc value).2.ensureTable (s.alloc value).1 =
      (s.alloc value).2.allocTable (s.alloc value).1 := by
  have hnone : (s.alloc value).2.tableOf? (s.alloc value).1 = none := by
    rw [tableOf?, get?_alloc_self, Option.bind_some, h]
  rw [ensureTable, hnone]

/-- Making an object comes down to allocating it and making its table. -/
theorem newObject_eq (s : ValueStore) (node : NodeRef) :
    s.newObject node = ((s.alloc { node, data := .objectValue }).1,
      (s.alloc { node, data := .objectValue }).2.ensureMembers
        (s.alloc { node, data := .objectValue }).1) := by
  rw [ensureMembers, ensureTable_alloc s rfl]
  rfl

/-- A class before it has its `prototype`. -/
def allocClass (s : ValueStore) (node : NodeRef) (kind : ClassKind) (name : String)
    (typeParameters : List TypeId) : ValueId × ValueStore :=
  s.alloc { node, data := .classValue { kind, name, typeParameters, prototype := ⟨0⟩ } }

/-- A class with the property `prototype`, which it does not know yet. -/
def allocPrototype (s : ValueStore) (node : NodeRef) (kind : ClassKind) (name : String)
    (typeParameters : List TypeId) : ValueId × ValueStore :=
  (s.allocClass node kind name typeParameters).2.newProperty
    (s.allocClass node kind name typeParameters).1 (.name s.prototypeName) node

/-- Making a class comes down to allocating it, making its `prototype` and linking the two. -/
theorem newClass_eq (s : ValueStore) (node : NodeRef) (kind : ClassKind) (name : String)
    (typeParameters : List TypeId) :
    s.newClass node kind name typeParameters =
      ((s.allocClass node kind name typeParameters).1,
        ((s.allocPrototype node kind name typeParameters).2.ensureMembers
          (s.allocPrototype node kind name typeParameters).1).updateClass
          (s.allocClass node kind name typeParameters).1
          fun c => { c with prototype := (s.allocPrototype node kind name typeParameters).1 }) := by
  unfold allocPrototype newProperty allocClass
  rw [ensureTable_alloc s rfl]
  rfl

end ValueStore

end DocTypes
