import DocTypes.Handle
import DocTypes.Tree.Arena

/-!
# Values

A value is what a node stands for when the program runs, as far as the analysis follows
it: a variable or property, a function, a class, a generic class applied to types, an
object literal, or `undefined`.

Variables and properties are slots: they remember the nodes that are written to them and
the nodes that read them. Any value may own a table of members (`MemberTable`). The value knows
its table and the table knows its value, both by number, and a property knows the table it lies
in.
-/

namespace DocTypes

/-- The key of a property: a name, or the text of a computed key. -/
inductive PropertyKey where
  | name (atom : Atom)
  | computed (text : String)
  deriving DecidableEq, Repr

/-- The sorts of class. -/
inductive ClassKind where
  /-- A constructor function or a class body. -/
  | ordinary
  | interface
  /-- An interface matched by structure. -/
  | record
  deriving DecidableEq, Repr

namespace ClassKind

/-- Interfaces of either sort. -/
def isInterface : ClassKind → Bool
  | .ordinary => false
  | .interface | .record => true

/-- The written form of a sort. -/
def render : ClassKind → String
  | .ordinary => "Class"
  | .interface => "Interface"
  | .record => "Record"

/-- The sort of a written form. -/
def ofName? : String → Option ClassKind
  | "Class" => some .ordinary
  | "Interface" => some .interface
  | "Record" => some .record
  | _ => none

end ClassKind

/-- What a variable or property remembers of its uses, in the order of the walk. -/
structure Slot where
  /-- The nodes whose value is written. -/
  writes : List NodeRef := []
  /-- The nodes that read or name the slot. -/
  reads : List NodeRef := []
  deriving DecidableEq, Repr, Inhabited

/-- A class. -/
structure ClassData where
  kind : ClassKind
  /-- Its name in the source, dotted inside a namespace; empty for an anonymous class. -/
  name : String
  /-- The types of its `@template` names; none for a class that is not generic. -/
  typeParameters : List TypeId
  /-- The property `prototype`, whose members are the instance members. -/
  prototype : ValueId
  /-- The bases that were found, in the order of declaration. -/
  bases : List ValueId := []
  /-- Every class above this one, once `finalized`. -/
  ancestors : List ValueId := []
  finalized : Bool := false
  deriving DecidableEq, Repr

/-- Whether a class takes type arguments. -/
def ClassData.isGeneric (c : ClassData) : Bool := !c.typeParameters.isEmpty

/-- A generic class and a list of types it is applied to. -/
structure Application where
  generic : ValueId
  arguments : ListId
  deriving DecidableEq, Repr

namespace Application

/-- Applications are ordered by their classes, then by their lists. -/
instance : Ord Application where
  compare := compareLex (compareOn fun x => x.generic.index) (compareOn fun x => x.arguments.index)

instance : Std.TransOrd Application := inferInstanceAs (Std.TransCmp
  (compareLex (compareOn fun x : Application => x.generic.index)
    (compareOn fun x : Application => x.arguments.index)))

instance : Std.LawfulEqOrd Application where
  eq_of_compare {x y} h := by
    obtain ⟨hgeneric, harguments⟩ := compareLex_eq_eq.1 h
    have hcls : x.generic.index = y.generic.index := Std.LawfulEqOrd.eq_of_compare hgeneric
    have hlist : x.arguments.index = y.arguments.index := Std.LawfulEqOrd.eq_of_compare harguments
    obtain ⟨⟨g⟩, ⟨l⟩⟩ := x
    obtain ⟨⟨k⟩, ⟨m⟩⟩ := y
    simp_all

end Application

/-- A generic class applied to types. -/
structure ConstructedData where
  generic : ValueId
  arguments : ListId
  /-- Every class above this one, once `finalized`. -/
  ancestors : List ValueId := []
  finalized : Bool := false
  deriving DecidableEq, Repr

/-- What a value is. -/
inductive ValueData where
  | variableSlot (name : Atom) (slot : Slot)
  /-- A property, with its key and the table it lies in. -/
  | propertySlot (key : PropertyKey) (owner : TableId) (slot : Slot)
  | functionValue
  | classValue (cls : ClassData)
  | constructedClass (cls : ConstructedData)
  | objectValue
  | undefinedValue
  deriving DecidableEq, Repr

/-- A value, the node that defines it, and its table of members if it has one. -/
structure Value where
  node : NodeRef
  table : Option TableId := none
  data : ValueData
  deriving DecidableEq, Repr

/-- A table of members: the value it belongs to, and a property under each key, in the order in
which they were added. -/
structure MemberTable where
  owner : ValueId
  entries : List (PropertyKey × ValueId) := []
  deriving DecidableEq, Repr

namespace MemberTable

/-- The property under a key. -/
def property? (t : MemberTable) (key : PropertyKey) : Option ValueId := t.entries.lookup key

/-- Put a property under a key that has none. -/
def insert (key : PropertyKey) (property : ValueId) (t : MemberTable) : MemberTable :=
  { t with entries := t.entries ++ [(key, property)] }

end MemberTable

namespace Value

/-- The slot of a variable or property. -/
def slot? (v : Value) : Option Slot :=
  match v.data with
  | .variableSlot _ slot | .propertySlot _ _ slot => some slot
  | _ => none

/-- The class, if the value is one. -/
def class? (v : Value) : Option ClassData :=
  match v.data with
  | .classValue cls => some cls
  | _ => none

/-- The constructed class, if the value is one. -/
def constructed? (v : Value) : Option ConstructedData :=
  match v.data with
  | .constructedClass cls => some cls
  | _ => none

/-- Classes and constructed classes. -/
def isClassLike (v : Value) : Bool := v.class?.isSome || v.constructed?.isSome

/-- The written form of what a value is. -/
def kindName (v : Value) : String :=
  match v.data with
  | .variableSlot .. => "Variable"
  | .propertySlot .. => "Property"
  | .functionValue => "Function"
  | .classValue _ => "Class"
  | .constructedClass _ => "ConstructedClass"
  | .objectValue => "OrdinaryObject"
  | .undefinedValue => "Undefined"

/-- The value with its slot changed, if it has one. -/
def mapSlot (f : Slot → Slot) (v : Value) : Value :=
  match v.data with
  | .variableSlot name slot => { v with data := .variableSlot name (f slot) }
  | .propertySlot key owner slot => { v with data := .propertySlot key owner (f slot) }
  | _ => v

/-- The value with its class changed, if it is one. -/
def mapClass (f : ClassData → ClassData) (v : Value) : Value :=
  match v.data with
  | .classValue cls => { v with data := .classValue (f cls) }
  | _ => v

/-- The value with its constructed class changed, if it is one. -/
def mapConstructed (f : ConstructedData → ConstructedData) (v : Value) : Value :=
  match v.data with
  | .constructedClass cls => { v with data := .constructedClass (f cls) }
  | _ => v

end Value

end DocTypes
