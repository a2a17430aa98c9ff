import Std.Data.TreeMap

/-!
# Handles

Types, lists of types, signatures, values and tables of members are stored once and named by
number. The numbers of types and values are visible in dumps: values count from `ValueId.first`,
interned types from `TypeId.firstInterned`, and the few numbers below that are the intrinsic
types, which every run has. The other numbers count from zero.

Types and values are ordered by their numbers.
-/

namespace DocTypes

/-- A type, by number. -/
structure TypeId where
  index : Nat
  deriving DecidableEq, Repr, Inhabited

/-- An interned list of types, by number. -/
structure ListId where
  index : Nat
  deriving DecidableEq, Repr, Inhabited

/-- The signature of a function, by number. -/
structure ShapeId where
  index : Nat
  deriving DecidableEq, Repr, Inhabited

/-- A table of members, by number. -/
structure TableId where
  index : Nat
  deriving DecidableEq, Repr, Inhabited

/-- A value, by number. -/
structure ValueId where
  index : Nat
  deriving DecidableEq, Repr, Inhabited

instance : Ord TypeId := ⟨compareOn TypeId.index⟩

instance : Std.TransOrd TypeId := inferInstanceAs (Std.TransCmp (compareOn TypeId.index))

instance : Std.LawfulEqOrd TypeId where
  eq_of_compare {t u} h := by
    have hindex : t.index = u.index := Std.LawfulEqOrd.eq_of_compare h
    cases t
    cases u
    simpa using hindex

instance : Ord ValueId := ⟨compareOn ValueId.index⟩

instance : Std.TransOrd ValueId := inferInstanceAs (Std.TransCmp (compareOn ValueId.index))

instance : Std.LawfulEqOrd ValueId where
  eq_of_compare {v w} h := by
    have hindex : v.index = w.index := Std.LawfulEqOrd.eq_of_compare h
    cases v
    cases w
    simpa using hindex

namespace TypeId

/-- Every value. -/
def any : TypeId := ⟨0⟩

/-- A type expression that has no meaning. -/
def invalid : TypeId := ⟨1⟩

/-- The union of nothing. -/
def nil : TypeId := ⟨2⟩

def null : TypeId := ⟨3⟩

def void : TypeId := ⟨4⟩

/-- No type is declared, or none was found. -/
def unspecified : TypeId := ⟨5⟩

def boolean : TypeId := ⟨6⟩

def number : TypeId := ⟨7⟩

def string : TypeId := ⟨8⟩

def symbol : TypeId := ⟨9⟩

/-- The number of the first type that is interned. -/
def firstInterned : Nat := 1000

/-- Whether the number is one of those kept for intrinsic types. -/
def isIntrinsic (t : TypeId) : Bool := t.index < firstInterned

/-- Whether this is one of the primitive types. -/
def isPrimitive (t : TypeId) : Bool := boolean.index ≤ t.index && t.index ≤ symbol.index

end TypeId

namespace ListId

/-- The list without types. -/
def empty : ListId := ⟨0⟩

end ListId

namespace ValueId

/-- The number of the first value. -/
def first : Nat := 1000

/-- The position of a value in its store; none for a number below the first. -/
def position? (v : ValueId) : Option Nat := if first ≤ v.index then some (v.index - first) else none

/-- The value at a position of a store. -/
def atPosition (n : Nat) : ValueId := ⟨first + n⟩

@[simp] theorem position?_atPosition (n : Nat) : (atPosition n).position? = some n := by
  simp [position?, atPosition]

theorem position?_eq_some_iff {v : ValueId} {n : Nat} :
    v.position? = some n ↔ v = atPosition n := by
  cases v
  simp only [position?, atPosition, Option.ite_none_right_eq_some, Option.some.injEq, mk.injEq]
  omega

end ValueId

end DocTypes
