/-!
# Node flags

Modifiers of a node: how a declaration list binds (`let`, `const`), what a class
member is (`static`, an accessor), how a function runs, and the value of a
boolean literal. A set of flags is eight truth values, so two sets with the same
members are the same set.
-/

namespace DocTypes

/-- A set of node modifiers. -/
structure Flags where
  letList : Bool := false
  constList : Bool := false
  isStatic : Bool := false
  getter : Bool := false
  setter : Bool := false
  isAsync : Bool := false
  generator : Bool := false
  isTrue : Bool := false
  deriving DecidableEq, Repr, Inhabited

namespace Flags

/-- No flag. -/
def empty : Flags := {}

/-- Every flag of either set. -/
def union (f g : Flags) : Flags where
  letList := f.letList || g.letList
  constList := f.constList || g.constList
  isStatic := f.isStatic || g.isStatic
  getter := f.getter || g.getter
  setter := f.setter || g.setter
  isAsync := f.isAsync || g.isAsync
  generator := f.generator || g.generator
  isTrue := f.isTrue || g.isTrue

/-- Whether a declaration list binds in the nearest block rather than the nearest function. -/
def isBlockScoped (f : Flags) : Bool := f.letList || f.constList

/-- The flags of a name; `BLOCK_SCOPED` names two at once. -/
def ofName? : String → Option Flags
  | "LET" => some { letList := true }
  | "CONST" => some { constList := true }
  | "STATIC" => some { isStatic := true }
  | "GETTER" => some { getter := true }
  | "SETTER" => some { setter := true }
  | "ASYNC" => some { isAsync := true }
  | "GENERATOR" => some { generator := true }
  | "TRUE" => some { isTrue := true }
  | "BLOCK_SCOPED" => some { letList := true, constList := true }
  | _ => none

/-- The names of the flags that are set, each flag once, in the order of declaration. -/
def names (f : Flags) : List String :=
  [(f.letList, "LET"), (f.constList, "CONST"), (f.isStatic, "STATIC"), (f.getter, "GETTER"),
    (f.setter, "SETTER"), (f.isAsync, "ASYNC"), (f.generator, "GENERATOR"),
    (f.isTrue, "TRUE")].filterMap fun (isSet, name) => if isSet then some name else none

theorem union_assoc (f g h : Flags) : (f.union g).union h = f.union (g.union h) := by
  simp [union, Bool.or_assoc]

@[simp] theorem union_empty (f : Flags) : f.union empty = f := by
  simp [union, empty]

@[simp] theorem empty_union (f : Flags) : empty.union f = f := by
  simp [union, empty]

end Flags

end DocTypes
