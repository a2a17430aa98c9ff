import DocTypes.Handle

/-!
# The order of finalization

Classes are taken up when all classes they are built on are done. Those that become
ready at the same time are taken in the order of declaration, after those that were
ready before. Classes on a cycle, and those above which one lies, are never taken.

## Main statements

* `Hierarchy.release_length`: a class that is done neither adds to those that wait nor
  loses one of them.
-/

namespace DocTypes

namespace Hierarchy

/-- A class with the classes that have to be done before it. -/
structure Waiting where
  cls : ValueId
  before : List ValueId
  deriving DecidableEq, Repr

/-- Whether nothing has to be done before the class. -/
def Waiting.isReady (w : Waiting) : Bool := w.before.isEmpty

/-- The class without one that is done. -/
def Waiting.without (done : ValueId) (w : Waiting) : Waiting :=
  { w with before := w.before.filter (· ≠ done) }

/-- Note that a class is done: those that are ready now, and those that still wait. -/
def release (done : ValueId) (waiting : List Waiting) : List ValueId × List Waiting :=
  let (ready, still) := (waiting.map (Waiting.without done)).partition Waiting.isReady
  (ready.map (·.cls), still)

theorem release_length (done : ValueId) (waiting : List Waiting) :
    (release done waiting).1.length + (release done waiting).2.length = waiting.length := by
  simp only [release, List.partition_eq_filter_filter, List.length_map]
  induction waiting with
  | nil => rfl
  | cons w rest ih =>
    cases h : (w.without done).isReady <;> simp [h] <;> omega

/-- The classes in the order in which they are taken, those that are ready first. -/
def takeReady (ready : List ValueId) (waiting : List Waiting) : List ValueId :=
  match ready with
  | [] => []
  | cls :: ready => cls :: takeReady (ready ++ (release cls waiting).1) (release cls waiting).2
termination_by ready.length + waiting.length
decreasing_by
  have h := release_length cls waiting
  simp only [List.length_append, List.length_cons]
  omega

/-- The order in which classes are taken. -/
def finalizationOrder (classes : List Waiting) : List ValueId :=
  let (ready, waiting) := classes.partition Waiting.isReady
  takeReady (ready.map (·.cls)) waiting

end Hierarchy

end DocTypes
