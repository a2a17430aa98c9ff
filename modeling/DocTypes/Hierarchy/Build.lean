import DocTypes.Hierarchy.Bases
import DocTypes.Hierarchy.Components
import DocTypes.Hierarchy.Linearize
import DocTypes.Hierarchy.Order

/-!
# The class hierarchy

The second pass. It resolves the bases of every declared class, lists the ancestors of
the classes from the bases down, reports the cycles among the classes that are left over,
and lists the ancestors of the generic classes that were applied to types.

A class with a base that could not be resolved gets no ancestors, and neither does any
class below it or below a cycle. A cycle is reported once for each pair of classes next
to each other on it.
-/

namespace DocTypes

namespace Hierarchy

/-- The declared classes, in the order of their first declarations. -/
def declared (decls : List ClassDecl) : Registry ValueId :=
  decls.foldl (fun classes decl => classes.insert decl.cls) .empty

/-- The declared classes whose bases were all resolved, with the classes they are built on. -/
def schedule (values : ValueStore) (decls : List ClassDecl) (blocked : List ValueId) :
    List Waiting :=
  ((declared decls).toList.filter (· ∉ blocked)).map fun cls =>
    { cls, before := baseClasses values cls }

/-- List the ancestors of a class whose bases are done. -/
def finalizeClass (cls : ValueId) : StateM Store Unit := do
  match (← get).values.class? cls with
  | some data =>
    let ancestors ← Store.linearize data.bases
    Store.onValues fun values => ((), values.updateClass cls fun data =>
      { data with ancestors, finalized := true })
  | none => return

/-! ## Cycles -/

/-- The classes that are left over. -/
def leftOver (values : ValueStore) (decls : List ClassDecl) : Registry ValueId :=
  ((declared decls).toList.filter (!values.isFinalized ·)).foldl Registry.insert .empty

/-- The graph of classes and the classes they are built on, by their numbers. -/
def baseGraph (values : ValueStore) (classes : Registry ValueId) : Graph :=
  ⟨(classes.toList.map fun cls => (baseClasses values cls).filterMap classes.find?).toArray⟩

/-- Two classes, the one that was made first in front. -/
def orderedPair (v w : ValueId) : ValueId × ValueId :=
  if v.index ≤ w.index then (v, w) else (w, v)

/-- The pairs of classes that are joined by an edge of a cycle, each once. -/
def cyclePairs (values : ValueStore) (classes : Registry ValueId) : List (ValueId × ValueId) :=
  ((baseGraph values classes).innerEdges.filterMap fun (i, j) => do
    return orderedPair (← classes.get? i) (← classes.get? j)).eraseDups

/-- Where problems with a class are reported. -/
def reportNode (decls : List ClassDecl) (cls : ValueId) : NodeRef :=
  (decls.find? (·.cls = cls)).bind (·.node)

/-- Report the cycles among the classes that are left over. -/
def reportCycles (a : Arena) (decls : List ClassDecl) : Analyze Unit := do
  let values := (← get).store.values
  (cyclePairs values (leftOver values decls)).forM fun (v, w) =>
    Analysis.reportRelated a .inheritanceCycle (reportNode decls v) (reportNode decls w)

/-- Build the class hierarchy. -/
def build (a : Arena) : Analyze Unit := do
  let decls := (← get).classes
  let blocked ← resolveBases a decls
  (finalizationOrder (schedule (← get).store.values decls blocked)).forM fun cls =>
    Analyze.onStore (finalizeClass cls)
  reportCycles a decls
  Analyze.onStore Store.finalizeAllConstructed

end Hierarchy

end DocTypes
