import DocTypes.Analysis.Run
import DocTypes.Json.Document
import DocTypes.Tree.Load

/-!
# Reports

A `UnitReport` is what is reported of one file: its diagnostics, and on request the value
and the type of every node that has one.
-/

namespace DocTypes

/-- A node and what it stands for. -/
structure ValueEntry where
  node : Nat
  kind : NodeKind
  span : Span
  value : ValueId
  valueKind : String
  deriving DecidableEq, Repr

/-- A node and its type as it is written. -/
structure TypeEntry where
  node : Nat
  kind : NodeKind
  span : Span
  type : String
  deriving DecidableEq, Repr

/-- Which tables a report holds. -/
structure Dumps where
  values : Bool := false
  types : Bool := false
  deriving DecidableEq, Repr

/-- What is reported of one file. -/
structure UnitReport where
  file : String
  diagnostics : List Diagnostic
  values : List ValueEntry := []
  types : List TypeEntry := []
  deriving DecidableEq, Repr

namespace Analysis

/-- The nodes of the tree that stand for something, in order. -/
def valueEntries (x : Analysis) (a : Arena) : List ValueEntry :=
  x.valueTable.toList.filterMap fun (r, value) => do
    let node ← r
    let kind ← a.kind? r
    let valueKind ← (x.store.values.get? value).map Value.kindName
    return { node, kind, span := a.span r, value, valueKind }

/-- The nodes of the tree that have a type, in order. -/
def typeEntries (x : Analysis) (a : Arena) : List TypeEntry :=
  x.typeTable.toList.filterMap fun (r, t) => do
    let node ← r
    let kind ← a.kind? r
    return { node, kind, span := a.span r, type := (x.printer a).type t }

end Analysis

namespace UnitReport

/-- The report of a tree. -/
def ofTree (file : String) (tree : Tree) (options : Options) (dumps : Dumps) : UnitReport :=
  let x := Analysis.run tree.arena tree.root options
  { file
    diagnostics := x.diagnostics.toList
    values := if dumps.values then x.valueEntries tree.arena else []
    types := if dumps.types then x.typeEntries tree.arena else [] }

/-- The report of a file's text. -/
def ofText (file source : String) (options : Options) (dumps : Dumps) :
    Except LoadError UnitReport := do
  return ofTree file (← Tree.ofText source) options dumps

end UnitReport

/-! ## Documents -/

/-- The document of a span. -/
def Span.document (s : Span) : Json.Document :=
  .record [("start", .number s.start), ("end", .number s.stop)]

/-- The document of a diagnostic. -/
def Diagnostic.document (d : Diagnostic) : Json.Document :=
  .record ([("code", .text d.problem.code), ("span", d.span.document)]
    ++ (d.related.map fun span => ("related", span.document)).toList)

/-- The document of a value entry. -/
def ValueEntry.document (e : ValueEntry) : Json.Document :=
  .record [("node", .number e.node), ("kind", .text e.kind.name), ("span", e.span.document),
    ("value", .number e.value.index), ("value_kind", .text e.valueKind)]

/-- The document of a type entry. -/
def TypeEntry.document (e : TypeEntry) : Json.Document :=
  .record [("node", .number e.node), ("kind", .text e.kind.name), ("span", e.span.document),
    ("type", .text e.type)]

namespace UnitReport

/-- A field for a table, which is left out if the table is empty. -/
def tableField (name : String) (entries : List Json.Document) : List (String × Json.Document) :=
  if entries.isEmpty then [] else [(name, .list entries)]

/-- The document of a report. -/
def document (r : UnitReport) : Json.Document :=
  .record ([("file", .text r.file), ("diagnostics", .list (r.diagnostics.map (·.document)))]
    ++ tableField "values" (r.values.map (·.document))
    ++ tableField "types" (r.types.map (·.document)))

end UnitReport

end DocTypes
