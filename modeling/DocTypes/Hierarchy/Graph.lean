/-!
# Finite directed graphs

A `Graph` has the positions below its size as nodes, and a list of targets for each.
Targets that are no nodes do not count.
-/

namespace DocTypes

/-- A finite directed graph. -/
structure Graph where
  /-- The targets of each node. -/
  adjacency : Array (List Nat)
  deriving DecidableEq, Repr

namespace Graph

/-- How many nodes there are. -/
def size (g : Graph) : Nat := g.adjacency.size

/-- The targets of a node. -/
def targets (g : Graph) (v : Nat) : List Nat := g.adjacency[v]?.getD []

/-- The edges between nodes, in the order of their sources. -/
def edges (g : Graph) : List (Nat × Nat) :=
  (List.range g.size).flatMap fun v => ((g.targets v).filter (· < g.size)).map (v, ·)

end Graph

end DocTypes
