import DocTypes.Binding.Visit
import DocTypes.Hierarchy.Build
import DocTypes.Typing.Declare

/-!
# Runs

An analysis is three passes over one tree: names are bound, the class hierarchy is built,
and types are given to nodes. Names that are bound nowhere are not reported in externs,
which describe what the surroundings provide.
-/

namespace DocTypes

/-- How a tree is analyzed. -/
structure Options where
  /-- The sort of unit to take the tree for, instead of the one its root says. -/
  unit : Option NodeKind := none
  /-- Whether names that are bound nowhere are reported. -/
  reportUndefined : Bool := true
  deriving DecidableEq, Repr

namespace Options

/-- The options for externs. -/
def externs : Options := { unit := some .externs, reportUndefined := false }

/-- Whether names that are bound nowhere are reported for a tree. -/
def reports (o : Options) (a : Arena) (root : NodeRef) : Bool :=
  o.reportUndefined && (o.unit <|> a.kind? root) ≠ some .externs

end Options

namespace Analysis

/-- The passes in order. -/
def passes (a : Arena) (reportUndefined : Bool) (root : NodeRef) : List (Analyze Unit) :=
  [bindNames a reportUndefined root, Hierarchy.build a, Typing.run a root]

/-- Run the first passes. -/
def runPasses (a : Arena) (reportUndefined : Bool) (root : NodeRef) (count : Nat) : Analysis :=
  ((passes a reportUndefined root).take count).foldl (fun x pass => (pass x).2) (new a)

/-- Run all passes. -/
def run (a : Arena) (root : NodeRef) (options : Options) : Analysis :=
  runPasses a (options.reports a root) root 3

/-! ## One pass after the other -/

theorem foldl_take_two (p q r : Analyze Unit) (x : Analysis) :
    ([p, q, r].take 2).foldl (fun x pass => (pass x).2) x =
      (q (([p, q, r].take 1).foldl (fun x pass => (pass x).2) x)).2 := rfl

theorem foldl_take_three (p q r : Analyze Unit) (x : Analysis) :
    ([p, q, r].take 3).foldl (fun x pass => (pass x).2) x =
      (r (([p, q, r].take 2).foldl (fun x pass => (pass x).2) x)).2 := rfl

section Passes

variable (a : Arena) (reportUndefined : Bool) (root : NodeRef)

theorem runPasses_one :
    runPasses a reportUndefined root 1 = (bindNames a reportUndefined root (new a)).2 := rfl

theorem runPasses_two :
    runPasses a reportUndefined root 2 =
      (Hierarchy.build a (runPasses a reportUndefined root 1)).2 :=
  foldl_take_two _ _ _ _

theorem runPasses_three :
    runPasses a reportUndefined root 3 =
      (Typing.run a root (runPasses a reportUndefined root 2)).2 :=
  foldl_take_three _ _ _ _

end Passes

end Analysis

end DocTypes
