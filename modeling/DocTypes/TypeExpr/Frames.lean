import DocTypes.TypeExpr.Transform

/-!
# Type expressions on a stack

`TypeExpr.enter` can be run on a stack of frames in place of calls. A node that is entered
leaves a frame to be done when those below it have their types. If its meaning then is an
alias that is not expanded yet, the node is suspended: its frame goes back on the stack, above
it one that gives the alias its target, and above that the type expression of the alias. The
aliases that are being expanded are noted, so that meeting one of them again is a cycle.

The stack machine takes one frame in a step. It comes to the state that `TypeExpr.enter` leads to:
`TypeExpr.Machine.steps_enter`.
-/

namespace DocTypes

namespace TypeExpr

/-- Something that is left to be done. -/
inductive Frame where
  /-- Give types to an expression and all below it. -/
  | enter (r : NodeRef) (position : Position)
  /-- Give a type to a node. Those below it have theirs. -/
  | exit (n : Nat) (position : Position)
  /-- The expression of an alias is done, and the alias stands for its type. -/
  | aliasDone (t : TypeId) (operand : Nat)
  deriving DecidableEq, Repr

/-- What is left to be done, the next frame first, and the aliases that are being expanded. -/
structure Machine where
  stack : List Frame
  resolving : List TypeId := []
  analysis : Analysis

namespace Machine

/-- The frames that a node leaves when it is entered. -/
def framesOf (a : Arena) (n : Nat) (position : Position) : List Frame :=
  (operands a n).map (fun (c, p) => .enter c p) ++ [.exit n position]

/-- Enter an expression. -/
def enter (a : Arena) (rest : List Frame) (resolving : List TypeId) (x : Analysis) (r : NodeRef)
    (position : Position) : Machine :=
  match r with
  | none => { stack := rest, resolving, analysis := x }
  | some n =>
    if (x.typeOf? (some n)).isSome then { stack := rest, resolving, analysis := x }
    else { stack := framesOf a n position ++ rest, resolving, analysis := x }

/-- Give a type to a node that means this, or suspend it until an alias is expanded. -/
def conclude (a : Arena) (rest : List Frame) (resolving : List TypeId) (x : Analysis) (n : Nat)
    (position : Position) : Meaning → Machine
  | .nothing => { stack := rest, resolving, analysis := x }
  | .type t => { stack := rest, resolving, analysis := (Analysis.setType (some n) t x).2 }
  | .expansion t operand =>
    if t ∈ resolving then
      let x := (Analysis.reportAt a .cyclicTypedef (some n) x).2
      { stack := rest, resolving, analysis := (Analysis.setType (some n) .invalid x).2 }
    else
      { stack := .enter (some operand) .plain :: .aliasDone t operand :: .exit n position :: rest
        resolving := t :: resolving, analysis := x }

/-- Leave a node whose operands are done. -/
def exit (a : Arena) (rest : List Frame) (resolving : List TypeId) (x : Analysis) (n : Nat)
    (position : Position) : Machine :=
  let found := meaning a n position x
  conclude a rest resolving found.2 n position found.1

/-- An alias stands for the type of its expression. -/
def finishAlias (t : TypeId) (operand : Nat) (x : Analysis) : Analysis :=
  let target := (x.typeOf? (some operand)).getD .invalid
  (Analysis.onTypes (fun types => ((), types.setAliasTarget t target)) x).2

/-- Do the next thing. There is nothing to do if the stack is empty. -/
def step? (a : Arena) (m : Machine) : Option Machine :=
  match m.stack with
  | [] => none
  | .enter r position :: rest => some (enter a rest m.resolving m.analysis r position)
  | .exit n position :: rest => some (exit a rest m.resolving m.analysis n position)
  | .aliasDone t operand :: rest =>
    some { stack := rest, resolving := m.resolving.erase t
           analysis := finishAlias t operand m.analysis }

/-- The alias whose expression is put on the stack by the next step. -/
def expanding? (a : Arena) (m : Machine) : Option TypeId :=
  match m.stack with
  | .exit n position :: _ =>
    match (meaning a n position m.analysis).1 with
    | .expansion t _ => if t ∈ m.resolving then none else some t
    | _ => none
  | _ => none

end Machine

end TypeExpr

end DocTypes
