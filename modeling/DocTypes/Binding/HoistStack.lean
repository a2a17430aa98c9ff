import DocTypes.Binding.State

/-!
# Hoisting on a stack

What a body hoists can be found without recursion. A stack holds the statements that are left to be
looked at. One at a time is taken off, what it declares itself is declared on the spot, and the
parts that may declare more take its place.

`Hoister.run_start` in `Proofs.Binding.HoistStack` says that the binder comes to be what
declaring `Arena.hoisted` makes of it.
-/

namespace DocTypes

namespace Arena

/-- What a statement hoists itself, its parts left aside. -/
def hoistedHere (a : Arena) (n : Nat) : List Hoisted :=
  match a.kind? (some n) with
  | some .varStatement =>
    if (a.flags (some n)).isBlockScoped then []
    else (a.bindingNames (some n)).map .variableName
  | some .functionDeclaration => ((a.child (some n) 0).map (.functionName n)).toList
  | some .annotated => a.hoistedTypes (some n)
  | _ => []

/-- The parts of a statement that may hoist more, from the left. -/
def hoistsBelow (a : Arena) (n : Nat) : List NodeRef :=
  match a.kind? (some n) with
  | some .annotated => [a.child (some n) 1]
  | some .block | some .ifStatement | some .forStatement | some .forInStatement
  | some .forOfStatement | some .whileStatement | some .doWhileStatement
  | some .tryStatement | some .catchClause => (a.children (some n)).filter Option.isSome
  | _ => []

theorem rank_lt_of_mem_hoistsBelow {a : Arena} {n : Nat} {c : NodeRef}
    (h : c ∈ a.hoistsBelow n) : c.rank < n + 1 := by
  unfold hoistsBelow at h
  split at h
  case h_1 =>
    cases List.mem_singleton.1 h
    exact rank_child_lt a n 1
  case h_11 => cases h
  all_goals exact rank_lt_of_mem_children (List.mem_filter.1 h).1

/-- The number of steps that hoisting out of a statement takes. -/
def hoistSteps (a : Arena) (statement : NodeRef) : Nat :=
  match statement with
  | none => 1
  | some n => (a.hoistsBelow n).attach.foldr (fun part steps => hoistSteps a part.1 + steps) 1
termination_by statement.rank
decreasing_by exact rank_lt_of_mem_hoistsBelow part.2

/-- A statement takes its steps no matter what is done after it. -/
theorem foldr_hoistSteps (a : Arena) (statements : List NodeRef) (more : Nat) :
    statements.foldr (fun statement steps => a.hoistSteps statement + steps) more + 1 =
      statements.foldr (fun statement steps => a.hoistSteps statement + steps) 1 + more := by
  induction statements with
  | nil => exact Nat.add_comm ..
  | cons statement rest ih =>
    rw [List.foldr_cons, List.foldr_cons, Nat.add_assoc, ih, Nat.add_assoc]

end Arena

/-- The statements that are left to be looked at, the next first, and the binder. -/
structure Hoister where
  stack : List NodeRef
  binder : Binder

namespace Hoister

/-- Look at the next statement. There is nothing to do if the stack is empty. -/
def step? (a : Arena) (id : ScopeId) (h : Hoister) : Option Hoister :=
  match h.stack with
  | [] => none
  | none :: rest => some { h with stack := rest }
  | some n :: rest => some {
      stack := a.hoistsBelow n ++ rest
      binder := ((a.hoistedHere n).forM (Binder.hoist a id) h.binder).2 }

/-- The number of steps that are left. -/
def steps (a : Arena) (h : Hoister) : Nat :=
  h.stack.foldr (fun statement steps => a.hoistSteps statement + steps) 0

/-- Every step is one less. -/
theorem steps_of_step {a : Arena} {id : ScopeId} {h h' : Hoister}
    (hstep : h.step? a id = some h') : h'.steps a + 1 = h.steps a := by
  obtain ⟨stack, b⟩ := h
  match stack with
  | [] => cases hstep
  | none :: rest =>
    cases hstep
    simp only [steps, List.foldr_cons, Arena.hoistSteps]
    omega
  | some n :: rest =>
    cases hstep
    have hn : a.hoistSteps (some n) = (a.hoistsBelow n).foldr
        (fun part steps => a.hoistSteps part + steps) 1 := by
      rw [Arena.hoistSteps]
      exact List.foldr_attach (f := fun part steps => a.hoistSteps part + steps)
    rw [steps, List.foldr_append, a.foldr_hoistSteps, ← hn]
    rfl

/-- Look at all that is left, and give the binder. -/
def run (a : Arena) (id : ScopeId) (h : Hoister) : Binder :=
  match _h : h.step? a id with
  | none => h.binder
  | some h' => run a id h'
termination_by h.steps a
decreasing_by
  have := steps_of_step ‹_›
  omega

/-- The hoister that has the statements of a body to look at. -/
def start (statements : List NodeRef) (b : Binder) : Hoister :=
  { stack := statements.filter Option.isSome, binder := b }

end Hoister

end DocTypes
