import DocTypes.Tree.Load

/-!
# Loading trees on two stacks

An outline can be entered into an arena without recursion. One stack holds the work that is left:
outlines to enter, and nodes whose children are done. Another one holds what was entered and has no
parent yet. A node that is entered leaves its children to be done, and below them itself. When it
comes up again it takes as many entries off the second stack as it has children. It does not look at
what they are, so it has to find its own children there, and it has to find enough of them:
otherwise the loader is stuck.

It is not. `Loader.run_start` in `Proofs.Tree.LoadStack` says that it comes to what
`Outline.build` gives.
-/

namespace DocTypes

namespace Outline

mutual

/-- The number of steps that an outline takes: one for a child that is left out, and two for a
node. -/
def steps : Outline → Nat
  | .absent => 1
  | .node _ _ _ _ _ children => stepsAll children + 2

/-- The number of steps that a list of outlines takes. -/
def stepsAll : List Outline → Nat
  | [] => 0
  | o :: rest => steps o + stepsAll rest

end

end Outline

namespace Loader

/-- Something that is left to be done. -/
inductive Task where
  /-- Enter an outline. -/
  | enter (o : Outline)
  /-- Enter a node whose children are done. Of them only the number is known. -/
  | leave (kind : NodeKind) (start stop : Nat) (name : Option String) (flags : List String)
      (count : Nat)

/-- The number of steps that a task takes. -/
def Task.steps : Task → Nat
  | .enter o => o.steps
  | .leave .. => 1

end Loader

/-- What is left to be done, the next first, what has no parent yet, the last first, and the
arena. -/
structure Loader where
  work : List Loader.Task
  built : List NodeRef := []
  arena : Arena := Arena.empty

namespace Loader

/-- What comes of a step. -/
inductive Outcome where
  /-- There is more to do. -/
  | more (l : Loader)
  /-- Everything is done. -/
  | done (root : NodeRef) (a : Arena)
  /-- A node of the outline is no good. -/
  | failed (e : LoadError)
  /-- A node takes more children than there are. -/
  | stuck

/-- Enter a node over the last of what has no parent. -/
def leave (l : Loader) (rest : List Task) (kind : NodeKind) (start stop : Nat)
    (name : Option String) (names : List String) (count : Nat) : Outcome :=
  match Outline.flagsOf kind name names with
  | .error e => .failed e
  | .ok flags =>
    let (atom, a) := match name with
      | some text => l.arena.intern text
      | none => (Atom.empty, l.arena)
    if l.built.length < count then .stuck
    else if stop < start then .failed (.inverted kind start stop)
    else
      let (n, a) := a.addNode kind flags ⟨start, stop⟩ atom (l.built.take count).reverse
      .more { work := rest, built := some n :: l.built.drop count, arena := a }

/-- Do the next thing. -/
def step (l : Loader) : Outcome :=
  match l.work with
  | [] => .done l.built.head?.join l.arena
  | .enter .absent :: rest => .more { l with work := rest, built := none :: l.built }
  | .enter (.node kind start stop name flags children) :: rest =>
    .more { l with
      work := children.map .enter ++ .leave kind start stop name flags children.length :: rest }
  | .leave kind start stop name flags count :: rest =>
    l.leave rest kind start stop name flags count

/-- The number of steps that a list of tasks takes. -/
def Task.stepsAll : List Task → Nat
  | [] => 0
  | task :: rest => task.steps + stepsAll rest

/-- The number of steps that are left. -/
def steps (l : Loader) : Nat := Task.stepsAll l.work

/-- Entering the children of a node takes as many steps as they do. -/
theorem Task.stepsAll_enter (os : List Outline) (rest : List Task) :
    stepsAll (os.map .enter ++ rest) = Outline.stepsAll os + stepsAll rest := by
  induction os with
  | nil => exact (Nat.zero_add _).symm
  | cons o os ih =>
    show o.steps + stepsAll (os.map .enter ++ rest) = _
    rw [ih, Outline.stepsAll, Nat.add_assoc]

theorem leave_work {l m : Loader} {rest : List Task} {kind : NodeKind} {start stop : Nat}
    {name : Option String} {names : List String} {count : Nat}
    (h : l.leave rest kind start stop name names count = .more m) : m.work = rest := by
  unfold leave at h
  split at h
  · cases h
  · split at h
    split at h
    · cases h
    · split at h
      · cases h
      · cases h
        rfl

/-- Every step is one less. -/
theorem steps_of_step {l m : Loader} (h : l.step = .more m) : m.steps + 1 = l.steps := by
  obtain ⟨work, built, a⟩ := l
  match work with
  | [] => cases h
  | .enter .absent :: rest =>
    cases h
    simp only [steps, Task.stepsAll, Task.steps, Outline.steps]
    omega
  | .enter (.node kind start stop name flags children) :: rest =>
    cases h
    simp only [steps, Task.stepsAll_enter, Task.stepsAll, Task.steps, Outline.steps]
    omega
  | .leave .. :: rest =>
    simp only [steps, leave_work h, Task.stepsAll, Task.steps]
    omega

/-- Do what is left to be done. There is no result if the loader gets stuck. -/
def run (l : Loader) : Option (Except LoadError (NodeRef × Arena)) :=
  match _h : l.step with
  | .more m => m.run
  | .done root a => some (.ok (root, a))
  | .failed e => some (.error e)
  | .stuck => none
termination_by l.steps
decreasing_by
  have := steps_of_step ‹_›
  omega

/-- The loader that has an outline to enter. -/
def start (o : Outline) : Loader := { work := [.enter o] }

end Loader

end DocTypes
