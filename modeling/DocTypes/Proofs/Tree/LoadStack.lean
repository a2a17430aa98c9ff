import DocTypes.Tree.LoadStack
import Mathlib.Data.List.Basic

/-!
# The two stacks and the recursion

The loader does in some number of steps what `Outline.build` does by recursion. An outline at
the head of the work is entered, what it became lies on top of what was built before, and the rest
of the work and of what was built are as they were. So a node that comes up again finds its own
children on top, in reverse, and the loader never gets stuck.

## Main statement

* `Loader.run_start`: the loader stops with what `Outline.build` gives, an error included.
-/

namespace DocTypes

namespace Loader

theorem run_eq (l : Loader) :
    l.run = match l.step with
      | .more m => m.run
      | .done root a => some (.ok (root, a))
      | .failed e => some (.error e)
      | .stuck => none := by
  rw [run]
  split <;> simp_all

theorem run_more {l m : Loader} (h : l.step = .more m) : l.run = m.run := by
  rw [run_eq, h]

theorem run_done {built : List NodeRef} {a : Arena} :
    run ⟨[], built, a⟩ = some (.ok (built.head?.join, a)) := by
  rw [run_eq]
  rfl

/-- Go on with what was made of an outline, or stop. -/
def andThen {α : Type} (x : Except LoadError (α × Arena)) (next : α → Arena → Loader) :
    Option (Except LoadError (NodeRef × Arena)) :=
  match x with
  | .ok (r, a) => (next r a).run
  | .error e => some (.error e)

/-- Enter a node over children that are entered. -/
def buildOver (kind : NodeKind) (start stop : Nat) (name : Option String) (names : List String)
    (refs : List NodeRef) (a : Arena) : Except LoadError (NodeRef × Arena) := do
  let flags ← Outline.flagsOf kind name names
  if stop < start then .error (.inverted kind start stop)
  else
    let (atom, a) := match name with
      | some text => a.intern text
      | none => (Atom.empty, a)
    let (n, a) := a.addNode kind flags ⟨start, stop⟩ atom refs
    .ok (some n, a)

/-- A node takes its own children off what was built. -/
theorem run_leave (kind : NodeKind) (start stop : Nat) (name : Option String) (names : List String)
    (rest : List Task) (refs built : List NodeRef) (a : Arena) :
    run ⟨.leave kind start stop name names refs.length :: rest, refs.reverse ++ built, a⟩ =
      andThen (buildOver kind start stop name names refs a) fun r b => ⟨rest, r :: built, b⟩ := by
  have henough : ¬ (refs.reverse ++ built).length < refs.length := by simp
  have htake : ((refs.reverse ++ built).take refs.length).reverse = refs := by
    rw [List.take_left' (List.length_reverse ..), List.reverse_reverse]
  have hdrop : (refs.reverse ++ built).drop refs.length = built :=
    List.drop_left' (List.length_reverse ..)
  rw [run_eq]
  simp only [step, leave, buildOver, htake, hdrop, if_neg henough]
  cases Outline.flagsOf kind name names with
  | error e => rfl
  | ok flags =>
    simp only [bind, Except.bind]
    by_cases hspan : stop < start
    · rw [if_pos hspan, if_pos hspan]
      rfl
    · rw [if_neg hspan, if_neg hspan]
      rfl

theorem build_node (kind : NodeKind) (start stop : Nat) (name : Option String)
    (names : List String) (children : List Outline) (a : Arena) :
    (Outline.node kind start stop name names children).build a =
      (Outline.buildAll children a).bind fun done =>
        buildOver kind start stop name names done.1 done.2 := by
  rw [Outline.build]
  rfl

theorem length_of_buildAll {os : List Outline} {refs : List NodeRef} {a b : Arena}
    (h : Outline.buildAll os a = .ok (refs, b)) : refs.length = os.length := by
  induction os generalizing refs a with
  | nil =>
    rw [Outline.buildAll] at h
    cases h
    rfl
  | cons o rest ih =>
    rw [Outline.buildAll] at h
    cases hfirst : o.build a with
    | error e =>
      rw [hfirst] at h
      cases h
    | ok first =>
      obtain ⟨r, c⟩ := first
      cases hrest : Outline.buildAll rest c with
      | error e =>
        rw [hfirst] at h
        simp only [bind, Except.bind, hrest] at h
        cases h
      | ok others =>
        rw [hfirst] at h
        simp only [bind, Except.bind, hrest] at h
        cases h
        rw [List.length_cons, List.length_cons, ih hrest]

mutual

/-- An outline is entered, and what it became lies on top of what was built. -/
theorem run_enter (o : Outline) (rest : List Task) (built : List NodeRef) (a : Arena) :
    run ⟨.enter o :: rest, built, a⟩ = andThen (o.build a) fun r b => ⟨rest, r :: built, b⟩ := by
  match o with
  | .absent =>
    rw [Outline.build]
    exact run_more rfl
  | .node kind start stop name names children =>
    rw [run_more rfl, run_enterAll, build_node]
    cases hchildren : Outline.buildAll children a with
    | error e => rfl
    | ok done =>
      obtain ⟨refs, b⟩ := done
      rw [← length_of_buildAll hchildren]
      exact run_leave kind start stop name names rest refs built b

/-- Outlines are entered from the left, and the last of them comes to lie on top. -/
theorem run_enterAll (os : List Outline) (rest : List Task) (built : List NodeRef) (a : Arena) :
    run ⟨os.map .enter ++ rest, built, a⟩ =
      andThen (Outline.buildAll os a) fun refs b => ⟨rest, refs.reverse ++ built, b⟩ := by
  match os with
  | [] =>
    rw [Outline.buildAll]
    rfl
  | o :: others =>
    rw [List.map_cons, List.cons_append, run_enter o, Outline.buildAll]
    cases hfirst : o.build a with
    | error e => rfl
    | ok first =>
      obtain ⟨r, b⟩ := first
      simp only [andThen, bind, Except.bind]
      rw [run_enterAll others]
      cases hothers : Outline.buildAll others b with
      | error e => rfl
      | ok done => simp [andThen]

end

/-- The loader never gets stuck, and it comes to what the recursion gives. -/
theorem run_start (o : Outline) : (start o).run = some (o.build Arena.empty) := by
  rw [start, run_enter]
  cases o.build Arena.empty with
  | error e => rfl
  | ok done => exact run_done

end Loader

end DocTypes
