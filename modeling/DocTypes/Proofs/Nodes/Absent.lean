import DocTypes.Proofs.Nodes.Typing
import DocTypes.Tree.Builder

/-!
# What the absent node carries

Where a node lists no child, the child is the absent node. It never stands for a value. It has a
type only if a function declaration has no name: such a function is typed at its name like any
other, and its name is the absent node (`Analysis.run_absent`).

## Main statements

* `Typing.run_bypasses_none`, `Typing.run_types_none`: whether the third pass gives it a type.
* `Analysis.run_absent`: what the absent node carries in a run.
-/

namespace DocTypes

open Relation

namespace Arena

variable {a : Arena} {root : NodeRef}

/-- Every function declaration has a name. -/
def NamesFunctions (a : Arena) (root : NodeRef) : Prop :=
  ∀ n ∈ a.code root, a.kind? (some n) = some .functionDeclaration → (a.child (some n) 0).isSome

theorem apart_none (h : a.NamesFunctions root) : a.Apart root none where
  typeNode _ _ := nofun
  site := rfl
  method := rfl
  named _ := h

end Arena

namespace Typing

open Analysis Arena

variable {a : Arena} {root : NodeRef} (h : a.Shaped root) (hc : a.Complete root) {x : Analysis}
  (hx : x.Placed a root)
include h hc hx

/-- The third pass gives the absent node no type if every function declaration has a name. -/
theorem run_bypasses_none (hnames : a.NamesFunctions root) :
    (run a root x).2.typeOf? none = x.typeOf? none := by
  have hq := apart_none hnames
  have hvisits : Bypasses a none x ((a.code root).forM (visit a) x).2 :=
    visits_bypass h hc hx hq fun m hm => ⟨hm, nofun, fun _ t _ => nofun⟩
  have hfinish := finish_bypasses (hvisits.placed hx) hq.typeNode (.inl rfl)
  rw [run_eq]
  exact (hfinish.typeOf? hq.typeNode).trans (hvisits.typeOf? hq.typeNode)

/-- A function declaration without a comment and without a name gives the absent node a type. -/
theorem run_types_none (hclosed : x.Closed) {n : Nat} (hn : n ∈ a.code root)
    (hkind : a.kind? (some n) = some .functionDeclaration) (hname : a.child (some n) 0 = none)
    (hgoverns : a.governingTarget n = none) (huntyped : x.typeOf? (some n) = none) :
    ((run a root x).2.typeOf? none).isSome := by
  have hq : a.Apart root (some n) := apart_of_kind? hkind rfl (by decide) rfl
  obtain ⟨before, after, hsplit, hbeside⟩ := h.exists_split hn
  have hbefore : Bypasses a (some n) x (before.forM (visit a) x).2 := by
    refine visits_bypass h hc hx hq fun m hm => ?_
    refine ⟨hsplit ▸ List.mem_append_left _ hm, ?_, fun _ t _ => elsewhere_of_ungoverned hgoverns t⟩
    rintro ⟨⟩
    exact hbeside (List.mem_append_left _ hm)
  refine run_typed hsplit hclosed ?_
  generalize (before.forM (visit a) x).2 = y at hbefore ⊢
  rw [visit_function hkind rfl, ← hname]
  refine (function_types a (some n) y).2 ((hbefore.typeOf? hq.typeNode).trans huntyped) ?_
  rw [isKind_iff.2 hkind, Bool.true_or]

end Typing

namespace Analysis

open Arena

variable {a : Arena} {root : NodeRef}

/-- The absent node never stands for a value, at any step of a run. It has no type either if every
function declaration has a name, and it has one if a function declaration without a comment has no
name. -/
theorem run_absent (h : a.Shaped root) (hc : a.Complete root) (options : Options) :
    (∀ x, ReflTransGen Change (new a) x → ReflTransGen Change x (run a root options) →
      x.valueOf? none = none ∧ (a.NamesFunctions root → x.typeOf? none = none)) ∧
    ∀ n ∈ a.code root, a.kind? (some n) = some .functionDeclaration → a.child (some n) 0 = none →
      a.governingTarget n = none → ((run a root options).typeOf? none).isSome := by
  obtain ⟨hplaced, huntyped⟩ := runPasses_placed h hc (options.reports a root)
  have hclosed := (runPasses_steps a (options.reports a root) root 2).closed
  rw [run, runPasses_three]
  refine ⟨fun x _ hx => ⟨?_, fun hnames => ?_⟩, fun n hn hkind hname hgoverns => ?_⟩
  · have hend := ((Typing.run_sameSites a root _).placed hplaced).absent
    cases hv : x.valueOf? none with
    | none => rfl
    | some v =>
      have hbound := bound_of_changes hx (Option.isSome_of_eq_some hv)
      simp [hend] at hbound
  · have hend := Typing.run_bypasses_none h hc hplaced hnames
    rw [huntyped none (apart_none hnames)] at hend
    cases ht : x.typeOf? none with
    | none => rfl
    | some t =>
      have htyped := typed_of_changes hx (Option.isSome_of_eq_some ht)
      simp [hend] at htyped
  · exact Typing.run_types_none h hc hplaced hclosed hn hkind hname hgoverns
      (huntyped (some n) (apart_of_kind? hkind rfl (by decide) rfl))

/-- `function () {}` as a declaration without a name. -/
def namelessFunction : Build NodeRef := do
  let params ← Builder.parameters []
  let body ← Builder.block []
  Builder.script [← Builder.simple .functionDeclaration [none, params, body]]

/-- In this tree the absent node stands for nothing, and has a type. -/
theorem namelessFunction_absent :
    let tree := namelessFunction Builder.new
    tree.2.arena.Shaped tree.1 ∧ tree.2.arena.Complete tree.1 ∧
      (run tree.2.arena tree.1 {}).valueOf? none = none ∧
      ((run tree.2.arena tree.1 {}).typeOf? none).isSome := by
  intro tree
  have hshaped : tree.2.arena.Shaped tree.1 := by decide +kernel
  have hcomplete : tree.2.arena.Complete tree.1 := by decide +kernel
  obtain ⟨hvalues, htypes⟩ := run_absent hshaped hcomplete {}
  refine ⟨hshaped, hcomplete, ?_, ?_⟩
  · exact (hvalues _ (runPasses_steps _ _ _ 3).steps .refl).1
  · exact htypes 2 (by decide +kernel) (by decide +kernel) (by decide +kernel) (by decide +kernel)

end Analysis

end DocTypes
