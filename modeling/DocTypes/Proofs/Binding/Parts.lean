import DocTypes.Proofs.Binding.Foreseeing

/-!
# The parts that a visit asks for

A visit of an expression, and of much else, asks for visits of its parts: of nodes that are reached
from it through nodes that declare nothing (`Arena.Holds`). So they are ready if the node was.

## Main statements

* `Binder.visitPath_parts`, `Binder.visitAssignment_parts`, `Binder.visitExpressionStatement_parts`,
  `Binder.visitProperty_parts`: the parts of expressions and statements.
* `Binder.declareParameter_parts`: the parts of a parameter.
-/

namespace DocTypes

open Binder

/-- OnlyVisits of nodes with a property, and nothing else. -/
def Work.OnlyVisits (P : Nat → Prop) (works : List Work) : Prop :=
  ∀ w ∈ works, ∃ m, w = .visit m ∧ P m

namespace Work.OnlyVisits

variable {a : Arena} {P Q : Nat → Prop} {works works' : List Work} {r : NodeRef}

theorem nil : OnlyVisits P [] := fun _ hw => (List.not_mem_nil hw).elim

theorem append (h : OnlyVisits P works) (h' : OnlyVisits P works') :
    OnlyVisits P (works ++ works') :=
  fun w hw => (List.mem_append.1 hw).elim (h w) (h' w)

theorem visit? (h : ∀ m, r = some m → P m) : OnlyVisits P (Work.visit? r) := by
  cases r with
  | none => exact nil
  | some m =>
    intro w hw
    exact ⟨m, List.mem_singleton.1 hw, h m rfl⟩

theorem children (h : ∀ m, some m ∈ a.children r → P m) : OnlyVisits P (Work.children a r) := by
  intro w hw
  obtain ⟨m, hm, rfl⟩ := List.mem_map.1 hw
  exact ⟨m, rfl, h m (Arena.mem_presentChildren.1 hm)⟩

theorem flatten {lists : List (List Work)} (h : ∀ works ∈ lists, OnlyVisits P works) :
    OnlyVisits P lists.flatten := by
  intro w hw
  obtain ⟨works, hworks, hmem⟩ := List.mem_flatten.1 hw
  exact h works hworks w hmem

theorem imp (h : OnlyVisits P works) (hPQ : ∀ m, P m → Q m) : OnlyVisits Q works := by
  intro w hw
  obtain ⟨m, rfl, hm⟩ := h w hw
  exact ⟨m, rfl, hPQ m hm⟩

end Work.OnlyVisits

namespace Binder

open Work

variable {a : Arena} {n : Nat} {kind : NodeKind}

/-- A child of a node below which nothing is declared. -/
theorem visits_child (hkind : a.kind? (some n) = some kind) (hcalm : kind.isCalm = true) (i : Nat) :
    OnlyVisits (a.Holds n) (Work.visit? (a.child (some n) i)) :=
  .visit? fun _ hm => .child hkind hcalm (Arena.mem_children_of_child_eq_some hm)

/-- What is left of a dotted path is the expression at its root. -/
theorem visitPath_visits {P : Nat → Prop} {r : NodeRef} (hr : ∀ m, r = some m → P m)
    (hobject : ∀ m c, P m → a.kind? (some m) = some .memberExpression →
      a.child (some m) 0 = some c →
      P c) (create : Bool) :
    Yields (fun found => OnlyVisits P found.2) (visitPath a r create) := by
  fun_induction visitPath a r create with
  | case1 | case2 | case5 => exact .pure .nil
  | case3 => exact .after fun _ => .pure .nil
  | case4 create n hkind ih =>
    refine .bind (ih fun m hm => hobject n m (hr n rfl) hkind hm) fun found hfound => ?_
    obtain ⟨object?, works⟩ := found
    cases object? with
    | none => exact .pure hfound
    | some object => exact .after fun _ => .pure hfound
  | case6 create n => exact .pure (.visit? (r := some n) hr)

/-- What is left of a dotted path that is a part of a node. -/
theorem visitPath_parts {r : NodeRef} (hr : ∀ m, r = some m → a.Holds n m) (create : Bool) :
    Yields (fun found => OnlyVisits (a.Holds n) found.2) (visitPath a r create) :=
  visitPath_visits hr (fun _ _ hm hkind hc =>
    .part hm hkind rfl (Arena.mem_children_of_child_eq_some hc)) create

/-- A dotted path is not visited again. -/
theorem visitPath_self_parts (hkind : a.kind? (some n) = some .memberExpression) (create : Bool) :
    Yields (fun found => OnlyVisits (a.Holds n) found.2) (visitPath a (some n) create) := by
  intro b
  have hself := visitPath_visits (P := fun m => m = n ∨ a.Holds n m) (r := some n) (a := a)
    (fun m hm => .inl (Option.some.inj hm).symm) (fun m c hm hkind hc => ?_) create b
  · rcases visitPath_rest (a := a) (some n) create b with hnil | ⟨m, hm, -, hother⟩
    · rw [hnil]
      exact .nil
    · intro w hw
      obtain ⟨k, rfl, rfl | hk⟩ := hself w hw
      · rw [hm] at hw
        cases List.mem_singleton.1 hw
        exact absurd hkind hother
      · exact ⟨k, rfl, hk⟩
  · rcases hm with rfl | hm
    · exact .inr (.child hkind rfl (Arena.mem_children_of_child_eq_some hc))
    · exact .inr (.part hm hkind rfl (Arena.mem_children_of_child_eq_some hc))

/-- The default value of a parameter. -/
theorem declareParameter_parts (id : ScopeId) (param : NodeRef)
    (hparam : ∀ m, param = some m → a.Holds n m) :
    Yields (OnlyVisits (a.Holds n)) (declareParameter a id param) := by
  unfold declareParameter
  split
  · exact .after fun _ => .pure .nil
  · next hkind =>
    obtain ⟨m, rfl⟩ := Arena.exists_of_kind? hkind
    refine .after fun _ => ?_
    split
    · exact .pure .nil
    · refine .after fun _ => .pure (.visit? fun c hc => ?_)
      exact .part (hparam m rfl) hkind rfl (Arena.mem_children_of_child_eq_some hc)
  · exact .after fun _ => .pure .nil
  · exact .pure .nil

theorem visitExpressionStatement_parts (hkind : a.kind? (some n) = some .expressionStatement) :
    Yields (OnlyVisits (a.Holds n)) (visitExpressionStatement a n) := by
  have hvisit := visits_child hkind rfl 0
  have hexpression : ∀ m, a.child (some n) 0 = some m → a.Holds n m := fun m hm =>
    .child hkind rfl (Arena.mem_children_of_child_eq_some hm)
  refine .after fun b => ?_
  dsimp only
  split
  · exact .pure hvisit
  · refine .ite (fun _ => .pure hvisit) fun _ => ?_
    refine .bind (visitPath_parts hexpression true) fun found hfound => ?_
    obtain ⟨property?, works⟩ := found
    dsimp only
    split
    · exact .pure hfound
    · refine .ite (fun _ => .after fun _ => .after fun _ => .pure hfound) fun _ => ?_
      exact .ite (fun _ => .after fun _ => .after fun _ => .pure hfound) fun _ => .pure hfound

theorem visitAssignment_parts (hkind : a.kind? (some n) = some .assignment) :
    Yields (OnlyVisits (a.Holds n)) (visitAssignment a n) := by
  have htarget := visits_child hkind rfl 0
  have hvalue := visits_child hkind rfl 1
  have hpart : ∀ m, a.child (some n) 0 = some m → a.Holds n m := fun m hm =>
    .child hkind rfl (Arena.mem_children_of_child_eq_some hm)
  unfold visitAssignment
  dsimp only
  split
  · exact .pure hvalue
  · exact .after fun _ => .pure hvalue
  · refine .bind (visitPath_parts hpart true) fun found hfound => ?_
    obtain ⟨property?, works⟩ := found
    have hworks := hfound.append hvalue
    dsimp only
    split
    · refine .ite (fun _ => .after fun _ => ?_) fun _ => ?_
      · exact .after fun _ => .pure hworks
      · exact .after fun _ => .pure hworks
    · exact .pure hworks
  · next hcomputed =>
    obtain ⟨t, ht⟩ := Arena.exists_of_kind? hcomputed
    rw [ht] at hcomputed ⊢
    have hbelow : ∀ i m, a.child (some t) i = some m → a.Holds n m := fun i m hm =>
      .part (hpart t ht) hcomputed rfl (Arena.mem_children_of_child_eq_some hm)
    refine .bind (visitPath_parts (hbelow 0) false) fun found hfound => ?_
    obtain ⟨object?, works⟩ := found
    have hworks := hfound.append hvalue
    dsimp only
    split
    · refine .after fun b => .after fun _ => .after fun _ => ?_
      exact .ite (fun _ => .after fun _ => .pure hworks) fun _ => .pure hworks
    · exact .pure (((OnlyVisits.visit? (hbelow 1)).append hfound).append hvalue)
  · exact .pure (htarget.append hvalue)

theorem visitProperty_parts (hkind : a.kind? (some n) = some .property) :
    Yields (OnlyVisits (a.Holds n)) (visitProperty a n) := by
  have hvalue := visits_child hkind rfl 1
  refine .after fun b => ?_
  dsimp only
  split
  · exact .pure hvalue
  · split
    · refine .after fun _ => .after fun _ => ?_
      exact .ite (fun _ => .after fun _ => .pure hvalue) fun _ => .pure hvalue
    · refine .ite (fun hcomputed => .pure ?_) fun _ => .pure hvalue
      obtain ⟨k, hk⟩ := Arena.exists_of_kind? (Arena.isKind_iff.1 hcomputed)
      rw [hk] at hcomputed ⊢
      refine (OnlyVisits.visit? fun m hm => ?_).append hvalue
      exact .part (.child hkind rfl (Arena.mem_children_of_child_eq_some hk))
        (Arena.isKind_iff.1 hcomputed) rfl (Arena.mem_children_of_child_eq_some hm)

/-- The heritage and the members of a class. -/
theorem classParts {root : NodeRef} (h : a.Shaped root) (hn : n ∈ a.listing root)
    (hkind : a.kind? (some n) = some kind) (hclass : kind.isClassLike = true) :
    OnlyVisits (a.Holds n) (Work.visit? (a.child (some n) 1) ++
      Work.children a (a.child (some n) 2)) := by
  have hcalm : kind.isCalm = true := by
    cases kind <;> first
      | rfl
      | cases hclass
  have hplace : kind.place 2 = .only [.classBody] := by
    cases kind <;> first
      | rfl
      | cases hclass
  refine (visits_child hkind hcalm 1).append ?_
  cases hc : a.child (some n) 2 with
  | none => exact .nil
  | some c =>
    refine .children fun m hm =>
      .part (.child hkind hcalm ?_) (h.kind?_child hn hkind hplace hc) rfl hm
    exact Arena.mem_children_of_child_eq_some hc

end Binder

end DocTypes
