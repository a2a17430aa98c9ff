import DocTypes.Proofs.Binding.Mentioning
import DocTypes.Proofs.Binding.Reading
import DocTypes.Proofs.Lifecycle.Moments

/-!
# The references that a walk visits

`Moment.Refers` is a run of the machine together with what it refers to on the way, and with the
scope that is current at each reference. The machine is deterministic, so a moment has one such run
to a moment at which no work is left. A piece of work refers to a node, and asks for work that may
refer to it, no more often than the node is listed (`Moment.refers_within`); so in a tree, a whole
walk refers to a node once at most.

## Main statements

* `Moment.Refers.unique`: what is referred to is determined.
* `Moment.refers_within`: how often one piece of work refers to a node.
-/

namespace DocTypes

open Binder

/-! ## Runs with their references -/

/-- A run of the walk, with what is referred to on the way and the scope that is current then. -/
inductive Moment.Refers (a : Arena) (reportUndefined : Bool) :
    Moment → List (Parked × ScopeId) → Moment → Prop
  | refl (m : Moment) : Refers a reportUndefined m [] m
  | step {m m' m'' : Moment} {work : Work} {rest : List Work} {met : List (Parked × ScopeId)}
      (hworks : m.works = work :: rest) (hstep : m.Step a reportUndefined m')
      (h : Refers a reportUndefined m' met m'') :
    Refers a reportUndefined m ((m.state.refers a work).map (·, m.state.current) ++ met) m''

namespace Moment

variable {a : Arena} {reportUndefined : Bool} {m m' m'' : Moment}
  {met met' : List (Parked × ScopeId)}

namespace Refers

theorem trans (h : Refers a reportUndefined m met m') (h' : Refers a reportUndefined m' met' m'') :
    Refers a reportUndefined m (met ++ met') m'' := by
  induction h with
  | refl => exact h'
  | step hworks hstep _ ih =>
    rw [List.append_assoc]
    exact .step hworks hstep (ih h')

theorem steps (h : Refers a reportUndefined m met m') :
    Relation.ReflTransGen (Step a reportUndefined) m m' := by
  induction h with
  | refl => exact .refl
  | step _ hstep _ ih => exact .head hstep ih

/-- One piece of work, and what follows from it. -/
theorem cons (work : Work) (rest : List Work) {b : Binder}
    (h : Refers a reportUndefined
      ⟨(act a reportUndefined work b).1 ++ rest, (act a reportUndefined work b).2⟩ met m') :
    Refers a reportUndefined ⟨work :: rest, b⟩ ((b.refers a work).map (·, b.current) ++ met) m' :=
  .step rfl (step_cons a reportUndefined work rest b) h

/-- Every run refers to something on its way. -/
theorem exists_of_steps (h : Relation.ReflTransGen (Step a reportUndefined) m m') :
    ∃ met, Refers a reportUndefined m met m' := by
  induction h using Relation.ReflTransGen.head_induction_on with
  | refl => exact ⟨[], .refl _⟩
  | @head m _ hstep _ ih =>
    obtain ⟨met, hmet⟩ := ih
    obtain ⟨works, b⟩ := m
    cases works with
    | nil => cases hstep
    | cons work rest => exact ⟨_, .step rfl hstep hmet⟩

/-- Two runs to moments at which no work is left are the same. -/
theorem unique {finish finish' : Binder} (h : Refers a reportUndefined m met ⟨[], finish⟩)
    (h' : Refers a reportUndefined m met' ⟨[], finish'⟩) : met = met' ∧ finish = finish' := by
  generalize hend : (⟨[], finish⟩ : Moment) = last at h
  induction h generalizing met' with
  | refl m =>
    subst hend
    cases h' with
    | refl => exact ⟨rfl, rfl⟩
    | step hworks => cases hworks
  | step hworks hstep h ih =>
    cases h' with
    | refl => cases hworks
    | step hworks' hstep' h' =>
      obtain ⟨rfl, rfl⟩ := List.cons.inj (hworks.symm.trans hworks')
      cases Option.some.inj (hstep.symm.trans hstep')
      obtain ⟨rfl, hsame⟩ := ih h' hend
      exact ⟨rfl, hsame⟩

end Refers

end Moment

/-! ## How often a node is referred to -/

/-- How often references name a node. -/
def mentioned (m : Nat) (mentions : List Parked) : Nat := (mentions.map (·.node)).count (some m)

@[simp] theorem mentioned_nil (m : Nat) : mentioned m [] = 0 := rfl

@[simp] theorem mentioned_append (m : Nat) (mentions mentions' : List Parked) :
    mentioned m (mentions ++ mentions') = mentioned m mentions + mentioned m mentions' := by
  rw [mentioned, List.map_append, List.count_append]
  rfl

section Mentioned

open Work

variable {a : Arena} {reportUndefined : Bool} {m n : Nat} {kind : NodeKind}

theorem mentioned_single_le {p : Parked} (hnode : p.node = some n) (h : (a.node? (some n)).isSome) :
    mentioned m [p] ≤ a.times m (some n) := by
  rw [a.times_some m h, mentioned, List.map_singleton, hnode]
  refine Nat.le_trans (Nat.le_of_eq ?_) (Nat.le_add_right _ _)
  simp [List.count_singleton]

/-- A dotted path refers to its root, or leaves it to be visited. -/
theorem visitPath_mentions (r : NodeRef) (create : Bool) :
    Yields (fun found => mentioned m (a.pathMentions r) + pending a m found.2 ≤ a.times m r)
      (visitPath a r create) := by
  fun_induction visitPath a r create with
  | case1 =>
    refine .pure ?_
    rw [Arena.pathMentions_none]
    exact Nat.zero_le _
  | case2 create n hkind =>
    refine .pure ?_
    rw [Arena.pathMentions_of_other (by simp [hkind]) (by simp [hkind])]
    exact Nat.zero_le _
  | case3 create n hkind =>
    refine .after fun _ => .pure ?_
    rw [Arena.pathMentions_of_identifier hkind]
    exact mentioned_single_le rfl (a.node?_of_kind? hkind)
  | case4 create n hkind ih =>
    have hobject := (a.times_child_le m (some n) 0).trans (a.timesBelow_le m _)
    refine .bind ih fun found hfound => ?_
    obtain ⟨object?, works⟩ := found
    rw [← Arena.pathMentions_of_member hkind] at hfound
    cases object? with
    | none => exact .pure (hfound.trans hobject)
    | some object => exact .after fun _ => .pure (hfound.trans hobject)
  | case5 create n hkind =>
    refine .pure ?_
    rw [Arena.pathMentions_of_other (by simp [hkind]) (by simp [hkind])]
    exact Nat.zero_le _
  | case6 create n kind hidentifier hmember hthis hkind =>
    refine .pure ?_
    have hnone : a.pathMentions (some n) = [] := by
      refine Arena.pathMentions_of_other ?_ ?_ <;>
        · rw [hkind]
          simp_all
    rw [hnone]
    show 0 + pending a m (Work.visit? (some n)) ≤ _
    rw [pending_visit?, Nat.zero_add]

/-- An assignment refers to its target, and leaves the rest to be visited. -/
theorem visitAssignment_mentions (n : Nat) :
    Yields (fun works => mentioned m (a.assignmentMentions n) + pending a m works ≤
      a.times m (some n))
      (visitAssignment a n) := by
  have hchildren := a.times_children_le m (some n)
  have hbelow := a.timesBelow_le m (some n)
  have hparts := a.times_children_le m (a.child (some n) 0)
  have htarget := a.timesBelow_le m (a.child (some n) 0)
  have hvalue : pending a m (Work.visit? (a.child (some n) 1)) = a.times m (a.child (some n) 1) :=
    pending_visit? a m _
  unfold visitAssignment
  dsimp only
  split
  · next hnone =>
    rw [Arena.assignmentMentions, hnone]
    refine .pure ?_
    rw [hvalue, mentioned_nil]
    omega
  · next hidentifier =>
    obtain ⟨t, ht⟩ := Arena.exists_of_kind? hidentifier
    have hone : mentioned m [valueMention a (a.child (some n) 0) (a.child (some n) 1)] ≤
        a.times m (a.child (some n) 0) := by
      rw [ht] at hidentifier ⊢
      exact mentioned_single_le rfl (a.node?_of_kind? hidentifier)
    rw [Arena.assignmentMentions, hidentifier]
    refine .after fun _ => .pure ?_
    rw [hvalue]
    dsimp only
    omega
  · next hmember =>
    rw [Arena.assignmentMentions, hmember]
    refine .bind (visitPath_mentions (m := m) (a.child (some n) 0) true) fun found hfound => ?_
    obtain ⟨property?, works⟩ := found
    have hworks : mentioned m (a.pathMentions (a.child (some n) 0)) +
        pending a m (works ++ Work.visit? (a.child (some n) 1)) ≤ a.times m (some n) := by
      rw [pending_append, hvalue]
      dsimp only at hfound
      omega
    dsimp only
    split
    · exact .ite (fun _ => .after fun _ => .after fun _ => .pure hworks)
        fun _ => .after fun _ => .pure hworks
    · exact .pure hworks
  · next hcomputed =>
    rw [Arena.assignmentMentions, hcomputed]
    refine .bind (visitPath_mentions (m := m) (a.child (a.child (some n) 0) 0) false)
      fun found hfound => ?_
    obtain ⟨object?, works⟩ := found
    dsimp only at hfound
    have hkey : pending a m (Work.visit? (a.child (a.child (some n) 0) 1)) =
        a.times m (a.child (a.child (some n) 0) 1) := pending_visit? a m _
    have hworks : mentioned m (a.pathMentions (a.child (a.child (some n) 0) 0)) +
        pending a m (works ++ Work.visit? (a.child (some n) 1)) ≤ a.times m (some n) := by
      rw [pending_append, hvalue]
      omega
    dsimp only
    split
    · refine .after fun b => .after fun _ => .after fun _ => ?_
      exact .ite (fun _ => .after fun _ => .pure hworks) fun _ => .pure hworks
    · refine .pure ?_
      rw [pending_append, pending_append, hkey, hvalue]
      omega
  · next hidentifier hmember hcomputed htarget' =>
    rw [Arena.assignmentMentions, htarget']
    refine .pure ?_
    split
    · next heq => exact (hidentifier (Option.some.inj heq)).elim
    · next heq => exact (hmember (Option.some.inj heq)).elim
    · next heq => exact (hcomputed (Option.some.inj heq)).elim
    · rw [mentioned_nil, pending_append, hvalue, pending_visit?]
      omega

/-- A statement of a comment that is a dotted path refers to its root. -/
theorem visitExpressionStatement_mentions (hkind : a.kind? (some n) = some .expressionStatement)
    (b : Binder) :
    mentioned m (b.refers a (.visit n)) + pending a m (visitExpressionStatement a n b).1 ≤
      a.times m (some n) := by
  have hexpression := (a.times_child_le m (some n) 0).trans (a.timesBelow_le m _)
  have hvisit : pending a m (Work.visit? (a.child (some n) 0)) = a.times m (a.child (some n) 0) :=
    pending_visit? a m _
  have hmentions : b.refers a (.visit n) =
      if ((b.comments.get? (some n)).isSome &&
        a.isKind (a.child (some n) 0) .memberExpression) = true
      then a.pathMentions (a.child (some n) 0) else [] := by
    unfold Binder.refers
    dsimp only
    rw [hkind]
  have hidle : mentioned m [] + pending a m (Work.visit? (a.child (some n) 0)) ≤
      a.times m (some n) := by
    rw [hvisit, mentioned_nil, Nat.zero_add]
    exact hexpression
  rw [hmentions]
  unfold visitExpressionStatement
  rw [run_bind, run_get]
  dsimp only
  cases b.comments.get? (some n) with
  | none => exact hidle
  | some doc =>
    by_cases hmember : a.isKind (a.child (some n) 0) .memberExpression = true
    · rw [hmember]
      simp only [Option.isSome_some, Bool.and_self, if_true, Bool.not_true,
        Bool.false_eq_true, if_false]
      refine Yields.bind (Q := fun works => mentioned m (a.pathMentions (a.child (some n) 0)) +
        pending a m works ≤ a.times m (some n)) (visitPath_mentions (m := m)
          (a.child (some n) 0) true)
          (fun found hfound => ?_) b
      obtain ⟨property?, works⟩ := found
      have hworks := hfound.trans hexpression
      dsimp only
      split
      · exact .pure hworks
      · refine .ite (fun _ => .after fun _ => .after fun _ => .pure hworks) fun _ => ?_
        exact .ite (fun _ => .after fun _ => .after fun _ => .pure hworks) fun _ => .pure hworks
    · rw [Bool.eq_false_iff.2 hmember]
      simp only [Bool.and_false, Bool.false_eq_true, if_false, Bool.not_false, if_true]
      exact hidle

theorem mentioned_flatMap {ι : Type} (xs : List ι) (f : ι → List Parked) :
    mentioned m (xs.flatMap f) = (xs.map fun x => mentioned m (f x)).sum := by
  induction xs with
  | nil => rfl
  | cons x xs ih => rw [List.flatMap_cons, mentioned_append, ih, List.map_cons, List.sum_cons]

/-- What a path refers to is at or below it. -/
theorem pathMentions_le (r : NodeRef) : mentioned m (a.pathMentions r) ≤ a.times m r := by
  unfold Arena.pathMentions
  split
  · next hidentifier =>
    have hroot := times_pathRoot_le (a := a) (m := m) r
    obtain ⟨c, hc⟩ := Arena.exists_of_kind? (Arena.isKind_iff.1 hidentifier)
    rw [hc] at hidentifier hroot ⊢
    exact (mentioned_single_le rfl (a.node?_of_kind? (Arena.isKind_iff.1 hidentifier))).trans hroot
  · exact Nat.zero_le _

theorem typeNameMentions_le (n : Nat) :
    mentioned m (a.typeNameMentions n) ≤ a.timesBelow m (some n) := by
  have hreference := a.times_child_le m (some n) 0
  unfold Arena.typeNameMentions
  dsimp only
  split
  · next hkind =>
    split
    · exact Nat.zero_le _
    · obtain ⟨c, hc⟩ := Arena.exists_of_kind? hkind
      rw [hc] at hkind hreference ⊢
      exact (mentioned_single_le rfl (a.node?_of_kind? hkind)).trans hreference
  · exact (pathMentions_le _).trans hreference
  · exact Nat.zero_le _

/-- The type names of a comment. -/
theorem commentTypeNames_le (document : NodeRef) :
    mentioned m ((a.commentTypeNames document).flatMap a.typeNameMentions) ≤
      a.times m document := by
  rw [mentioned_flatMap]
  have hnames : ((a.commentTypeNames document).map fun n =>
    mentioned m (a.typeNameMentions n)).sum ≤
      ((a.commentTypeNames document).map fun n => a.timesBelow m (some n)).sum :=
    List.sum_le_sum fun n _ => typeNameMentions_le n
  refine hnames.trans ((sum_flatMap_le fun n _ => sum_typeNamesIn_le (some n)).trans ?_)
  rw [List.map_reverse, List.sum_reverse]
  exact (sum_typeOperands_le document).trans (a.timesBelow_le m document)

/-- **One piece of work.** It refers to a node, and asks for work that may refer to it, no more
often than the node is listed at and below the one that it is about. -/
theorem Moment.refers_within (reportUndefined : Bool) (work : Work) {b : Binder}
    (hb : b.Documented a) :
    mentioned m (b.refers a work) + pending a m (act a reportUndefined work b).1 ≤
      work.times a m := by
  match work with
  | .exitScope => exact Nat.zero_le _
  | .typeNames document => exact commentTypeNames_le document
  | .visit n =>
    obtain ⟨acts, -, -, hle⟩ := @visit_within a reportUndefined m n b hb
    have hquiet (h : b.refers a (.visit n) = []) :
        mentioned m (b.refers a (.visit n)) + pending a m (Binder.visit a n b).1 ≤
          a.times m (some n) := by
      rw [h, mentioned_nil]
      omega
    show mentioned m (b.refers a (.visit n)) + pending a m (Binder.visit a n b).1 ≤
      a.times m (some n)
    cases hkind : a.kind? (some n) with
    | none =>
      refine hquiet ?_
      unfold Binder.refers
      dsimp only
      rw [hkind]
    | some kind =>
      cases kind with
      | expressionStatement =>
        have hle := visitExpressionStatement_mentions (m := m) hkind b
        unfold Binder.visit
        rw [hkind]
        exact hle
      | assignment =>
        unfold Binder.visit Binder.refers
        dsimp only
        rw [hkind]
        exact visitAssignment_mentions n b
      | identifier =>
        unfold Binder.visit Binder.refers
        dsimp only
        rw [hkind]
        exact mentioned_single_le rfl (a.node?_of_kind? hkind)
      | memberExpression =>
        unfold Binder.visit Binder.refers
        dsimp only
        rw [hkind]
        exact visitPath_mentions (m := m) (some n) false b
      | _ =>
        refine hquiet ?_
        unfold Binder.refers
        dsimp only
        rw [hkind]

end Mentioned

end DocTypes
