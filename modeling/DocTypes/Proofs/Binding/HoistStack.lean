import DocTypes.Binding.HoistStack
import DocTypes.Proofs.Binding.Covering
import DocTypes.Proofs.Run

/-!
# The hoister and the recursion

What a statement hoists is what it hoists itself, and then what its parts hoist
(`Arena.hoisted_eq`). The hoister puts the parts on top of its stack, so what the stack hoists as
a whole, from the top, is the same before and after a step, less what the step declares.

## Main statement

* `Hoister.openBody_eq_run`: opening a body leads the binder to where the hoister leads it.
-/

namespace DocTypes

namespace Arena

theorem hoisted_none (a : Arena) : a.hoisted none = [] := by rw [hoisted]

/-- A part that is left out hoists nothing. -/
theorem flatMap_hoisted_present (a : Arena) (parts : List NodeRef) :
    (parts.filter Option.isSome).flatMap a.hoisted = parts.flatMap a.hoisted := by
  induction parts with
  | nil => rfl
  | cons r rest ih =>
    cases r with
    | none => rw [List.flatMap_cons, hoisted_none, List.nil_append, ← ih]; rfl
    | some n => rw [List.filter_cons_of_pos rfl, List.flatMap_cons, List.flatMap_cons, ih]

theorem hoisted_eq (a : Arena) (n : Nat) :
    a.hoisted (some n) = a.hoistedHere n ++ (a.hoistsBelow n).flatMap a.hoisted := by
  cases hkind : a.kind? (some n) with
  | none =>
    rw [hoisted, hoistedHere, hoistsBelow, hkind]
    rfl
  | some kind =>
    rw [hoistedHere, hoistsBelow, hkind]
    cases kind with
    | varStatement => rw [hoisted_varStatement hkind, List.flatMap_nil, List.append_nil]
    | functionDeclaration =>
      rw [hoisted_functionDeclaration hkind, List.flatMap_nil, List.append_nil]
    | annotated => rw [hoisted_annotated hkind, List.flatMap_singleton]
    | block | ifStatement | forStatement | forInStatement | forOfStatement | whileStatement
    | doWhileStatement | tryStatement | catchClause =>
      rw [hoisted_of_passes hkind rfl, ← flatMap_hoisted_present]
      rfl
    | _ => exact hoisted_of_other hkind rfl (by decide) (by decide) (by decide)

end Arena

namespace Hoister

variable {a : Arena} {id : ScopeId}

/-- The hoister declares what its stack hoists, from the top. -/
theorem run_eq (h : Hoister) :
    h.run a id = ((h.stack.flatMap a.hoisted).forM (Binder.hoist a id) h.binder).2 := by
  fun_induction run a id h with
  | case1 h hdone =>
    obtain ⟨stack, b⟩ := h
    match stack with
    | [] => rfl
    | none :: rest | some n :: rest => cases hdone
  | case2 h h' hstep ih =>
    obtain ⟨stack, b⟩ := h
    match stack with
    | [] => cases hstep
    | none :: rest =>
      cases hstep
      rw [ih, List.flatMap_cons, a.hoisted_none, List.nil_append]
    | some n :: rest =>
      cases hstep
      rw [ih, List.flatMap_cons, List.flatMap_append, a.hoisted_eq n, List.append_assoc,
        run_forM_append (a.hoistedHere n)]

/-- Hoisting out of a body declares what its statements hoist. -/
theorem run_start (statements : List NodeRef) (b : Binder) :
    (start statements b).run a id =
      ((statements.flatMap a.hoisted).forM (Binder.hoist a id) b).2 := by
  rw [run_eq, start, a.flatMap_hoisted_present]

theorem openBody_eq_run (statements : List NodeRef) (b : Binder) :
    (Binder.openBody a id statements b).2 =
      (Binder.reserveAll id (statements.flatMap a.reservations)
        ((start statements b).run a id)).2 := by
  rw [run_start]
  rfl

end Hoister

end DocTypes
