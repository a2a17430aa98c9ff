import DocTypes.Proofs.Nodes.Typing
import DocTypes.Tree.Builder

/-!
# Nothing that should have a type is missed

The third pass sees every node of the program. A function is typed when it is visited, whatever its
comment or its class did before, and so is a literal, and a name that stands for `undefined`. A
commented declaration leaves the pass by one of three ways, and on each of them the type expressions
of its comment that are still without a type get one. What has a type keeps one.

## Main statements

* `TypeExpr.enter_types`: a type expression has a type once it is worked out.
* `Typing.annotated_types_operands`: the type expressions of a comment.
* `Analysis.run_covers`: the whole pass.
-/

namespace DocTypes

open Arena

/-- The kinds of literals that are values of a primitive type. -/
def NodeKind.isLiteral : NodeKind → Bool
  | .numericLiteral | .stringLiteral | .booleanLiteral | .nullLiteral => true
  | _ => false

/-! ## Type expressions -/

namespace TypeExpr

variable {a : Arena} {n : Nat} {kind : NodeKind}

/-- The meaning is a type, or what an alias stands for. -/
theorem named_ne_nothing (t : TypeId) : Yields (· ≠ .nothing) (named a t) := by
  refine .after fun x => ?_
  dsimp only
  split
  · exact .after fun _ => .pure Meaning.noConfusion
  · exact .after fun _ => .pure Meaning.noConfusion
  · split
    · exact .pure Meaning.noConfusion
    · split
      · exact .pure Meaning.noConfusion
      · exact .after fun _ => .pure Meaning.noConfusion
  · exact .pure Meaning.noConfusion

theorem typeName_ne_nothing (n : Nat) : Yields (· ≠ .nothing) (typeName a n) := by
  refine .after fun x => ?_
  split
  · split
    · exact named_ne_nothing _
    · exact .pure Meaning.noConfusion
  · split
    · split
      · exact named_ne_nothing _
      · dsimp only
        split
        · exact .after fun _ => .after fun _ => .pure Meaning.noConfusion
        · exact .after fun _ => .after fun _ => .pure Meaning.noConfusion
    · exact .ite (fun _ => .after fun _ => .pure Meaning.noConfusion) fun _ =>
        .pure Meaning.noConfusion
  · exact .pure Meaning.noConfusion

/-- Every type expression has a meaning of its own, a parameter list apart. -/
theorem meaning_ne_nothing (hkind : a.kind? (some n) = some kind)
    (hexpression : kind.isTypeExpression = true) (hlist : kind ≠ .functionTypeParameters)
    (position : Position) : Yields (· ≠ .nothing) (meaning a n position) := by
  have htype {m : Analyze TypeId} : Yields (· ≠ .nothing) (do return Meaning.type (← m)) :=
    .after fun _ => .pure Meaning.noConfusion
  unfold meaning
  rw [hkind]
  cases kind with
  | functionTypeParameters => exact absurd rfl hlist
  | typeName => exact typeName_ne_nothing n
  | anyType | unknownType | voidType => exact .pure Meaning.noConfusion
  | typeApplication | nonNullableType | functionType | thisType | newType => exact htype
  | nullableType | unionType | tupleType | recordMember | recordType => exact .after fun _ => htype
  | optionalType =>
    refine .after fun _ => ?_
    cases position with
    | parameter => exact htype
    | plain => exact .after fun _ => .pure Meaning.noConfusion
  | restType => exact .ite (fun _ => .after fun _ => htype) fun _ => htype
  | _ => cases hexpression

theorem setType_types (r : NodeRef) (t : TypeId) (x : Analysis) :
    ((Analysis.setType r t x).2.typeOf? r).isSome := by
  show ((x.typeTable.insert r t).get? r).isSome
  rw [NodeTable.get?_insert, if_pos rfl]
  rfl

/-- A type expression has a type once it is worked out. -/
theorem enter_types (hkind : a.kind? (some n) = some kind)
    (hexpression : kind.isTypeExpression = true) (hlist : kind ≠ .functionTypeParameters)
    (expandable : List TypeId) (position : Position) (x : Analysis) :
    ((enter a expandable (some n) position x).2.typeOf? (some n)).isSome := by
  rw [enter_some, run_bind, run_get]
  split
  · next htyped => exact htyped
  · rw [run_bind, run_bind]
    generalize ((operands a n).forM _ : Analyze PUnit) (x, x).2 = found
    obtain ⟨-, y⟩ := found
    have hmeaning := meaning_ne_nothing hkind hexpression hlist position y
    generalize meaning a n position y = found at hmeaning
    obtain ⟨meaning, z⟩ := found
    cases meaning with
    | nothing => exact absurd rfl hmeaning
    | type t => exact setType_types _ _ _
    | expansion t operand =>
      by_cases ht : t ∈ expandable
      · rw [conclude_of_mem ht]
        exact setType_types _ _ _
      · rw [conclude_of_not_mem ht]
        exact setType_types _ _ _

/-- A type expression has a type once its type was asked for. -/
theorem transform_types (hkind : a.kind? (some n) = some kind)
    (hexpression : kind.isTypeExpression = true) (hlist : kind ≠ .functionTypeParameters)
    (position : Position) (x : Analysis) :
    ((transform a (some n) position x).2.typeOf? (some n)).isSome :=
  enter_types hkind hexpression hlist x.store.types.aliases position x

end TypeExpr

/-! ## Rules -/

namespace Typing

open Analysis

variable {a : Arena} {root : NodeRef} {n : Nat} {x : Analysis}

/-- What one of the steps gives a type has one after all of them. -/
theorem forM_typed {ι : Type} {f : ι → Analyze PUnit} {is : List ι} (hx : x.Closed)
    (hruns : ∀ i ∈ is, ∀ y : Analysis, y.Closed → Runs Leads y (f i) fun _ _ => True) {i : ι}
    (hi : i ∈ is) {r : NodeRef} (htyped : ∀ y, ((f i y).2.typeOf? r).isSome) :
    ((is.forM f x).2.typeOf? r).isSome := by
  induction is generalizing x with
  | nil => exact (List.not_mem_nil hi).elim
  | cons j is ih =>
    have hfirst := (hruns j List.mem_cons_self x hx).1
    have hrest : ∀ i ∈ is, ∀ y : Analysis, y.Closed → Runs Leads y (f i) fun _ _ => True :=
      fun i hi => hruns i (List.mem_cons_of_mem j hi)
    rcases List.mem_cons.1 hi with rfl | hi
    · have hlater : (f i x).2.Leads (is.forM f (f i x).2).2 :=
        (Runs.forM (.refl hfirst.closed) fun i hi y hy => hrest i hi y hy.closed).1
      exact typed_of_changes hlater.steps (htyped x)
    · exact ih hfirst.closed hrest hi

/-- The type expression of a tag has a type once the operands of its comment were gone through. -/
theorem remainingOperands_types (hx : x.Closed) {document : NodeRef} {tag operand : Nat}
    (htag : tag ∈ a.tags document) (hoperand : a.typeOperand (some tag) = some operand)
    (hlist : a.kind? (some operand) ≠ some .functionTypeParameters) :
    ((remainingOperands a document x).2.typeOf? (some operand)).isSome := by
  obtain ⟨kind, hkind, hexpression⟩ : ∃ kind, a.kind? (some operand) = some kind ∧
      kind.isTypeExpression = true :=
    kind?_of_isOf (List.find?_some
      (p := fun c : Nat => a.isOf NodeKind.isTypeExpression (some c)) hoperand)
  have hne : kind ≠ .functionTypeParameters := fun heq => hlist (heq ▸ hkind)
  refine forM_typed hx (fun tag _ y hy => ?_) htag fun y => ?_
  · refine .get_bind (.ite (fun _ => ?_) fun _ => pure_runs hy trivial)
    exact (TypeExpr.transform_runs hy a _ _).discard
  · rw [hoperand, run_bind, run_get]
    cases htyped : y.typeOf? (some operand) with
    | some t => exact Option.isSome_of_eq_some htyped
    | none => exact TypeExpr.transform_types hkind hexpression hne _ y

theorem described_leads (hx : x.Closed) (a : Arena) (node : NodeRef) :
    x.Leads (described a node x).2 := by
  have hruns : Runs Leads x (described a node) fun _ _ => True := by
    unfold described
    refine .get_bind (.ite (fun _ => ?_) fun _ => pure_runs hx trivial)
    split
    · refine (classBody_runs hx a _ _).bind fun t y hy ht => ?_
      exact registerAll_runs hy.closed _ ht
    · exact declaration_runs hx a _ _ _
  exact hruns.1

/-- A commented declaration has types for all type expressions of its comment once it is visited. -/
theorem annotated_types_operands (hx : x.Closed) (node : NodeRef) {tag operand : Nat}
    (htag : tag ∈ a.tags (a.child node 0)) (hoperand : a.typeOperand (some tag) = some operand)
    (hlist : a.kind? (some operand) ≠ some .functionTypeParameters) :
    ((annotated a node x).2.typeOf? (some operand)).isSome := by
  rw [annotated_eq]
  exact remainingOperands_types (described_leads hx a node).closed htag hoperand hlist

theorem setTypeIfNew_types (r : NodeRef) (t : TypeId) (x : Analysis) :
    ((setTypeIfNew r t x).2.typeOf? r).isSome := by
  show ((x.typeTable.insertIfNew r t).get? r).isSome
  rw [NodeTable.get?_insertIfNew, if_pos rfl]
  rfl

/-- A literal has a type once it is visited. -/
theorem visit_types_literal {kind : NodeKind} (hkind : a.kind? (some n) = some kind)
    (hliteral : kind.isLiteral = true) (x : Analysis) :
    ((visit a n x).2.typeOf? (some n)).isSome := by
  unfold visit
  rw [hkind]
  cases kind with
  | numericLiteral | stringLiteral | booleanLiteral | nullLiteral => exact setTypeIfNew_types _ _ x
  | _ => cases hliteral

/-- A name for `undefined` has a type once it is visited. -/
theorem visit_types_undefined (hkind : a.kind? (some n) = some .identifier)
    (hvalue : x.valueOf? (some n) = some x.undefinedValue) :
    ((visit a n x).2.typeOf? (some n)).isSome := by
  unfold visit
  rw [hkind]
  dsimp only
  rw [run_bind, run_get, if_pos hvalue]
  exact setTypeIfNew_types _ _ x

theorem visit_types_function {kind : NodeKind} (hkind : a.kind? (some n) = some kind)
    (hfunction : kind.isFunctionLike = true) (x : Analysis) :
    ((visit a n x).2.typeOf? (some n)).isSome := by
  rw [visit_function hkind hfunction]
  exact (function_types a (some n) x).1

/-! ## The pass -/

/-- A node of the program that is typed by its own visit has a type after the pass. -/
theorem run_typed_of_visit (hx : x.Closed) (hn : n ∈ a.code root) {r : NodeRef}
    (hvisit : ∀ y : Analysis, x.Leads y → x.SameSites y → ((visit a n y).2.typeOf? r).isSome) :
    ((run a root x).2.typeOf? r).isSome := by
  obtain ⟨before, after, hsplit⟩ := List.append_of_mem hn
  exact run_typed hsplit hx (hvisit _ (visits_lead hx a before) (visits_sameSites a before x))

end Typing

namespace Analysis

theorem Change.undefinedValue_eq {x y : Analysis} (h : Change x y) :
    y.undefinedValue = x.undefinedValue := by cases h <;> rfl

theorem Leads.undefinedValue_eq {x y : Analysis} (h : x.Leads y) :
    y.undefinedValue = x.undefinedValue := by
  obtain ⟨-, hsteps, -⟩ := h
  induction hsteps with
  | refl => rfl
  | tail _ hstep ih => exact hstep.undefinedValue_eq.trans ih

/-- **Nothing that should have a type is missed.** After a run every function and every literal of
the program has a type, and so has every name for `undefined`. The type expression of every tag of a
comment has one too, unless it is a parameter list that stands alone. -/
theorem run_covers (a : Arena) (root : NodeRef) (options : Options) {n : Nat}
    (hn : n ∈ a.code root) :
    (a.isOf NodeKind.isFunctionLike (some n) = true ∨ a.isOf NodeKind.isLiteral (some n) = true →
      ((run a root options).typeOf? (some n)).isSome) ∧
    (a.kind? (some n) = some .identifier →
      (run a root options).valueOf? (some n) = some (run a root options).undefinedValue →
      ((run a root options).typeOf? (some n)).isSome) ∧
    (a.kind? (some n) = some .annotated → ∀ tag ∈ a.tags (a.child (some n) 0), ∀ operand,
      a.typeOperand (some tag) = some operand →
      a.kind? (some operand) ≠ some .functionTypeParameters →
      ((run a root options).typeOf? (some operand)).isSome) := by
  let x := runPasses a (options.reports a root) root 2
  have hx : x.Closed := (runPasses_steps a (options.reports a root) root 2).closed
  have hrun : run a root options = (Typing.run a root x).2 :=
    runPasses_three a (options.reports a root) root
  rw [hrun]
  refine ⟨fun hkind => ?_, fun hkind hvalue => ?_, fun hkind tag htag operand hoperand hlist => ?_⟩
  · rcases hkind with hfunction | hliteral
    · obtain ⟨kind, hkind, hfunction⟩ := Arena.kind?_of_isOf hfunction
      exact Typing.run_typed_of_visit hx hn fun z _ _ =>
        Typing.visit_types_function hkind hfunction z
    · obtain ⟨kind, hkind, hliteral⟩ := Arena.kind?_of_isOf hliteral
      exact Typing.run_typed_of_visit hx hn fun z _ _ => Typing.visit_types_literal hkind hliteral z
  · refine Typing.run_typed_of_visit hx hn fun z hleads hsame =>
      Typing.visit_types_undefined hkind ?_
    have hvalues := (Typing.run_sameSites a root x).valueOf?_eq (some n)
    have hundefined := (Typing.run_runs hx a root).1.undefinedValue_eq
    rw [hvalues, hundefined] at hvalue
    rw [hsame.valueOf?_eq, hvalue, hleads.undefinedValue_eq]
  · refine Typing.run_typed_of_visit hx hn fun z hleads _ => ?_
    rw [Typing.visit_annotated hkind]
    exact Typing.annotated_types_operands hleads.closed (some n) htag hoperand hlist

/-- `/** @param {number} p */ function f(p) { undefined; 1; }`. -/
def commentedFunction : Build NodeRef := do
  let type ← Builder.simple .typeName [← Builder.identifier "number"]
  let tag ← Builder.tag "param" [type, ← Builder.plainLeaf .jsDocName "p"]
  let document ← Builder.document [tag]
  let first ← Builder.expressionStatement (← Builder.identifier "undefined")
  let second ← Builder.expressionStatement (← Builder.number "1")
  let function ← Builder.functionDeclaration "f" (← Builder.parameterNames ["p"]) [first, second]
  Builder.script [← Builder.annotated document function]

/-- In this tree the number, the name, the function and the type expression of the tag
have types. -/
theorem commentedFunction_covers :
    let tree := commentedFunction Builder.new
    (∀ n ∈ [7, 5, 13, 14], n ∈ tree.2.arena.code tree.1) ∧
      ∀ n ∈ [7, 5, 13, 1], ((run tree.2.arena tree.1 {}).typeOf? (some n)).isSome := by
  intro tree
  have hcode : ∀ n ∈ [7, 5, 13, 14], n ∈ tree.2.arena.code tree.1 := by decide +kernel
  have hnumber := (run_covers tree.2.arena tree.1 {} (hcode 7 (by decide))).1 (by decide +kernel)
  have hname := (run_covers tree.2.arena tree.1 {} (hcode 5 (by decide))).2.1 (by decide +kernel)
    (by decide +kernel)
  have hfunction := (run_covers tree.2.arena tree.1 {} (hcode 13 (by decide))).1 (by decide +kernel)
  have hoperand := (run_covers tree.2.arena tree.1 {} (hcode 14 (by decide))).2.2
    (by decide +kernel)
    3 (by decide +kernel) 1 (by decide +kernel) (by decide +kernel)
  refine ⟨hcode, fun n hn => ?_⟩
  simp only [List.mem_cons, List.not_mem_nil, or_false] at hn
  rcases hn with rfl | rfl | rfl | rfl
  · exact hnumber
  · exact hname
  · exact hfunction
  · exact hoperand

end Analysis

end DocTypes
