import DocTypes.Proofs.Hierarchy.Frame
import DocTypes.Signature.Declared
import DocTypes.Typing.Receiver

/-!
# Working out types

What a declaration or a type expression means is worked out in few ways: types are made and
looked up, generic classes are applied to types, aliases get what they stand for, problems are
reported, and nodes of type expressions get types. A relation of states along which each of these
moves is one that the whole of it moves along.

## Main statements

* `TypeExpr.meaning_moves`: the meaning of one node (`Analysis.Evaluating`).
* `TypeExpr.transform_moves`: a whole type expression (`Analysis.Transforming`).
* `Signature.declaredType_moves`: the type of a declaration (`Analysis.Declaring`).
-/

namespace DocTypes

/-! ## Relations of states -/

namespace Analysis

/-- A relation of states along which types are made, functions among them whose arities go with
their parameters, and problems are reported. -/
class Composing (R : Analysis → Analysis → Prop) : Prop extends Std.Refl R, IsTrans Analysis R where
  interns {α : Type} {f : TypeStore → α × TypeStore}
    (h : ∀ types : TypeStore, types.Interns TypeExpr.Simple (f types).2) : Moves R (onTypes f)
  functions (x : Analysis) {shape : FunctionShape} (h : x.store.types.Fits shape) :
    MovesFrom R x (onTypes (·.function shape))
  reports (d : Diagnostic) (h : d.problem ≠ .cyclicTypedef) : Moves R (report d)

/-- A relation of states along which aliases get what they stand for besides. -/
class Forming (R : Analysis → Analysis → Prop) : Prop extends Composing R where
  targets (t target : TypeId) : Moves R (onTypes fun types => ((), types.setAliasTarget t target))

/-- A relation of states along which any types are made, aliases get what they stand for, and
problems are reported. -/
class Interpreting (R : Analysis → Analysis → Prop) :
    Prop extends Std.Refl R, IsTrans Analysis R where
  interns {α : Type} {f : TypeStore → α × TypeStore}
    (h : ∀ types : TypeStore, types.Interns TypeExpr.Ordinary (f types).2) : Moves R (onTypes f)
  targets (t target : TypeId) : Moves R (onTypes fun types => ((), types.setAliasTarget t target))
  reports (d : Diagnostic) (h : d.problem ≠ .cyclicTypedef) : Moves R (report d)

instance {R : Analysis → Analysis → Prop} [Interpreting R] : Forming R where
  interns h := Interpreting.interns fun types => (h types).mono fun _ hkey => hkey.1
  functions x _ _ :=
    (Interpreting.interns fun types => .intern types (by simp [TypeExpr.Ordinary])).movesFrom x
  targets := Interpreting.targets
  reports := Interpreting.reports

/-- A relation of states along which the meaning of a node is worked out. Of the aliases those get a
target that have no type expression. -/
class Construing (a : Arena) (R : Analysis → Analysis → Prop) : Prop extends Composing R where
  applications (n : Nat) : Moves R (TypeExpr.application a n)
  defaults {x : Analysis} {t : TypeId} {name : Atom} {tag : NodeRef}
    (hkey : x.store.types.key? t = some (.aliasOf name tag)) (hnone : a.typeOperand tag = none) :
    MovesFrom R x (TypeExpr.defaultTarget a t tag)

/-- A relation of states along which the meaning of a node is worked out, and any alias may get a
target. -/
class Evaluating (R : Analysis → Analysis → Prop) : Prop extends Forming R where
  applications (a : Arena) (n : Nat) : Moves R (TypeExpr.application a n)

instance {a : Arena} {R : Analysis → Analysis → Prop} [Evaluating R] : Construing a R where
  applications := Evaluating.applications a
  defaults _ _ := Moves.movesFrom (.bind (Forming.targets _ _) fun _ => .pure _) _

/-- A relation of states along which a type expression is worked out. -/
class Transforming (a : Arena) (R : Analysis → Analysis → Prop) : Prop extends Evaluating R where
  typed (n : Nat) (t : TypeId) (h : TypeExpr.IsTypeNode a n) : Moves R (setType (some n) t)
  cyclic (n : Nat) : Moves R (reportAt a .cyclicTypedef (some n))

/-- A relation of states along which type expressions and aliases are worked out. -/
class Working (a : Arena) (R : Analysis → Analysis → Prop) : Prop extends Composing R where
  transforms (r : NodeRef) (position : Position) : Moves R (TypeExpr.transform a r position)
  resolves (t : TypeId) : Moves R (TypeExpr.resolveAlias a t)

/-- A relation of states along which the type of a declaration is worked out. -/
class Declaring (a : Arena) (R : Analysis → Analysis → Prop) : Prop extends Transforming a R where
  aliases (name : Atom) (tag : NodeRef) : Moves R (onTypes (·.aliasOf name tag))

end Analysis

/-! ## The meaning of a node -/

namespace TypeExpr

open Analysis

section Meaning

variable {R : Analysis → Analysis → Prop} [Composing R]

theorem reportAt_moves (a : Arena) {problem : Problem} (node : NodeRef)
    (h : problem ≠ .cyclicTypedef) : Moves R (reportAt a problem node) := Composing.reports _ h

theorem union_moves (types : List TypeId) : Moves R (onTypes (·.union types)) :=
  Composing.interns fun types => .union types (by simp [Simple, Ordinary, TypeKey.Shapeless]) _

theorem union2_moves (t u : TypeId) : Moves R (union2 t u) := union_moves [t, u]

theorem removeMember_moves (t m : TypeId) : Moves R (onTypes (·.removeMember t m)) :=
  Composing.interns fun types =>
    .removeMember types (by simp [Simple, Ordinary, TypeKey.Shapeless]) _ _

theorem instanceOf_moves (v : ValueId) : Moves R (onTypes (·.instanceOf v)) :=
  Composing.interns fun types => .intern types (by simp [Simple, Ordinary, TypeKey.Shapeless])

theorem internList_moves (types : List TypeId) : Moves R (onTypes (·.internList types)) :=
  Composing.interns fun types => .internList types _

/-- A function is made of a list that was numbered and the counter of its kinds. -/
theorem functionShape_moves {x : Analysis} {shape : FunctionShape} {c : ArityCount}
    {types : List TypeId} (hc : c.Covers types) (harity : shape.arity = c.arity)
    (hlist : x.store.types.lists.get? shape.parameters.index = some types) :
    MovesFrom R x (onTypes (·.function shape)) := Composing.functions x (.ofCovers hc harity hlist)

omit [Composing R] in
theorem named_moves {a : Arena} [Construing a R] (t : TypeId) : Moves R (named a t) := by
  refine fun x => MovesFrom.bind_from (Moves.get x) ?_
  dsimp only [run_get]
  split
  · exact Moves.movesFrom (.bind (union2_moves _ _) fun _ => .pure _) x
  · exact Moves.movesFrom (.bind (union2_moves _ _) fun _ => .pure _) x
  · next hkey =>
    split
    · exact (Moves.pure _).movesFrom x
    · split
      · exact (Moves.pure _).movesFrom x
      · next hnone => exact .bind (Construing.defaults hkey hnone) fun _ => .pure _
  · exact (Moves.pure _).movesFrom x

theorem instanceType_moves (v : ValueId) : Moves R (Analyze.onStore (Store.instanceType v)) := by
  intro x
  unfold Analyze.onStore Store.instanceType
  by_cases hv : (x.store.values.constructed? v).isSome
  · simp only [bind, StateT.bind, get, getThe, MonadStateOf.get, StateT.get, pure, hv, if_true]
    exact Composing.interns (R := R) (f := (·.constructedInstanceOf v))
      (fun types => .intern types (by simp [Simple, Ordinary, TypeKey.Shapeless])) x
  · simp only [bind, StateT.bind, get, getThe, MonadStateOf.get, StateT.get, pure, hv]
    exact instanceOf_moves (R := R) v x

omit [Composing R] in
theorem typeName_moves {a : Arena} [Construing a R] (n : Nat) : Moves R (typeName a n) := by
  refine .bind .get fun x => ?_
  split
  · split
    · exact named_moves _
    · exact .pure _
  · split
    · split
      · exact named_moves _
      · dsimp only
        split
        · exact .bind (instanceType_moves _) fun t => .bind (union2_moves _ _) fun _ => .pure _
        · refine .bind (Composing.interns fun types => ?_) fun t =>
            .bind (union2_moves _ _) fun _ => .pure _
          exact .intern types (by simp [Simple, Ordinary, TypeKey.Shapeless])
    · dsimp only
      split
      · exact .bind (reportAt_moves a _ (by decide)) fun _ => .pure _
      · exact .pure _
  · exact .pure _

theorem childType_moves (a : Arena) (r : NodeRef) (i : Nat) : Moves R (childType a r i) :=
  .bind .get fun _ => .pure _

theorem childTypes_moves (a : Arena) (n skip : Nat) : Moves R (childTypes a n skip) :=
  .bind .get fun _ => .pure _

/-- A generic class may be applied to any types if a relation allows every constructed class. -/
theorem application_moves (happlies : ∀ node generic arguments,
    Moves R (onValues (·.newConstructedClass node generic arguments))) (a : Arena) (n : Nat) :
    Moves R (application a n) := by
  refine .bind .get fun x => ?_
  have hplain (problem : Problem) (hproblem : problem ≠ .cyclicTypedef) (raw : TypeId) :
      Moves R (do Analysis.reportAt a problem (some n); union2 raw .null) :=
    .bind (reportAt_moves a _ hproblem) fun _ => union2_moves _ _
  split
  · exact .pure _
  · exact .bind (reportAt_moves a _ (by decide)) fun _ => .pure _
  · refine .bind (childTypes_moves a n 1) fun types => .bind (instanceOf_moves _) fun raw => ?_
    refine .ite (fun _ => hplain _ (by decide) _) fun _ =>
      .ite (fun _ => hplain _ (by decide) _) fun _ => ?_
    refine .bind (internList_moves _) fun arguments => .bind (happlies _ _ _) fun constructed => ?_
    refine .bind (Composing.interns fun types => ?_) fun t => union2_moves _ _
    exact .intern types (by simp [Simple, Ordinary, TypeKey.Shapeless])

theorem nonNullable_moves (a : Arena) (n : Nat) : Moves R (nonNullable a n) := by
  refine .bind (childType_moves _ _ _) fun inner => .bind .get fun x => ?_
  refine .ite (fun _ => removeMember_moves _ _) fun _ => ?_
  exact .ite (fun _ => .bind (reportAt_moves a _ (by decide)) fun _ => .pure _) fun _ => .pure _

theorem fields_moves (a : Arena) (members : List NodeRef) (read : List (Atom × TypeId))
    (reported : List Atom) : Moves R (fields a read reported members) := by
  induction members generalizing read reported with
  | nil => exact .pure _
  | cons member rest ih =>
    unfold fields
    refine .ite (fun _ => .ite (fun _ => ih _ _) fun _ => ?_) fun _ => ?_
    · exact .bind (reportAt_moves a _ (by decide)) fun _ => ih _ _
    · exact .bind .get fun _ => ih _ _

/-- A parameter in the wrong place is no alias that is defined through itself. -/
theorem problem?_ne_cyclicTypedef (reached kind : ParameterKind) :
    ArityCount.problem? reached kind ≠ some .cyclicTypedef := by
  cases reached <;> cases kind <;> decide

theorem pushParameter_moves (a : Arena) (sig : Signature) (param : NodeRef) :
    Moves R (pushParameter a sig param) := by
  unfold pushParameter
  split
  · exact .bind (childType_moves _ _ _) fun _ => .pure _
  · exact .bind (childType_moves _ _ _) fun _ => .pure _
  · dsimp only
    split
    · next problem hproblem =>
      have hcyclic : problem ≠ .cyclicTypedef := by
        rintro rfl
        exact problem?_ne_cyclicTypedef _ _ hproblem
      exact .bind (reportAt_moves a _ hcyclic) fun _ => .bind .get fun _ => .pure _
    · exact .bind .get fun _ => .pure _

omit [Composing R] in
/-- One parameter more is counted and gets its type. -/
theorem pushParameter_covers (a : Arena) {sig : Signature} (hsig : sig.count.Covers sig.parameters)
    (param : NodeRef) : Yields (fun sig => sig.count.Covers sig.parameters)
      (pushParameter a sig param) := by
  unfold pushParameter
  split
  · exact .after fun _ => .pure hsig
  · exact .after fun _ => .pure hsig
  · dsimp only
    split
    · exact .after fun _ => .after fun _ => .pure (hsig.push _ _)
    · exact .after fun _ => .pure (hsig.push _ _)

theorem function_moves (a : Arena) (n : Nat) : Moves R (function a n) := by
  intro x
  have hpushed : MovesFrom R x ((a.children (a.child (some n) 0)).foldlM (pushParameter a) {}) :=
    Moves.foldlM (fun sig param _ => pushParameter_moves a sig param) {} x
  have hcovers : Yields (fun sig : Signature => sig.count.Covers sig.parameters)
      ((a.children (a.child (some n) 0)).foldlM (pushParameter a) {}) :=
    .foldlM ArityCount.covers_nil fun sig param _ hsig => pushParameter_covers a hsig param
  refine MovesFrom.bind_from hpushed (.bind_from (Moves.get _) ?_)
  refine .bind_from (internList_moves _ _) (functionShape_moves (hcovers x) rfl ?_)
  exact Registry.get?_intern _ _

omit [Composing R] in
/-- The meaning of a node is worked out along the relation. -/
theorem meaning_moves (a : Arena) [Construing a R] (n : Nat) (position : Position) :
    Moves R (meaning a n position) := by
  unfold meaning
  split
  · exact .pure _
  · exact .pure _
  · exact .pure _
  · exact typeName_moves n
  · exact .bind (Construing.applications n) fun _ => .pure _
  · exact .bind (childType_moves _ _ _) fun _ => .bind (union2_moves _ _) fun _ => .pure _
  · exact .bind (nonNullable_moves a n) fun _ => .pure _
  · refine .bind (childType_moves _ _ _) fun inner => ?_
    split
    · exact .bind (union2_moves _ _) fun _ => .pure _
    · exact .bind (reportAt_moves a _ (by decide)) fun _ => .pure _
  · refine .ite (fun _ => .bind (reportAt_moves a _ (by decide)) fun _ => ?_) fun _ => ?_
    · exact .bind (childType_moves _ _ _) fun _ => .pure _
    · exact .bind (childType_moves _ _ _) fun _ => .pure _
  · exact .bind (childTypes_moves _ _ _) fun types => .bind (union_moves _) fun _ => .pure _
  · refine .bind (childTypes_moves _ _ _) fun types => ?_
    exact .bind (Composing.interns fun types =>
      .tuple types (by simp [Simple, Ordinary, TypeKey.Shapeless]) _) fun _ => .pure _
  · refine .bind .get fun x => ?_
    exact .bind (Composing.interns fun types =>
      .intern types (by simp [Simple, Ordinary, TypeKey.Shapeless])) fun _ => .pure _
  · refine .bind (fields_moves _ _ _ _) fun fields => ?_
    refine .bind (Composing.interns fun types => ?_) fun _ => .pure _
    exact .record types (by simp [Simple, Ordinary, TypeKey.Shapeless]) (by simp [Simple, Ordinary,
      TypeKey.Shapeless]) fields
  · exact .bind (function_moves a n) fun _ => .pure _
  · exact .bind (childType_moves _ _ _) fun _ => .pure _
  · exact .bind (childType_moves _ _ _) fun _ => .pure _
  · exact .pure _

end Meaning

/-! ## Whole expressions -/

variable {a : Arena} {R : Analysis → Analysis → Prop} [Transforming a R]

theorem enter_transforms (expandable : List TypeId) (r : NodeRef) (position : Position) :
    Moves R (enter a expandable r position) :=
  enter_moves (meaning_moves a) Transforming.typed Forming.targets Transforming.cyclic
    expandable r position

/-- A type expression is worked out along the relation. -/
theorem transform_moves (r : NodeRef) (position : Position) : Moves R (transform a r position) := by
  refine .ite (fun _ => .pure _) fun _ => .bind .get fun x => ?_
  exact .bind (enter_transforms _ r position) fun _ => .bind .get fun _ => .pure _

theorem resolveAlias_moves (t : TypeId) : Moves R (resolveAlias a t) := by
  refine .bind .get fun x => ?_
  dsimp only
  split
  · exact .pure _
  · split
    · split
      · exact .bind (Forming.targets _ _) fun _ => .pure _
      · refine .bind (enter_transforms _ _ _) fun _ => .bind .get fun y => ?_
        split
        · exact .pure _
        · exact .bind (Forming.targets _ _) fun _ => .pure _
    · exact .pure _

instance : Working a R where
  transforms := transform_moves
  resolves := resolveAlias_moves

end TypeExpr

/-! ## Signatures -/

theorem Analysis.receiverType?_moves {R : Analysis → Analysis → Prop} [Composing R] (a : Arena)
    (function : NodeRef) : Moves R (receiverType? a function) := by
  refine .bind .get fun x => ?_
  split
  · exact .bind (TypeExpr.instanceType_moves _) fun _ => .pure _
  · exact .pure _

namespace Signature

open Analysis TypeExpr

variable {a : Arena} {R : Analysis → Analysis → Prop}

/-! ### Counted parameters -/

theorem countKind_fst (a : Arena) (s : Parameters) (kind : ParameterKind) (node : NodeRef)
    (x : Analysis) : (s.countKind a kind node x).1 = { s with count := (s.count.push kind).2 } := by
  unfold Parameters.countKind
  rcases s.count.push kind with ⟨_ | problem, count⟩ <;> rfl

/-- A parameter that is counted gets its type. -/
theorem addType_covers {s : Parameters} (hs : s.count.Covers s.types) (kind : ParameterKind)
    (node : NodeRef) (t : TypeId) (x : Analysis) :
    ((s.countKind a kind node x).1.addType t).count.Covers
      ((s.countKind a kind node x).1.addType t).types := by
  rw [countKind_fst]
  exact hs.push kind t

theorem pushTag_covers {s : Parameters} (hs : s.count.Covers s.types) (tag : Nat) :
    Yields (fun s => s.count.Covers s.types) (pushTag a s tag) :=
  fun x => addType_covers hs _ _ _ x

theorem pushEntry_covers (doc : Option DocComment) {s : Parameters} (hs : s.count.Covers s.types)
    (e : Entry) : Yields (fun s => s.count.Covers s.types) (pushEntry a doc s e) := by
  unfold pushEntry
  split
  · exact .after fun _ x => addType_covers hs _ _ _ x
  · exact .after fun _ x => addType_covers hs _ _ _ x

theorem ofList_covers (doc : Option DocComment) (function : NodeRef) :
    Yields (fun s => s.count.Covers s.types) (ofList a doc function) := by
  refine .bind (.foldlM ArityCount.covers_nil fun s e _ hs => pushEntry_covers doc hs e)
    fun s hs => ?_
  split
  · exact .after fun _ => .pure hs
  · exact .pure hs

/-- The parameters of a declaration are counted, and each gets its type. -/
theorem parameters_covers (a : Arena) (doc : Option DocComment) (function : NodeRef) :
    Yields (fun s => s.count.Covers s.types) (parameters a doc function) := by
  unfold parameters
  split
  · exact .foldlM ArityCount.covers_nil fun s tag _ hs => pushTag_covers hs tag
  · exact ofList_covers _ _

section Parameters

variable [Working a R]

theorem countKind_moves (s : Parameters) (kind : ParameterKind) (node : NodeRef) :
    Moves R (s.countKind a kind node) := by
  unfold Parameters.countKind
  dsimp only
  split
  · next problem hproblem =>
    have hcyclic : problem ≠ .cyclicTypedef := by
      rintro rfl
      exact problem?_ne_cyclicTypedef _ _ hproblem
    exact .bind (reportAt_moves a _ hcyclic) fun _ => .pure _
  · exact .bind (.pure _) fun _ => .pure _

theorem pushTag_moves (s : Parameters) (tag : Nat) : Moves R (pushTag a s tag) :=
  .bind (countKind_moves s _ _) fun _ => .bind (Working.transforms _ _) fun _ => .pure _

theorem taggedType_moves (e : Entry) (tag : Nat) : Moves R (taggedType a e tag) := by
  have hrest : Moves R (do
      let type ← TypeExpr.transform a (a.typeOperand (some tag)) .parameter
      if e.hasDefault && ParameterKind.ofTypeKind (a.kind? (a.typeOperand (some tag))) =
        .required then
        return (ParameterKind.ofTypeKind (a.kind? (a.typeOperand (some tag))),
          ← TypeExpr.union2 type .void)
      else return (ParameterKind.ofTypeKind (a.kind? (a.typeOperand (some tag))), type)) :=
    .bind (Working.transforms _ _) fun _ => .ite
      (fun _ => .bind (union2_moves _ _) fun _ => .pure _) fun _ => .pure _
  unfold taggedType
  dsimp only
  exact .ite (fun _ => .bind (reportAt_moves a _ (by decide)) fun _ => hrest) fun _ => hrest

omit [Working a R] in
theorem untaggedType_moves [Composing R] (doc : Option DocComment) (e : Entry) :
    Moves R (untaggedType a doc e) := by
  unfold untaggedType
  dsimp only
  split
  · exact .bind (reportAt_moves a _ (by decide)) fun _ => .pure _
  · exact .pure _

theorem pushEntry_moves (doc : Option DocComment) (s : Parameters) (e : Entry) :
    Moves R (pushEntry a doc s e) := by
  unfold pushEntry
  split
  · exact .bind (taggedType_moves e _) fun _ => .bind (countKind_moves s _ _) fun _ => .pure _
  · exact .bind (untaggedType_moves doc e) fun _ => .bind (countKind_moves s _ _) fun _ => .pure _

theorem ofList_moves (doc : Option DocComment) (function : NodeRef) :
    Moves R (ofList a doc function) := by
  refine .bind (.foldlM (fun s e _ => pushEntry_moves doc s e) _) fun parameters => ?_
  split
  · exact .bind (.forM fun tag _ => reportAt_moves a _ (by decide)) fun _ => .pure _
  · exact .pure _

theorem parameters_moves (doc : Option DocComment) (function : NodeRef) :
    Moves R (parameters a doc function) := by
  unfold parameters
  split
  · exact .foldlM (fun s tag _ => pushTag_moves s tag) _
  · exact ofList_moves _ _

theorem receiverType_moves (doc : Option DocComment) (d : Declaration) :
    Moves R (receiverType a doc d) := by
  unfold receiverType
  split
  · exact .bind (Working.transforms _ _) fun _ => removeMember_moves _ _
  · exact .pure _

theorem returnType_moves (doc : Option DocComment) : Moves R (returnType a doc) := by
  unfold returnType
  split
  · exact Working.transforms _ _
  · exact .pure _

omit [Working a R] in
theorem instanceTypeOf_moves [Composing R] (cls : Option ValueId) :
    Moves R (instanceTypeOf cls) := by
  unfold instanceTypeOf
  split
  · exact instanceOf_moves _
  · exact .pure _

theorem functionType_moves (doc : Option DocComment) (d : Declaration) (kind : FunctionKind) :
    Moves R (functionType a doc d kind) := by
  have hrest (thisType : TypeId) : Moves R (do
      let parameters ← parameters a doc d.function
      let returnType ← returnType a doc
      let typeParameters := typeParameters (← get) doc
      let types ← Analysis.onTypes (·.internList parameters.types)
      let typeParameters ← Analysis.onTypes (·.internList typeParameters)
      Analysis.onTypes (·.function
        { kind, parameters := types, arity := parameters.count.arity, thisType, returnType
          typeParameters })) := by
    intro x
    have hcovers := parameters_covers a doc d.function x
    refine MovesFrom.bind_from (parameters_moves doc _ x) ?_
    refine .bind_from (returnType_moves doc _) (.bind_from (Moves.get _) ?_)
    refine .bind_from (internList_moves _ _) (.bind_from (internList_moves _ _) ?_)
    refine functionShape_moves hcovers rfl ?_
    -- The list of the parameters stays when that of the type parameters is numbered.
    exact Registry.get?_intern_of_some _ (Registry.get?_intern _ _)
  unfold functionType
  cases kind with
  | constructor => exact .bind (instanceTypeOf_moves _) hrest
  | normal => exact .bind (receiverType_moves doc d) hrest

end Parameters

/-- The type of a declaration is worked out along a relation along which its alias is made. -/
theorem declaredType_works [Working a R] (doc : DocComment) (d : Declaration)
    (halias : ∀ slot name, Moves R (onTypes (·.aliasOf name (doc.tag slot)))) :
    Moves R (declaredType a doc d) := by
  have haliasType (slot : TagSlot) (name : Atom) : Moves R (aliasType a doc slot name) :=
    .bind (halias slot name) fun _ => .bind (Working.resolves _) fun _ => .pure _
  unfold declaredType
  split
  · exact functionType_moves _ d _
  · exact instanceTypeOf_moves _
  · exact functionType_moves _ d _
  · exact Working.transforms _ _
  · exact Working.transforms _ _
  · exact haliasType _ _
  · exact haliasType _ _
  · exact .pure _
  · exact .ite (fun _ => functionType_moves _ d _) fun _ => .pure _

/-- The type of a declaration is worked out along the relation. -/
theorem declaredType_moves [Declaring a R] (doc : DocComment) (d : Declaration) :
    Moves R (declaredType a doc d) :=
  declaredType_works doc d fun _ _ => Declaring.aliases a _ _

end Signature

end DocTypes
