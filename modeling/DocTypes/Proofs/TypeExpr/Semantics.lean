import DocTypes.Proofs.TypeExpr.Stack
import DocTypes.Proofs.Tree.Shape
import DocTypes.Proofs.Types.Arities
import DocTypes.Proofs.Types.Sameness

/-!
# What type expressions mean

A type expression has a meaning that says nothing of nodes that were worked out before, of numbers
and of stacks: a `Structure`, by recursion on the expression. `TypeExpr.layer` is one level of it.
It makes the structure of a node from the structures of what stands below it, and from what the
aliases stand for that it names. `TypeExpr.structureIn` is the whole recursion. An alias stands for
what its own expression means, so the recursion goes on there. The aliases that it may still go into
are carried along; an alias that it has come from means nothing.

On expressions from which no alias is reached that is defined through itself, the aliases that are
carried along make no difference, and what is left is the plain recursion
(`TypeExpr.structureOf_same`).

## Main statements

* `TypeExpr.layer_same`: one level depends on what stands below a node, up to sameness.
* `TypeExpr.structureIn_same`: the aliases that may be gone into make no difference.
* `TypeExpr.structureOf_same`: the recursion equation.
-/

namespace DocTypes

open Relation

/-! ## The grammar of type expressions -/

namespace Arena

/-- Whether a node has below it what the grammar of type expressions asks for: a function
type begins with its parameter list, a record type lists members, and no tag has a bare
parameter list. -/
def isGrammatical (a : Arena) (n : Nat) : Bool :=
  match a.kind? (some n) with
  | some .functionType => a.isKind (a.child (some n) 0) .functionTypeParameters
  | some .recordType => (a.children (some n)).all (a.isKind · .recordMember)
  | some .jsDocTag => !a.isKind (a.typeOperand (some n)) .functionTypeParameters
  | _ => true

/-- The type expressions of a tree follow the grammar. -/
def Grammatical (a : Arena) (root : NodeRef) : Prop :=
  ∀ n ∈ a.listing root, a.isGrammatical n = true

instance (a : Arena) (root : NodeRef) : Decidable (a.Grammatical root) :=
  inferInstanceAs (Decidable (∀ n ∈ a.listing root, a.isGrammatical n = true))

end Arena

/-! ## Structures with and without null -/

namespace Structure

/-- The union of a structure with `null`. -/
noncomputable def orNull (x : Structure) : Structure := unite [x, .leaf .null]

/-- A union without `null`. What has no member `null` stays as it is. -/
noncomputable def withoutNull (x : Structure) : Structure :=
  if x.members.any (·.isLeaf .null) then normalUnite (x.members.filter (!·.isLeaf .null)) else x

variable {x y : Structure}

theorem Same.unite_pair (h : Same x y) (z : Structure) : Same (unite [x, z]) (unite [y, z]) :=
  unite_congr (.of_forall₂ (.cons h (.cons (.refl z) .nil)))

theorem Same.orNull (h : Same x y) : Same x.orNull y.orNull := h.unite_pair _

theorem Same.withoutNull (h : Same x y) : Same x.withoutNull y.withoutNull := by
  have hmembers := h.members
  have hnull : x.members.any (·.isLeaf .null) = y.members.any (·.isLeaf .null) := by
    rw [Bool.eq_iff_iff, any_isLeaf_iff, any_isLeaf_iff]
    exact hmembers.leaf_mem_iff .null
  unfold Structure.withoutNull
  rw [hnull]
  split
  · have hrest := hmembers.without .null
    exact normalUnite_congr (hrest.leaf_mem_iff .any) fun _ => hrest.kept
  · exact h

end Structure

namespace TypeExpr

open Analysis Structure

/-! ## One level -/

section Levels

variable (a : Arena) (x : Analysis) (f : NodeRef → Position → Structure)
  (targetOf : TypeId → Structure)

/-- What an alias stands for if its tag has no type expression. -/
def defaultType (t : TypeId) : TypeId :=
  match x.store.types.key? t with
  | some (.aliasOf _ tag) => if a.text tag = "enum" then .number else .unspecified
  | _ => .unspecified

/-- What a name means that is bound to a type. -/
noncomputable def boundStructure (t : TypeId) : Structure :=
  match x.store.types.key? t with
  | some (.instanceOf _) | some (.constructedInstanceOf _) => (x.store.unfold t).orNull
  | some (.aliasOf _ _) => targetOf t
  | _ => x.store.unfold t

/-- What a dotted name means that leads to a value: the instances of a class, or the value. -/
noncomputable def valueStructure (v : ValueId) : Structure :=
  let value := x.store.valueStructure x.store.unfold v
  Structure.orNull <|
    if x.store.values.isClassLike v then
      if (x.store.values.constructed? v).isSome then .constructedInstanceOf value
        else .instanceOf value
    else .reference value

/-- What a type name means. -/
noncomputable def nameStructure (n : Nat) : Structure :=
  match boundType? x a n with
  | some t => boundStructure x targetOf t
  | none =>
    let reference := a.child (some n) 0
    match a.kind? reference with
    | some .identifier => x.store.unfold ((builtinType? (a.text reference)).getD .unspecified)
    | some .memberExpression =>
      match x.resolvePath a reference with
      | some v => valueStructure x (x.denote v)
      | none => .leaf .unspecified
    | _ => .leaf .unspecified

/-- What a class means that is applied to types. With the wrong number of them it means the
instances of the class itself. -/
noncomputable def applicationStructure (n : Nat) : Structure :=
  match appliedClass? x a (a.child (some n) 0) with
  | none | some none => .leaf .unspecified
  | some (some cls) =>
    let generic := x.store.valueStructure x.store.unfold cls
    let arguments := ((a.children (some n)).drop 1).map (f · .plain)
    let count := ((x.store.values.class? cls).map (·.typeParameters.length)).getD 0
    Structure.orNull <|
      if count = 0 ∨ count ≠ arguments.length then .instanceOf generic
      else .constructedInstanceOf (.applied generic arguments)

/-- What an expression means that may be left out. -/
def structureOr (default : Structure) : NodeRef → Structure
  | some type => f (some type) .plain
  | none => default

/-- What the member of a record is: every value if it says nothing. -/
def memberStructure (member : NodeRef) : Structure := structureOr f (.leaf .any) (a.child member 1)

/-- Whether an entry of a parameter list is no parameter but the type of the receiver. -/
def isReceiver (entry : NodeRef) : Bool := a.isKind entry .thisType || a.isKind entry .newType

/-- What a function type means. The last receiver counts. -/
def functionStructure (n : Nat) : Structure :=
  let entries := a.children (a.child (some n) 0)
  let parameters := entries.filter (!isReceiver a ·)
  .function (if entries.any (a.isKind · .newType) then .constructor else .normal)
    (ArityCount.of (parameters.map fun p => .ofTypeKind (a.kind? p))).arity
    (parameters.map (f · .parameter))
    ((entries.filter (isReceiver a ·)).getLast?.elim (.leaf .unspecified) fun receiver =>
      f (a.child receiver 0) .plain)
    (structureOr f (.leaf .void) (a.child (some n) 1))
    []

/-- One level of the meaning of a node, over the structures of what stands below it and of what
aliases stand for. What is no type expression, and a parameter list, has none. The fields of a
record are looked up by their labels, so the first one of each label counts. -/
noncomputable def layer (n : Nat) (position : Position) : Option Structure :=
  let first := f (a.child (some n) 0) .plain
  match a.kind? (some n) with
  | some .anyType => some (.leaf .any)
  | some .unknownType => some (.leaf .unspecified)
  | some .voidType => some (.leaf .void)
  | some .typeName => some (nameStructure a x targetOf n)
  | some .typeApplication => some (applicationStructure a x f n)
  | some .nullableType => some first.orNull
  | some .nonNullableType => some first.withoutNull
  | some .optionalType =>
    match position with
    | .parameter => some (unite [first, .leaf .void])
    | .plain => some first
  | some .restType | some .thisType | some .newType => some first
  | some .unionType => some (unite ((a.children (some n)).map (f · .plain)))
  | some .tupleType => some (.tuple ((a.children (some n)).map (f · .plain)))
  | some .recordMember =>
      some (.labeled (a.atom (a.child (some n) 0)) (memberStructure a f (some n)))
  | some .recordType =>
    some (.record ((a.children (some n)).map fun member =>
      (a.atom (a.child member 0), memberStructure a f member)))
  | some .functionType => some (functionStructure a f n)
  | _ => none

end Levels

/-! ## The recursion -/

/-- The structure of a type expression. The recursion may go into the aliases that are `expandable`.
What has no meaning of its own keeps the type that it has. -/
noncomputable def structureIn (a : Arena) (x : Analysis) (expandable : List TypeId) (r : NodeRef)
    (position : Position) : Structure :=
  match r with
  | none => x.store.unfold (x.typeOf none)
  | some n =>
    let below (c : NodeRef) (q : Position) : Structure :=
      if _ : c.rank < n + 1 then structureIn a x expandable c q else .missing
    let targetOf (t : TypeId) : Structure :=
      match aliasOperand x a t with
      | none => x.store.unfold (defaultType a x t)
      | some operand =>
        if _ : t ∈ expandable then structureIn a x (expandable.erase t) (some operand) .plain
        else .leaf .invalid
    (layer a x below targetOf n position).getD (x.store.unfold (x.typeOf (some n)))
termination_by (expandable.length, r.rank)
decreasing_by
  · exact .right _ ‹_›
  · refine .left _ _ ?_
    rw [List.length_erase_of_mem ‹_›]
    exact Nat.sub_lt (List.length_pos_of_mem ‹_›) Nat.one_pos

/-- The structure of a type expression. -/
noncomputable def structureOf (a : Arena) (x : Analysis) (r : NodeRef)
    (position : Position) : Structure :=
  structureIn a x x.store.types.aliases r position

/-- What an alias stands for. -/
noncomputable def aliasStructure (a : Arena) (x : Analysis) (t : TypeId) : Structure :=
  match aliasOperand x a t with
  | none => x.store.unfold (defaultType a x t)
  | some operand => structureOf a x (some operand) .plain

theorem aliasStructure_of_none {a : Arena} {x : Analysis} {t : TypeId}
    (h : aliasOperand x a t = none) :
    aliasStructure a x t = x.store.unfold (defaultType a x t) := by
  rw [aliasStructure, h]

theorem aliasStructure_of_some {a : Arena} {x : Analysis} {t : TypeId} {operand : Nat}
    (h : aliasOperand x a t = some operand) :
    aliasStructure a x t = structureOf a x (some operand) .plain := by
  rw [aliasStructure, h]

/-! ## What a level depends on -/

variable {a : Arena} {x : Analysis} {n : Nat}

/-- A node stands at a position at or below a node, and not at its top. -/
def Below (a : Arena) (n m : Nat) (position : Position) : Prop :=
  ∃ k, Walked a n k ∧ (some m, position) ∈ operands a k

theorem Walked.le {m : Nat} (h : Walked a n m) : m ≤ n := by
  induction h with
  | refl => exact Nat.le_refl n
  | tail _ hc ih =>
    obtain ⟨q, hc⟩ := hc
    have hlt := rank_lt_of_mem_operands hc
    simp only [NodeRef.rank] at hlt
    omega

theorem Below.lt {m : Nat} {q : Position} (h : Below a n m q) : m < n := by
  obtain ⟨k, hwalk, hm⟩ := h
  have hlt := rank_lt_of_mem_operands hm
  have hle := hwalk.le
  simp only [NodeRef.rank] at hlt
  omega

theorem Below.walked {m : Nat} {q : Position} (h : Below a n m q) : Walked a n m := by
  obtain ⟨k, hwalk, hm⟩ := h
  exact hwalk.tail ⟨q, hm⟩

/-- Two ways to give structures to nodes agree at and below a node. -/
structure Agree (a : Arena) (n : Nat) (f g : NodeRef → Position → Structure) : Prop where
  absent : ∀ q, Same (f none q) (g none q)
  below : ∀ m q, Below a n m q → Same (f (some m) q) (g (some m) q)

namespace Agree

variable {f g : NodeRef → Position → Structure}

theorem walked {m : Nat} (h : Agree a n f g) (hm : Walked a n m) : Agree a m f g :=
  ⟨h.absent, fun k q ⟨j, hj, hk⟩ => h.below k q ⟨j, hm.trans hj, hk⟩⟩

theorem operand (h : Agree a n f g) {c : NodeRef} {q : Position} (hc : (c, q) ∈ operands a n) :
    Same (f c q) (g c q) := by
  cases c with
  | none => exact h.absent q
  | some m => exact h.below m q ⟨n, .refl, hc⟩

theorem operands_map (h : Agree a n f g) {cs : List NodeRef} {q : Position}
    (hcs : ∀ c ∈ cs, (c, q) ∈ operands a n) :
    List.Forall₂ Same (cs.map (f · q)) (cs.map (g · q)) := by
  rw [List.forall₂_map_left_iff, List.forall₂_map_right_iff, List.forall₂_same]
  exact fun c hc => h.operand (hcs c hc)

/-- The children of most nodes stand below them as they are. -/
theorem child (h : Agree a n f g)
    (hn : operands a n = (a.children (some n)).map (·, Position.plain)) (i : Nat) :
    Same (f (a.child (some n) i) .plain) (g (a.child (some n) i) .plain) := by
  cases hc : a.child (some n) i with
  | none => exact h.absent .plain
  | some c =>
    refine h.operand ?_
    rw [hn]
    exact List.mem_map_of_mem (Arena.mem_children_of_child_eq_some hc)

end Agree

/-- The children of a node stand below it as they are, if it is none of four kinds. -/
theorem operands_eq {kind : NodeKind} (hkind : a.kind? (some n) = some kind)
    (hname : kind ≠ .typeName) (happlication : kind ≠ .typeApplication)
    (hmember : kind ≠ .recordMember)
    (hlist : kind ≠ .functionTypeParameters) :
    operands a n = (a.children (some n)).map (·, Position.plain) := by
  unfold operands
  rw [hkind]
  split
  · exact absurd (Option.some.inj ‹_›) hname
  · exact absurd (Option.some.inj ‹_›) happlication
  · exact absurd (Option.some.inj ‹_›) hmember
  · exact absurd (Option.some.inj ‹_›) hlist
  · rfl

section Agreeing

variable {f g : NodeRef → Position → Structure} {targetOf targetOf' : TypeId → Structure}

theorem nameStructure_same (hkind : a.kind? (some n) = some .typeName)
    (halias : ∀ t, Names x a n t → Same (targetOf t) (targetOf' t)) :
    Same (nameStructure a x targetOf n) (nameStructure a x targetOf' n) := by
  unfold nameStructure
  split
  · next t hbound =>
    unfold boundStructure
    split
    · exact .refl _
    · exact .refl _
    · next name tag hkey => exact halias t ⟨hkind, hbound, name, tag, hkey⟩
    · exact .refl _
  · exact .refl _

theorem applicationStructure_same (hkind : a.kind? (some n) = some .typeApplication)
    (h : Agree a n f g) : Same (applicationStructure a x f n) (applicationStructure a x g n) := by
  have harguments : List.Forall₂ Same (((a.children (some n)).drop 1).map (f · .plain))
      (((a.children (some n)).drop 1).map (g · .plain)) := by
    refine h.operands_map fun c hc => ?_
    unfold operands
    rw [hkind]
    exact List.mem_map_of_mem hc
  unfold applicationStructure
  split
  · exact .refl _
  · exact .refl _
  · dsimp only
    rw [harguments.length_eq]
    refine Same.orNull ?_
    split
    · exact .refl _
    · exact same_constructedInstanceOf_iff.2
        ⟨_, rfl, same_applied_iff.2 ⟨_, _, rfl, .refl _, harguments⟩⟩

theorem structureOr_same (default : Structure) {r : NodeRef}
    (h : ∀ c, r = some c → Same (f (some c) .plain) (g (some c) .plain)) :
    Same (structureOr f default r) (structureOr g default r) := by
  cases r with
  | none => exact .refl default
  | some c => exact h c rfl

theorem memberStructure_same (hkind : a.kind? (some n) = some .recordMember) (h : Agree a n f g) :
    Same (memberStructure a f (some n)) (memberStructure a g (some n)) := by
  refine structureOr_same _ fun c hc => h.operand ?_
  unfold operands
  rw [hkind]
  exact List.mem_singleton.2 (congrArg (·, Position.plain) hc.symm)

theorem functionStructure_same (hkind : a.kind? (some n) = some .functionType)
    (hn : a.isGrammatical n = true) (h : Agree a n f g) :
    Same (functionStructure a f n) (functionStructure a g n) := by
  have hoperands := operands_eq hkind (by simp) (by simp) (by simp) (by simp)
  have hlist : a.kind? (a.child (some n) 0) = some .functionTypeParameters := by
    rw [Arena.isGrammatical, hkind] at hn
    exact Arena.isKind_iff.1 hn
  obtain ⟨l, hl⟩ : ∃ l, a.child (some n) 0 = some l := by
    cases hchild : a.child (some n) 0 with
    | some l => exact ⟨l, rfl⟩
    | none => simp [hchild, Arena.kind?, Arena.node?] at hlist
  have hwalk : Walked a n l := .single ⟨.plain, by
    rw [hoperands]
    exact List.mem_map_of_mem (Arena.mem_children_of_child_eq_some hl)⟩
  rw [hl] at hlist
  have hentry {c : NodeRef} (hc : c ∈ a.children (some l)) :
      (c, if isReceiver a c then Position.plain else .parameter) ∈ operands a l := by
    unfold operands
    rw [hlist]
    exact List.mem_map_of_mem hc
  have hlisted := h.walked hwalk
  unfold functionStructure
  rw [hl]
  refine same_function_iff.2 ⟨_, _, _, _, rfl, ?_, ?_, ?_, .nil⟩
  · refine hlisted.operands_map fun c hc => ?_
    obtain ⟨hc, hparameter⟩ := List.mem_filter.1 hc
    have hstands := hentry hc
    rwa [if_neg (by simpa using hparameter)] at hstands
  · cases hreceiver : ((a.children (some l)).filter (isReceiver a ·)).getLast? with
    | none => exact .refl _
    | some receiver =>
      obtain ⟨hmem, htrue⟩ := List.mem_filter.1 (List.mem_of_getLast? hreceiver)
      -- a receiver is a node of its own, and its type stands below it
      obtain ⟨r, rfl, hr⟩ : ∃ r, receiver = some r ∧
          operands a r = (a.children (some r)).map (·, Position.plain) := by
        have hkinds : a.kind? receiver = some .thisType ∨ a.kind? receiver = some .newType := by
          simpa only [isReceiver, Bool.or_eq_true, Arena.isKind_iff] using htrue
        cases receiver with
        | none => simp [Arena.kind?, Arena.node?] at hkinds
        | some r =>
          refine ⟨r, rfl, ?_⟩
          rcases hkinds with hthis | hnew
          · exact operands_eq hthis (by simp) (by simp) (by simp) (by simp)
          · exact operands_eq hnew (by simp) (by simp) (by simp) (by simp)
      exact (hlisted.walked (.single ⟨_, hentry hmem⟩)).child hr 0
  · exact structureOr_same _ fun c hc => hc ▸ h.child hoperands 1

/-- One level depends on what stands below a node and on the aliases that it names, up
to sameness. -/
theorem layer_same (hn : a.isGrammatical n = true) (h : Agree a n f g)
    (halias : ∀ t, Names x a n t → Same (targetOf t) (targetOf' t)) (position : Position) :
    Option.Rel Same (layer a x f targetOf n position) (layer a x g targetOf' n position) := by
  cases hkind : a.kind? (some n) with
  | none =>
    unfold layer
    rw [hkind]
    exact .none
  | some kind =>
    have hchild (hname : kind ≠ .typeName) (happlication : kind ≠ .typeApplication)
        (hmember : kind ≠ .recordMember) (hlist : kind ≠ .functionTypeParameters) (i : Nat) :=
      h.child (operands_eq hkind hname happlication hmember hlist) i
    have hchildren (hname : kind ≠ .typeName) (happlication : kind ≠ .typeApplication)
        (hmember : kind ≠ .recordMember) (hlist : kind ≠ .functionTypeParameters) :
        List.Forall₂ Same ((a.children (some n)).map (f · .plain))
          ((a.children (some n)).map (g · .plain)) := by
      refine h.operands_map fun c hc => ?_
      rw [operands_eq hkind hname happlication hmember hlist]
      exact List.mem_map_of_mem hc
    unfold layer
    rw [hkind]
    cases kind with
    | anyType | unknownType | voidType => exact .some (.refl _)
    | typeName => exact .some (nameStructure_same hkind halias)
    | typeApplication => exact .some (applicationStructure_same hkind h)
    | nullableType => exact .some (hchild (by simp) (by simp) (by simp) (by simp) 0).orNull
    | nonNullableType => exact .some (hchild (by simp) (by simp) (by simp) (by simp) 0).withoutNull
    | optionalType =>
      have hfirst := hchild (by simp) (by simp) (by simp) (by simp) 0
      cases position with
      | parameter => exact .some (hfirst.unite_pair _)
      | plain => exact .some hfirst
    | restType | thisType | newType =>
        exact .some (hchild (by simp) (by simp) (by simp) (by simp) 0)
    | unionType =>
      exact .some (unite_congr (.of_forall₂ (hchildren (by simp) (by simp) (by simp) (by simp))))
    | tupleType =>
      exact .some (same_tuple_iff.2 ⟨_, rfl, hchildren (by simp) (by simp) (by simp) (by simp)⟩)
    | recordMember =>
      exact .some (same_labeled_iff.2 ⟨_, rfl, memberStructure_same hkind h⟩)
    | recordType =>
      refine .some (same_record_iff.2 ⟨_, rfl, sameFields_of_forall₂ ?_⟩)
      rw [List.forall₂_map_left_iff, List.forall₂_map_right_iff, List.forall₂_same]
      intro member hmember
      rw [Arena.isGrammatical, hkind] at hn
      have hmemberKind := Arena.isKind_iff.1 (List.all_eq_true.1 hn member hmember)
      cases member with
      | none => simp [Arena.kind?, Arena.node?] at hmemberKind
      | some m =>
        refine ⟨rfl, memberStructure_same hmemberKind (h.walked (.single ⟨.plain, ?_⟩))⟩
        rw [operands_eq hkind (by simp) (by simp) (by simp) (by simp)]
        exact List.mem_map_of_mem hmember
    | functionType => exact .some (functionStructure_same hkind hn h)
    | _ => exact .none

end Agreeing

/-! ## Reached aliases -/

/-- An alias is named at or below a node, or an alias on which such a one depends. -/
def Meets (x : Analysis) (a : Arena) (n : Nat) (t : TypeId) : Prop :=
  ∃ m u, Walked a n m ∧ Names x a m u ∧ ReflTransGen (DependsOn x a) u t

/-- No alias that is reached from a node is defined through itself. -/
def AcyclicBelow (x : Analysis) (a : Arena) (n : Nat) : Prop :=
  ∀ t, Meets x a n t → ¬TransGen (DependsOn x a) t t

variable {t : TypeId}

theorem Names.meets (h : Names x a n t) : Meets x a n t := ⟨n, t, .refl, h, .refl⟩

theorem Meets.walked {m : Nat} (h : Meets x a m t) (hm : Walked a n m) : Meets x a n t := by
  obtain ⟨k, u, hk, hu, hut⟩ := h
  exact ⟨k, u, hm.trans hk, hu, hut⟩

/-- What the expression of an alias meets, the alias depends on. -/
theorem Meets.dependsOn {operand : Nat} {u : TypeId} (h : Meets x a operand u)
    (ht : aliasOperand x a t = some operand) : TransGen (DependsOn x a) t u := by
  obtain ⟨m, v, hm, hv, hvu⟩ := h
  exact .head' ⟨operand, m, ht, hm, hv⟩ hvu

theorem Meets.trans {u : TypeId} (h : Meets x a n t) (hu : ReflTransGen (DependsOn x a) t u) :
    Meets x a n u := by
  obtain ⟨m, v, hm, hv, hvt⟩ := h
  exact ⟨m, v, hm, hv, hvt.trans hu⟩

theorem Meets.expand {operand : Nat} {u : TypeId} (h : Meets x a operand u) (hn : Meets x a n t)
    (ht : aliasOperand x a t = some operand) : Meets x a n u :=
hn.trans (h.dependsOn ht).to_reflTransGen

theorem AcyclicBelow.walked {m : Nat} (h : AcyclicBelow x a n) (hm : Walked a n m) :
    AcyclicBelow x a m := fun t ht => h t (ht.walked hm)

theorem AcyclicBelow.expand {operand : Nat} (h : AcyclicBelow x a n) (hn : Meets x a n t)
    (ht : aliasOperand x a t = some operand) : AcyclicBelow x a operand :=
  fun _ hu => h _ (hu.expand hn ht)

/-- Every alias that is met is an alias. -/
theorem Meets.isAlias (h : Meets x a n t) : IsAlias x t := by
  obtain ⟨m, u, -, hu, hut⟩ := h
  rcases ReflTransGen.cases_tail hut with rfl | ⟨v, -, operand, k, -, -, hnames⟩
  · exact hu.isAlias
  · exact hnames.isAlias

/-! ## The recursion equation -/

theorem mem_listing_of_walked {root : NodeRef} {m : Nat} (hn : n ∈ a.listing root)
    (h : Walked a n m) :
    m ∈ a.listing root := by
  induction h with
  | refl => exact hn
  | tail _ hc ih => exact Arena.mem_listing_child ih (mem_children_of_isOperand hc)

theorem getD_same {o o' : Option Structure} (h : Option.Rel Same o o') (s : Structure) :
    Same (o.getD s) (o'.getD s) := by
  cases h with
  | none => exact .refl s
  | some h => exact h

section Equations

variable {root : NodeRef} (hgrammar : a.Grammatical root)
  (hoperands : ∀ t operand, aliasOperand x a t = some operand → operand ∈ a.listing root)
include hgrammar hoperands

/-- The aliases that may be gone into make no difference, as long as all that are met are among
them. -/
theorem structureIn_same {n : Nat} {expandable expandable' : List TypeId} (hn : n ∈ a.listing root)
    (hacyclic : AcyclicBelow x a n) (h : ∀ t, Meets x a n t → t ∈ expandable)
    (h' : ∀ t, Meets x a n t → t ∈ expandable') (position : Position) :
    Same (structureIn a x expandable (some n) position)
      (structureIn a x expandable' (some n) position) := by
  rw [structureIn, structureIn]
  refine getD_same (layer_same (hgrammar n hn) ⟨fun q => ?_, fun m q hm => ?_⟩
    (fun t ht => ?_) position) _
  · have hrank : NodeRef.rank none < n + 1 := Nat.succ_pos n
    rw [dif_pos hrank, dif_pos hrank, structureIn, structureIn]
    exact .refl _
  · have hrank : NodeRef.rank (some m) < n + 1 := Nat.succ_lt_succ hm.lt
    have hlt := hm.lt
    rw [dif_pos hrank, dif_pos hrank]
    exact structureIn_same (mem_listing_of_walked hn hm.walked) (hacyclic.walked hm.walked)
      (fun t ht => h t (ht.walked hm.walked)) (fun t ht => h' t (ht.walked hm.walked)) q
  · cases hoperand : aliasOperand x a t with
    | none => exact .refl _
    | some operand =>
      have hmet := ht.meets
      -- an alias that is met again in the expression of this one is another
      have herase (aliases : List TypeId) (hall : ∀ u, Meets x a n u → u ∈ aliases) (u : TypeId)
          (hu : Meets x a operand u) : u ∈ aliases.erase t := by
        refine (List.mem_erase_of_ne ?_).2 (hall u (hu.expand hmet hoperand))
        rintro rfl
        exact hacyclic u hmet (hu.dependsOn hoperand)
      have hshorter : (expandable.erase t).length < expandable.length := by
        rw [List.length_erase_of_mem (h t hmet)]
        exact Nat.sub_lt (List.length_pos_of_mem (h t hmet)) Nat.one_pos
      dsimp only
      rw [dif_pos (h t hmet), dif_pos (h' t hmet)]
      exact structureIn_same (hoperands t operand hoperand) (hacyclic.expand hmet hoperand)
        (herase expandable h) (herase expandable' h') .plain
termination_by (expandable.length, n)
decreasing_by
  · exact .right _ hlt
  · exact .left _ _ hshorter

/-- The structure of a node is one level over the structures of what stands below it and of what
aliases stand for. -/
theorem structureOf_same (hn : n ∈ a.listing root) (hacyclic : AcyclicBelow x a n)
    (position : Position) :
    Same (structureOf a x (some n) position)
      ((layer a x (structureOf a x) (aliasStructure a x) n position).getD
        (x.store.unfold (x.typeOf (some n)))) := by
  rw [structureOf, structureIn]
  refine getD_same (layer_same (hgrammar n hn) ⟨fun q => ?_, fun m q hm => ?_⟩
    (fun t ht => ?_) position) _
  · rw [dif_pos (show NodeRef.rank none < n + 1 from Nat.succ_pos n)]
    exact .refl _
  · rw [dif_pos (show NodeRef.rank (some m) < n + 1 from Nat.succ_lt_succ hm.lt)]
    exact .refl _
  · unfold aliasStructure
    cases hoperand : aliasOperand x a t with
    | none => exact .refl _
    | some operand =>
      have hmem {u : TypeId} (hu : Meets x a n u) : u ∈ x.store.types.aliases :=
        mem_aliases.2 hu.isAlias
      dsimp only
      rw [dif_pos (hmem ht.meets)]
      refine structureIn_same hgrammar hoperands (hoperands t operand hoperand)
        (hacyclic.expand ht.meets hoperand) (fun u hu => ?_)
        (fun u hu => hmem (hu.expand ht.meets hoperand)) .plain
      refine (List.mem_erase_of_ne ?_).2 (hmem (hu.expand ht.meets hoperand))
      rintro rfl
      exact hacyclic u ht.meets (hu.dependsOn hoperand)

/-- The name of an alias means what the alias stands for. -/
theorem structureOf_same_of_names (hn : n ∈ a.listing root) (hacyclic : AcyclicBelow x a n)
    (h : Names x a n t) (position : Position) :
    Same (structureOf a x (some n) position) (aliasStructure a x t) := by
  refine (structureOf_same hgrammar hoperands hn hacyclic position).trans ?_
  obtain ⟨hkind, hbound, name, tag, hkey⟩ := h
  unfold layer nameStructure boundStructure
  rw [hkind, hbound]
  dsimp only
  rw [hkey]
  exact .refl _

end Equations

end TypeExpr

end DocTypes
