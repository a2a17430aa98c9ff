import DocTypes.Proofs.TypeExpr.Names
import Mathlib.Logic.Relation

/-!
# How aliases depend on each other

An alias depends on another if its type expression has the name of the other at a place that is
walked, which is anywhere except at the head of an application. The walk from a node goes on in
the type expressions of the aliases that it meets, so it reaches an alias again if and only if
that alias lies on a cycle.

A name that is met in the walk may be left as it is until its alias is expanded
(`TypeExpr.Suspends`). It is then looked at again, and stands for what the alias stands for.

## Main statements

* `TypeExpr.suspends_of_meaning`, `TypeExpr.meaning_of_suspends`: when a name is left.
* `TypeExpr.meaning_of_target`: a name of an alias that is expanded.
* `TypeExpr.Fills.boundType?_eq`: what names are bound to stays as it is.
* `TypeExpr.Reaches.operand`, `TypeExpr.Reaches.cycle`: the walk through aliases.
-/

namespace DocTypes

open Relation

namespace TypeExpr

open Analysis

/-! ## Names of aliases -/

/-- The type that a type name is bound to. -/
def boundType? (x : Analysis) (a : Arena) (n : Nat) : Option TypeId :=
  let reference := a.child (some n) 0
  match a.kind? reference with
  | some .identifier => x.typeOf? reference
  | some .memberExpression => (x.resolvePath a reference).bind x.namedType?
  | _ => none

/-- The type expression of an alias. -/
def aliasOperand (x : Analysis) (a : Arena) (t : TypeId) : NodeRef :=
  match x.store.types.key? t with
  | some (.aliasOf _ tag) => a.typeOperand tag
  | _ => none

/-- A node is the name of an alias. -/
structure Names (x : Analysis) (a : Arena) (n : Nat) (t : TypeId) : Prop where
  kind : a.kind? (some n) = some .typeName
  bound : boundType? x a n = some t
  isAlias : IsAlias x t

/-- A node is the name of an alias that is not expanded yet. -/
structure Suspends (x : Analysis) (a : Arena) (n : Nat) (t : TypeId) (operand : Nat) : Prop
    extends Names x a n t where
  operand : aliasOperand x a t = some operand
  open_ : x.store.types.aliasTarget? t = none

variable {x y : Analysis} {a : Arena} {n : Nat} {t : TypeId}

theorem key?_of_isAlias (h : IsAlias x t) : ∃ name tag,
    x.store.types.key? t = some (.aliasOf name tag) ∧ aliasOperand x a t = a.typeOperand tag := by
  obtain ⟨name, tag, hkey⟩ := h
  exact ⟨name, tag, hkey, by rw [aliasOperand, hkey]⟩

/-- An alias that has a type expression was made for a tag, and the expression is that
of the tag. -/
theorem exists_tag_of_aliasOperand {operand : Nat} (h : aliasOperand x a t = some operand) :
    ∃ name tag, x.store.types.key? t = some (.aliasOf name (some tag)) ∧
      a.typeOperand (some tag) = some operand := by
  unfold aliasOperand at h
  split at h
  · next name tag hkey =>
    cases tag with
    | none => simp [Arena.typeOperand, Arena.presentChildren, Arena.children, Arena.node?] at h
    | some tag => exact ⟨name, tag, hkey, h⟩
  · cases h

/-- A name is bound to a known type. -/
theorem known_of_boundType? (hx : x.Closed) (h : boundType? x a n = some t) : x.store.Known t := by
  unfold boundType? at h
  simp only at h
  split at h
  · exact hx.types _ t h
  · obtain ⟨v, -, hnamed⟩ := Option.bind_eq_some_iff.1 h
    exact hx.known_namedType? hnamed
  · cases h

/-- A name means what the type means that it is bound to. -/
theorem typeName_of_bound (h : boundType? x a n = some t) : typeName a n x = named a t x := by
  unfold boundType? at h
  simp only at h
  unfold typeName
  simp only [run_bind, run_get]
  split at h
  · next hkind => simp only [hkind, h]
  · next hkind =>
    obtain ⟨v, hv, hnamed⟩ := Option.bind_eq_some_iff.1 h
    simp only [hkind, hv, hnamed]
  · cases h

/-- The name of an alias that is expanded means what the alias stands for. -/
theorem meaning_of_target (h : Names x a n t) {target : TypeId}
    (htarget : x.store.types.aliasTarget? t = some target) (position : Position) :
    meaning a n position x = (.type target, x) := by
  obtain ⟨name, tag, hkey⟩ := h.isAlias
  unfold meaning
  rw [h.kind]
  show typeName a n x = _
  rw [typeName_of_bound h.bound]
  unfold named
  simp only [run_bind, run_get, hkey, htarget]
  rfl

/-- The name of an alias that is not expanded is left as it is. -/
theorem meaning_of_suspends {operand : Nat} (h : Suspends x a n t operand) (position : Position) :
    meaning a n position x = (.expansion t operand, x) := by
  obtain ⟨name, tag, hkey, hoperand⟩ := key?_of_isAlias (a := a) h.isAlias
  rw [h.operand] at hoperand
  unfold meaning
  rw [h.kind]
  show typeName a n x = _
  rw [typeName_of_bound h.bound]
  unfold named
  simp only [run_bind, run_get, hkey, h.open_, ← hoperand]
  rfl

/-- A meaning is left open only if it is that of an alias with a type expression and without a
target. -/
def LeftOpen (x : Analysis) (a : Arena) (t? : Option TypeId) (m : Meaning) : Prop :=
  ∀ u operand, m = .expansion u operand → t? = some u ∧ IsAlias x u ∧
    aliasOperand x a u = some operand ∧ x.store.types.aliasTarget? u = none

theorem leftOpen_type (x : Analysis) (a : Arena) (t? : Option TypeId) (t : TypeId) :
    LeftOpen x a t? (.type t) := by
  intro u operand h
  cases h

/-- A relation along which every step moves. -/
private def Anyhow (_ _ : Analysis) : Prop := True

private instance : IsTrans Analysis Anyhow := ⟨fun _ _ _ _ _ => trivial⟩

private theorem runs_type {m : Analyze TypeId} {t? : Option TypeId} {z : Analysis} :
    Runs Anyhow z (do return Meaning.type (← m)) fun m _ => LeftOpen x a t? m :=
  ⟨trivial, leftOpen_type x a t? _⟩

theorem named_leftOpen (x : Analysis) (a : Arena) (t : TypeId) :
    LeftOpen x a (some t) (named a t x).1 := by
  suffices h : Runs Anyhow x (named a t) fun m _ => LeftOpen x a (some t) m from h.2
  refine .get_bind ?_
  dsimp only
  split
  · exact runs_type
  · exact runs_type
  · next name tag hkey =>
    split
    · exact ⟨trivial, leftOpen_type x a _ _⟩
    · next htarget =>
      split
      · next operand hoperand =>
        refine ⟨trivial, ?_⟩
        rintro u operand' ⟨⟩
        refine ⟨rfl, ⟨name, tag, hkey⟩, ?_, htarget⟩
        rw [aliasOperand, hkey]
        exact hoperand
      · exact runs_type
  · exact ⟨trivial, leftOpen_type x a _ _⟩

theorem typeName_leftOpen (x : Analysis) (a : Arena) (n : Nat) :
    LeftOpen x a (boundType? x a n) (typeName a n x).1 := by
  cases hbound : boundType? x a n with
  | some t =>
    rw [typeName_of_bound hbound]
    exact named_leftOpen x a t
  | none =>
    unfold boundType? at hbound
    simp only at hbound
    suffices h : Runs Anyhow x (typeName a n) fun m _ => LeftOpen x a none m from h.2
    refine .get_bind ?_
    split
    · next hkind =>
      rw [hkind] at hbound
      simp only [hbound]
      exact ⟨trivial, leftOpen_type x a _ _⟩
    · next hkind =>
      rw [hkind] at hbound
      split
      · next v hv =>
        have hnone : x.namedType? v = none := by simpa [hv] using hbound
        simp only [hnone]
        split <;> exact ⟨trivial, leftOpen_type x a _ _⟩
      · split <;> exact ⟨trivial, leftOpen_type x a _ _⟩
    · exact ⟨trivial, leftOpen_type x a _ _⟩

/-- Only the name of an alias that is not expanded is left as it is. -/
theorem suspends_of_meaning {operand : Nat} {position : Position}
    (h : (meaning a n position x).1 = .expansion t operand) : Suspends x a n t operand := by
  unfold meaning at h
  cases hkind : a.kind? (some n) with
  | none =>
    rw [hkind] at h
    cases h
  | some kind =>
    rw [hkind] at h
    cases kind
    case typeName =>
      obtain ⟨hbound, halias, hoperand, htarget⟩ := typeName_leftOpen x a n t operand h
      exact ⟨⟨hkind, hbound, halias⟩, hoperand, htarget⟩
    case optionalType => cases position <;> cases h
    case restType => cases position <;> cases h
    all_goals cases h

/-! ## Keeping names -/

/-- What names are bound to stays as it is while types are filled in. -/
theorem Fills.boundType?_eq (h : Fills a x y) (hx : x.Closed) (n : Nat) :
    boundType? y a n = boundType? x a n := by
  unfold boundType?
  simp only
  split
  · next hkind =>
    apply h.others
    intro m hm hnode
    rw [hm] at hkind
    rw [IsTypeNode, hkind] at hnode
    cases hnode
  · rw [h.resolvePath_eq hx]
    exact congrArg _ (funext h.namedType?_eq)
  · rfl

/-- An alias keeps its type expression. -/
theorem aliasOperand_eq (h : x.KeepsNames y) (ht : IsAlias x t) :
    aliasOperand y a t = aliasOperand x a t := by
  obtain ⟨name, tag, hkey⟩ := ht
  rw [aliasOperand, aliasOperand, hkey, h.keys t _ hkey]

theorem Fills.names_iff (h : Fills a x y) (hx : x.Closed) : Names y a n t ↔ Names x a n t := by
  constructor
  · rintro ⟨hkind, hbound, halias⟩
    exact ⟨hkind, h.boundType?_eq hx n ▸ hbound, h.isAlias_iff.1 halias⟩
  · rintro ⟨hkind, hbound, halias⟩
    exact ⟨hkind, (h.boundType?_eq hx n).trans hbound, h.isAlias_iff.2 halias⟩

/-! ## Walks -/

/-- A node is worked out as a part of another. -/
def IsOperand (a : Arena) (n c : Nat) : Prop := ∃ p, (some c, p) ∈ operands a n

/-- A type name has no operands. -/
theorem not_isOperand_of_typeName (h : a.kind? (some n) = some .typeName) (c : Nat) :
    ¬IsOperand a n c := by
  rintro ⟨p, hc⟩
  simp [operands, h] at hc

/-- The operands of a node are among its children. -/
theorem mem_children_of_isOperand {c : Nat} (h : IsOperand a n c) :
    some c ∈ a.children (some n) := by
  obtain ⟨p, hc⟩ := h
  unfold operands at hc
  split at hc
  · cases hc
  · obtain ⟨d, hd, heq⟩ := List.mem_map.1 hc
    cases heq
    exact List.mem_of_mem_drop hd
  · exact Arena.mem_children_of_child_eq_some (congrArg Prod.fst (List.mem_singleton.1 hc)).symm
  · obtain ⟨d, hd, heq⟩ := List.mem_map.1 hc
    cases heq
    exact hd
  · obtain ⟨d, hd, heq⟩ := List.mem_map.1 hc
    cases heq
    exact hd

/-- A node is worked out with another. -/
def Walked (a : Arena) : Nat → Nat → Prop := ReflTransGen (IsOperand a)

/-- The type expression of an alias has the name of another at a place that is walked. -/
def DependsOn (x : Analysis) (a : Arena) (t u : TypeId) : Prop :=
  ∃ operand n, aliasOperand x a t = some operand ∧ Walked a operand n ∧ Names x a n u

/-- The walk from the type expression of an alias, and on through the aliases that it names, gets
to a node. -/
def Reaches (x : Analysis) (a : Arena) (t : TypeId) (n : Nat) : Prop :=
  ∃ u operand, ReflTransGen (DependsOn x a) t u ∧ aliasOperand x a u = some operand ∧
    Walked a operand n

namespace Reaches

variable {u : TypeId}

theorem start {operand : Nat} (h : aliasOperand x a t = some operand) : Reaches x a t operand :=
  ⟨t, operand, .refl, h, .refl⟩

theorem operand (h : Reaches x a t n) {c : Nat} (hc : IsOperand a n c) : Reaches x a t c := by
  obtain ⟨u, operand, htu, hu, hwalk⟩ := h
  exact ⟨u, operand, htu, hu, hwalk.tail hc⟩

theorem dependsOn (h : Reaches x a t n) (hn : Names x a n u) :
    TransGen (DependsOn x a) t u := by
  obtain ⟨v, operand, htv, hv, hwalk⟩ := h
  exact .tail' htv ⟨operand, n, hv, hwalk, hn⟩

/-- The walk goes on in the type expressions of the aliases that it meets. -/
theorem expand (h : Reaches x a t n) (hn : Names x a n u) {operand : Nat}
    (hu : aliasOperand x a u = some operand) : Reaches x a t operand :=
  ⟨u, operand, (h.dependsOn hn).to_reflTransGen, hu, .refl⟩

/-- An alias that is met again lies on a cycle. -/
theorem cycle (h : Reaches x a t n) (hn : Names x a n t) : TransGen (DependsOn x a) t t :=
  h.dependsOn hn

end Reaches

end TypeExpr

end DocTypes
