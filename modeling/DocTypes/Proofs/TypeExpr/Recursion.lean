import DocTypes.Proofs.Reports.Cycles
import DocTypes.Proofs.TypeExpr.Recording
import DocTypes.Tree.Builder

/-!
# Type expressions are worked out by recursion

The walk over a type expression leaves it at the name of an alias, works out the expression of the
alias, and comes back with types at its nodes that later walks find again. What comes of it is still
the plain recursion of `TypeExpr.structureOf`, as long as no alias that is met is defined through
itself.

The expressions of the aliases that are met from a node are a region of their own
(`Unworked.aliasRegion`), which stays right whatever is worked out before. Once it is the turn
of the node, nothing below it has a type, and the region is widened by what the node has below
it (`Unworked.nodeRegion`). There the node is worked out at the position that is asked for, and
all else where it stands.

## Main statements

* `TypeExpr.Unworked.structureOf_layer`: what an expression means is given by recursion.
* `TypeExpr.Unworked.transform_worksOut`: an expression that is worked out comes to what it means.
* `TypeExpr.runPasses_unworked`: no type expression is worked out while names are bound.
* `TypeExpr.runPasses_worksOut`: both, for any tree in which names are bound.
-/

namespace DocTypes

open Relation Structure

namespace TypeExpr

open Analysis

variable {a : Arena} {root : NodeRef} {x₀ x y : Analysis} {n : Nat} {t : TypeId}
  {position : Position}

/-! ## What is met from a node -/

/-- A node stands in the expression of an alias that is met from a node. -/
def Expressed (x : Analysis) (a : Arena) (n m : Nat) : Prop :=
  ∃ t operand, Meets x a n t ∧ aliasOperand x a t = some operand ∧ Walked a operand m

namespace Expressed

variable {m : Nat}

theorem operand (h : Expressed x a n m) {c : Nat} (hc : IsOperand a m c) : Expressed x a n c := by
  obtain ⟨t, operand, ht, hoperand, hm⟩ := h
  exact ⟨t, operand, ht, hoperand, hm.tail hc⟩

/-- An alias that is named there is met too. -/
theorem meets (h : Expressed x a n m) (hnames : Names x a m t) : Meets x a n t := by
  obtain ⟨u, operand, hu, hoperand, hm⟩ := h
  exact (hnames.meets.walked hm).expand hu hoperand

theorem of_meets (h : Meets x a n t) {operand : Nat}
    (hoperand : aliasOperand x a t = some operand) :
    Expressed x a n operand := ⟨t, operand, h, hoperand, .refl⟩

end Expressed

/-- A node from which no alias is met that is defined through itself is not come back to. -/
theorem AcyclicBelow.not_expressed (h : AcyclicBelow x a n) : ¬Expressed x a n n := by
  rintro ⟨t, operand, ht, hoperand, hn⟩
  exact h t ht ((ht.walked hn).dependsOn hoperand)

theorem not_dependsOn_of_none (h : aliasOperand x a t = none) : ¬TransGen (DependsOn x a) t t := by
  intro hcycle
  obtain ⟨u, ⟨operand, -, hoperand, -⟩, -⟩ := TransGen.head'_iff.1 hcycle
  rw [h] at hoperand
  cases hoperand

/-! ## Regions of a node -/

/-- The aliases that are met from a node, and those that have no expression. -/
def IsMet (x : Analysis) (a : Arena) (n : Nat) (t : TypeId) : Prop :=
  Meets x a n t ∨ IsAlias x t ∧ aliasOperand x a t = none

namespace IsMet

theorem not_cycle (h : IsMet x a n t) (hacyclic : AcyclicBelow x a n) :
    ¬TransGen (DependsOn x a) t t :=
  h.elim (hacyclic t) fun ⟨_, hnone⟩ => not_dependsOn_of_none hnone

theorem meets (h : IsMet x a n t) {operand : Nat} (hoperand : aliasOperand x a t = some operand) :
    Meets x a n t := by
  refine h.resolve_right fun ⟨_, hnone⟩ => ?_
  rw [hnone] at hoperand
  cases hoperand

end IsMet

/-- The nodes that the walk from a node gets to. -/
def IsReached (x : Analysis) (a : Arena) (n m : Nat) : Prop := Walked a n m ∨ Expressed x a n m

namespace IsReached

variable {m : Nat}

theorem operand (h : IsReached x a n m) {c : Nat} (hc : IsOperand a m c) : IsReached x a n c :=
  h.imp (·.tail hc) (·.operand hc)

theorem meets (h : IsReached x a n m) (hnames : Names x a m t) : Meets x a n t :=
  h.elim (fun hm => hnames.meets.walked hm) (·.meets hnames)

/-- The walk does not come back to where it starts. -/
theorem not_isOperand (h : IsReached x a n m) (hacyclic : AcyclicBelow x a n) :
    ¬IsOperand a m n := by
  rintro ⟨q, hn⟩
  rcases h with hm | hm
  · have hlt := rank_lt_of_mem_operands hn
    have hle := hm.le
    simp only [NodeRef.rank] at hlt
    omega
  · exact hacyclic.not_expressed (hm.operand ⟨q, hn⟩)

end IsReached

namespace Unworked

variable (h : Unworked a root x)
include h

theorem mem_listing_of_expressed {m : Nat} (hm : Expressed x a n m) : m ∈ a.listing root := by
  obtain ⟨t, operand, -, hoperand, hwalk⟩ := hm
  exact mem_listing_of_walked (h.listed t operand hoperand) hwalk

/-- The expressions of the aliases that are met from a node, while anything is worked out. -/
def aliasRegion (hacyclic : AcyclicBelow x a n) : Region a root x where
  nodes := Expressed x a n
  aliases := IsMet x a n
  entered := (· ∈ a.listing root)
  position := standing a
  listed _ := h.mem_listing_of_expressed
  below _ _ hm hc := hm.operand hc
  names _ _ hm hnames := .inl (hm.meets hnames)
  operand t operand ht hoperand :=
    ⟨.of_meets (ht.meets hoperand) hoperand, h.plain t operand hoperand⟩
  acyclic _ ht := ht.not_cycle hacyclic
  entered_below _ _ hm hc := Arena.mem_listing_child hm (mem_children_of_isOperand hc)
  entered_operand _ t operand _ _ hoperand :=
    ⟨h.listed t operand hoperand, fun _ => h.plain t operand hoperand⟩
  stands _ _ _ hm hc _ := standing_eq h.shaped hm hc

/-- All that the walk from a node gets to, while that node is worked out at some position. -/
def nodeRegion (hn : n ∈ a.listing root) (hacyclic : AcyclicBelow x a n) (position : Position) :
    Region a root x where
  nodes := IsReached x a n
  aliases := IsMet x a n
  entered := IsReached x a n
  position m := if m = n then position else standing a m
  listed _ hm := hm.elim (mem_listing_of_walked hn) h.mem_listing_of_expressed
  below _ _ hm hc := hm.operand hc
  names _ _ hm hnames := .inl (hm.meets hnames)
  operand t operand ht hoperand := by
    have hexpressed : Expressed x a n operand := .of_meets (ht.meets hoperand) hoperand
    refine ⟨.inr hexpressed, ?_⟩
    rw [if_neg]
    · exact h.plain t operand hoperand
    · rintro rfl
      exact hacyclic.not_expressed hexpressed
  acyclic _ ht := ht.not_cycle hacyclic
  entered_below _ _ hm hc := hm.operand hc
  entered_operand m t operand hm hnames hoperand := by
    have hexpressed : Expressed x a n operand := .of_meets (hm.meets hnames) hoperand
    refine ⟨.inr hexpressed, fun _ => ?_⟩
    rw [if_neg]
    · exact h.plain t operand hoperand
    · rintro rfl
      exact hacyclic.not_expressed hexpressed
  stands k m q hk hm _ := by
    rw [if_neg]
    · exact standing_eq h.shaped (hk.elim (mem_listing_of_walked hn) h.mem_listing_of_expressed) hm
    · rintro rfl
      exact hk.not_isOperand hacyclic ⟨q, hm⟩

end Unworked

/-! ## Transforms -/

/-- What is recorded stays right while a type expression is worked out. -/
theorem transform_records {g : Region a root x₀} {P : TypeId → Prop} (hx : Records g x)
    (hadmits : Admits g P x.store.types.aliases n position) :
    Runs (Expands a P) x (transform a (some n) position) fun u y =>
      Records g y ∧ u = y.typeOf (some n) ∧ (g.nodes n → Done a y n) := by
  refine .get_bind ((enter_records g P _ (some n) position x hx
    fun m hm => Option.some.inj hm ▸ hadmits).bind fun _ y _ hy => ?_)
  exact .get_bind (.pure (Std.Refl.refl y) ⟨hy.1, rfl, hy.2 n rfl⟩)

/-- A type expression of the program that is worked out before a node. If it stands in the
expression of an alias that is met from the node, it is worked out where it stands. -/
structure MayPrecede (a : Arena) (root : NodeRef) (x : Analysis) (n : Nat)
    (request : Nat × Position) :
    Prop where
  listed : request.1 ∈ a.listing root
  stands : Expressed x a n request.1 → request.2 = standing a request.1

/-- Work out type expressions one after another. -/
def transformAll (a : Arena) (requests : List (Nat × Position)) : Analyze PUnit :=
  requests.forM fun request => discard (transform a (some request.1) request.2)

section Transforms

variable (h : Unworked a root x₀) (hacyclic : AcyclicBelow x₀ a n)
include h

theorem transformAll_records {requests : List (Nat × Position)}
    (hrequests : ∀ request ∈ requests, MayPrecede a root x₀ n request)
    (hx : Records (h.aliasRegion hacyclic) x) :
    Records (h.aliasRegion hacyclic) (transformAll a requests x).2 := by
  induction requests generalizing x with
  | nil => exact hx
  | cons request rest ih =>
    refine ih (fun r hr => hrequests r (List.mem_cons_of_mem _ hr)) ?_
    have hrequest := hrequests request List.mem_cons_self
    refine (transform_records (P := fun _ => True) hx ⟨fun t ht hnot => ?_, fun _ _ => trivial,
      fun _ _ _ => trivial, hrequest.listed, hrequest.stands⟩).2.1
    exact (hnot (mem_aliases.2 (hx.later.fills.isAlias_iff.2 ht))).elim

/-- If nothing below a node has a type, what is recorded is right for the whole walk from it. -/
theorem Records.ofAliasRegion (hx : Records (h.aliasRegion hacyclic) x) (hn : n ∈ a.listing root)
    (huntyped : ∀ m, Walked a n m → IsExpression a m → x.typeOf? (some m) = none)
    (position : Position) :
    Records (h.nodeRegion hn hacyclic position) x where
  base := hx.base
  later := hx.later
  closed := hx.closed
  reached := hx.reached
  silent := hx.silent
  nodes m hm hexpression htyped := by
    rcases hm with hm | hm
    · rw [huntyped m hm hexpression] at htyped
      cases htyped
    · have hrecorded := hx.nodes m hm hexpression htyped
      refine ⟨hrecorded.done, ?_⟩
      have hposition : (h.nodeRegion hn hacyclic position).position m = standing a m := by
        refine if_neg ?_
        rintro rfl
        exact hacyclic.not_expressed hm
      rw [hposition]
      exact hrecorded.same
  targets := hx.targets

end Transforms

/-! ## The recursion -/

/-- An expression has a type that is what it means at a position. -/
def Bears (a : Arena) (x₀ x : Analysis) (n : Nat) (position : Position) : Prop :=
  IsExpression a n → ∃ t, x.typeOf? (some n) = some t ∧
    Same (x.store.unfold t) (structureOf a x₀ (some n) position)

/-- An expression and all that is worked out with it have types that are what they mean. -/
def BearsBelow (a : Arena) (x₀ x : Analysis) (n : Nat) (position : Position) : Prop :=
  Bears a x₀ x n position ∧ ∀ m q, Below a n m q → Bears a x₀ x m q

theorem Records.bears {g : Region a root x₀} (hx : Records g x) (hn : g.nodes n)
    (hdone : Done a x n) :
    Bears a x₀ x n (g.position n) := by
  intro hexpression
  have htyped := hdone n .refl hexpression
  obtain ⟨t, ht⟩ := Option.isSome_iff_exists.1 htyped
  have hsame := (hx.nodes n hn hexpression htyped).same
  rw [typeOf, ht] at hsame
  exact ⟨t, ht, hsame⟩

theorem Records.bearsBelow {g : Region a root x₀} (hx : Records g x) (hn : g.nodes n)
    (hentered : g.entered n) (hdone : Done a x n) : BearsBelow a x₀ x n (g.position n) := by
  refine ⟨hx.bears hn hdone, fun m q hm => ?_⟩
  obtain ⟨k, hk, hmk⟩ := hm
  have hwalk : Walked a n m := hk.tail ⟨q, hmk⟩
  have hnodes := g.walked hn hwalk
  rw [← g.stands k m q (g.entered_walked hentered hk) hmk hnodes]
  exact hx.bears hnodes fun j hj => hdone j (hwalk.trans hj)

/-- What comes of working out a node at a position, from a state that comes after the state
`x₀`. The machine stops, and the type that the node has then is what the node means. So is
every type below the node, and in the expressions of the aliases that have been expanded, which
stand for what they mean. -/
structure WorksOut (a : Arena) (x₀ x : Analysis) (n : Nat) (position : Position) (t : TypeId)
    (y : Analysis) : Prop where
  halts : Machine.Halts a (Machine.start x (some n) position) y
  recorded : y.typeOf? (some n) = some t
  same : Same (y.store.unfold t) (structureOf a x₀ (some n) position)
  below : BearsBelow a x₀ y n position
  targets : ∀ u target, x.store.types.aliasTarget? u = none →
    y.store.types.aliasTarget? u = some target →
    Same (y.store.unfold target) (aliasStructure a x₀ u) ∧
      ∀ operand, aliasOperand x₀ a u = some operand → BearsBelow a x₀ y operand .plain

namespace Unworked

variable (h : Unworked a root x₀) (hn : n ∈ a.listing root)
include h hn

/-- What an expression means is one level over what stands below it and what aliases stand for. -/
theorem structureOf_layer (hacyclic : AcyclicBelow x₀ a n) (hexpression : IsExpression a n)
    (position : Position) : Option.Rel Same (some (structureOf a x₀ (some n) position))
      (layer a x₀ (structureOf a x₀) (aliasStructure a x₀) n position) := by
  have hsame := structureOf_same h.grammatical h.listed hn hacyclic position
  obtain ⟨s, hs⟩ := Option.isSome_iff_exists.1 (isSome_layer_iff.2 hexpression)
  rw [hs] at hsame ⊢
  exact .some hsame

/-- A node that is worked out after others comes to what it means. -/
theorem transform_worksOut (hacyclic : AcyclicBelow x₀ a n) (hexpression : IsExpression a n)
    {requests : List (Nat × Position)}
    (hrequests : ∀ request ∈ requests, MayPrecede a root x₀ n request)
    (huntyped : ∀ m, Walked a n m → IsExpression a m →
      (transformAll a requests x₀).2.typeOf? (some m) = none) (position : Position) :
    WorksOut a x₀ (transformAll a requests x₀).2 n position
      (transform a (some n) position (transformAll a requests x₀).2).1
      (transform a (some n) position (transformAll a requests x₀).2).2 := by
  have hx := (transformAll_records h hacyclic hrequests (h.records _)).ofAliasRegion h hacyclic hn
    huntyped position
  generalize (transformAll a requests x₀).2 = x at hx ⊢
  have hself : IsReached x₀ a n n := .inl .refl
  have hposition : (h.nodeRegion hn hacyclic position).position n = position := if_pos rfl
  obtain ⟨hmoves, hy, hresult, hdone⟩ := transform_records (P := IsMet x₀ a n) hx
    ⟨fun t ht hnot => (hnot (mem_aliases.2 (hx.later.fills.isAlias_iff.2 ht))).elim,
      fun _ ht => .inl ht,
      fun _ ht hnone => .inr ⟨ht, hnone⟩, hself, fun _ => hposition.symm⟩
  have hbelow := hy.bearsBelow hself hself (hdone hself)
  rw [hposition] at hbelow
  obtain ⟨t, ht, hsame⟩ := hbelow.1 hexpression
  have hfirst : (transform a (some n) position x).1 = t := by rw [hresult, typeOf, ht]; rfl
  rw [hfirst]
  refine ⟨Machine.halts_start hx.closed a n position, ht, hsame, hbelow,
    fun u target hnone htarget => ?_⟩
  have hmet : IsMet x₀ a n u := by
    refine (hmoves.opened u (Option.isSome_of_eq_some htarget)).resolve_left ?_
    rw [hnone]
    exact Bool.false_ne_true
  have hexpanded := hy.targets u target hmet htarget
  refine ⟨hexpanded.same, fun operand hoperand => ?_⟩
  have hreached : IsReached x₀ a n operand := .inr (.of_meets (hmet.meets hoperand) hoperand)
  have hplain := ((h.nodeRegion hn hacyclic position).operand u operand hmet hoperand).2
  exact hplain ▸ hy.bearsBelow hreached hreached (hexpanded.done operand hoperand)

end Unworked

/-! ## Once names are bound -/

section Tags

variable {tag operand : Nat}

/-- The expression of an alias is that of a tag of the program. -/
theorem exists_docTag_of_aliasOperand (h : a.Shaped root) (hx : x.Pending a root)
    (hoperand : aliasOperand x a t = some operand) : ∃ tag ∈ a.listing root,
      a.kind? (some tag) = some .jsDocTag ∧ a.typeOperand (some tag) = some operand := by
  obtain ⟨name, tag, hkey, htyped⟩ := exists_tag_of_aliasOperand hoperand
  have hcomment := hx.aliases t name tag hkey
  refine ⟨tag, (h.inside_tag hcomment).1, ?_, htyped⟩
  obtain ⟨m, -, -, htag⟩ := hcomment
  exact Arena.isKind_iff.1 (List.mem_filter.1 htag).2

theorem mem_children_of_typeOperand (h : a.typeOperand (some tag) = some operand) :
    some operand ∈ a.children (some tag) :=
  Arena.mem_presentChildren.1 (List.mem_of_find?_eq_some h)

theorem isExpression_of_typeOperand (hg : a.Grammatical root) (htag : tag ∈ a.listing root)
    (hkind : a.kind? (some tag) = some .jsDocTag) (h : a.typeOperand (some tag) = some operand) :
    IsExpression a operand := by
  have hfound := List.find?_some h
  obtain ⟨kind, hoperand, hexpression⟩ := (Option.any_eq_true _ _).1 hfound
  refine ⟨kind, hoperand, hexpression, ?_⟩
  rintro rfl
  have hgrammar := hg tag htag
  rw [Arena.isGrammatical, hkind, h, Arena.isKind_iff.2 hoperand] at hgrammar
  cases hgrammar

theorem standing_typeOperand (h : a.Shaped root) (htag : tag ∈ a.listing root)
    (hkind : a.kind? (some tag) = some .jsDocTag)
    (htyped : a.typeOperand (some tag) = some operand) :
    standing a operand = .plain := by
  unfold standing
  rw [h.parent_child htag (mem_children_of_typeOperand htyped), Arena.isKind, hkind]
  rfl

end Tags

/-- No expression is a label. -/
theorem IsExpression.not_isLabel (h : IsExpression a n) : ¬a.IsLabel (some n) := by
  obtain ⟨kind, hkind, hexpression, -⟩ := h
  rintro (hlabel | hlabel) <;>
  · cases hkind.symm.trans hlabel
    cases hexpression

/-- When names are bound, no type expression is worked out. -/
theorem runPasses_unworked (h : a.Shaped root) (hc : a.Complete root) (hg : a.Grammatical root)
    (reportUndefined : Bool) : Unworked a root (runPasses a reportUndefined root 1) := by
  have hsited := bindNames_sited h hc reportUndefined
  rw [← runPasses_one] at hsited
  refine
    { shaped := h
      grammatical := hg
      closed := (runPasses_steps a reportUndefined root 1).closed
      reached := runPasses_reached a reportUndefined root 1
      listed := fun t operand hoperand => ?_
      expressions := fun t operand hoperand => ?_
      plain := fun t operand hoperand => ?_
      untyped := fun n hexpression =>
        Option.not_isSome_iff_eq_none.1 fun htyped =>
          hexpression.not_isLabel (hsited.types _ htyped)
      leaves := fun n hn htyped c => h.not_isOperand_of_isLabel hn (hsited.types _ htyped)
      targets := fun t => ?_ }
  · obtain ⟨tag, htag, -, htyped⟩ := exists_docTag_of_aliasOperand h hsited.pending hoperand
    exact Arena.mem_listing_child htag (mem_children_of_typeOperand htyped)
  · obtain ⟨tag, htag, hkind, htyped⟩ := exists_docTag_of_aliasOperand h hsited.pending hoperand
    exact isExpression_of_typeOperand hg htag hkind htyped
  · obtain ⟨tag, htag, hkind, htyped⟩ := exists_docTag_of_aliasOperand h hsited.pending hoperand
    exact standing_typeOperand h htag hkind htyped
  · rw [TypeStore.aliasTarget?, hsited.pending.targets]
    rfl

/-- **Type expressions are worked out by recursion.** Once names are bound in a tree of the
right shape, take a type expression from which no alias is met that is defined through itself.
What it means is given by recursion: at each node that the walk gets to it is one level over
what stands below the node and what aliases stand for. Whatever type expressions are worked out
before, each where it stands if it belongs to an alias that is met: as long as nothing below the
node has a type, working it out at any position stops, and gives it and all that is walked the
types that they mean. The aliases that get what they stand for on the way get what they mean,
and so do their expressions. -/
theorem runPasses_worksOut (h : a.Shaped root) (hc : a.Complete root) (hg : a.Grammatical root)
    (reportUndefined : Bool) (hn : n ∈ a.listing root) (hexpression : IsExpression a n)
    (hacyclic : AcyclicBelow (runPasses a reportUndefined root 1) a n) :
    let x₀ := runPasses a reportUndefined root 1
    (∀ m q, IsReached x₀ a n m → IsExpression a m →
      Option.Rel Same (some (structureOf a x₀ (some m) q))
        (layer a x₀ (structureOf a x₀) (aliasStructure a x₀) m q)) ∧
    ∀ requests : List (Nat × Position), (∀ request ∈ requests, MayPrecede a root x₀ n request) →
      let x := (transformAll a requests x₀).2
      (∀ m, Walked a n m → IsExpression a m → x.typeOf? (some m) = none) →
      ∀ position, ∃ t y, transform a (some n) position x = (t, y) ∧
        WorksOut a x₀ x n position t y := by
  intro x₀
  have hx := runPasses_unworked h hc hg reportUndefined
  refine ⟨fun m q hm hexpression => ?_, fun requests hrequests huntyped position => ?_⟩
  · rcases hm with hm | ⟨t, operand, ht, hoperand, hm⟩
    · exact hx.structureOf_layer (mem_listing_of_walked hn hm) (hacyclic.walked hm) hexpression q
    · exact hx.structureOf_layer (mem_listing_of_walked (hx.listed t operand hoperand) hm)
        ((hacyclic.expand ht hoperand).walked hm) hexpression q
  · exact ⟨_, _, rfl, hx.transform_worksOut hn hacyclic hexpression hrequests huntyped position⟩

/-- `/** @type {function(A=): A} */ var f; /** @typedef {number} */ var A;`. -/
def aliasedFunction : Build NodeRef := do
  let name (text : String) :
      Build NodeRef := do Builder.simple .typeName [← Builder.identifier text]
  let parameter ← Builder.optionalType (← name "A")
  let type ← Builder.functionType none none [parameter] (← name "A")
  let use ← Builder.annotated (← Builder.document [← Builder.tag "type" [type]])
    (← Builder.varStatement "f" none)
  let typedef ← Builder.annotated (← Builder.document [← Builder.tag "typedef" [← name "number"]])
    (← Builder.varStatement "A" none)
  Builder.script [use, typedef]

/-- In this tree the function type names an alias that is not defined through itself. It comes to
what it means after the expression of the alias was worked out. -/
theorem aliasedFunction_worksOut :
    let tree := aliasedFunction Builder.new
    let x₀ := runPasses tree.2.arena true tree.1 1
    let x := (transformAll tree.2.arena [(14, .plain)] x₀).2
    AcyclicBelow x₀ tree.2.arena 6 ∧
      ∃ t y, transform tree.2.arena (some 6) .plain x = (t, y) ∧
        WorksOut tree.2.arena x₀ x 6 .plain t y := by
  intro tree x₀ x
  obtain ⟨hshaped, hcomplete, hgrammatical, hlisted⟩ : tree.2.arena.Shaped tree.1 ∧
      tree.2.arena.Complete tree.1 ∧ tree.2.arena.Grammatical tree.1 ∧
      6 ∈ tree.2.arena.listing tree.1 := by decide +kernel
  obtain ⟨hfunction, hkind⟩ : tree.2.arena.kind? (some 6) = some .functionType ∧
      tree.2.arena.kind? (some 14) = some .typeName := by decide +kernel
  have hexpression : IsExpression tree.2.arena 6 := ⟨.functionType, hfunction, rfl, by decide⟩
  -- the only alias has an expression that names none
  obtain ⟨hoperand, hunbound⟩ :
      (∀ t ∈ x₀.store.types.aliases, aliasOperand x₀ tree.2.arena t = some 14) ∧
        boundType? x₀ tree.2.arena 14 = none := by decide +kernel
  have hacyclic : AcyclicBelow x₀ tree.2.arena 6 := by
    intro t ht hcycle
    obtain ⟨u, ⟨operand, m, ht', hm, hnames⟩, -⟩ := TransGen.head'_iff.1 hcycle
    obtain rfl := Option.some.inj ((hoperand t (mem_aliases.2 ht.isAlias)).symm.trans ht')
    rcases ReflTransGen.cases_head hm with rfl | ⟨c, hc, -⟩
    · cases hunbound.symm.trans hnames.bound
    · exact not_isOperand_of_typeName hkind c hc
  have hrequests : ∀ request ∈ [((14 : Nat), Position.plain)],
      MayPrecede tree.2.arena tree.1 x₀ 6 request := by
    intro request hrequest
    obtain rfl := List.mem_singleton.1 hrequest
    exact ⟨by decide +kernel, fun _ => by decide +kernel⟩
  have hnone : ∀ m < 7, x.typeOf? (some m) = none ∨ tree.2.arena.kind? (some m) =
      some .identifier := by
    decide +kernel
  have huntyped : ∀ m, Walked tree.2.arena 6 m → IsExpression tree.2.arena m →
      x.typeOf? (some m) = none := by
    rintro m hm ⟨kind, hkind, hexpression, -⟩
    refine (hnone m (Nat.lt_succ_of_le hm.le)).resolve_right fun hidentifier => ?_
    cases hkind.symm.trans hidentifier
    cases hexpression
  exact ⟨hacyclic,
    (runPasses_worksOut hshaped hcomplete hgrammatical true hlisted hexpression hacyclic).2
      _ hrequests huntyped .plain⟩

/-! ### A node in two places -/

/-- `/** @type {function(number=): A} */ var f; /** @typedef {number=} */ var A;`, where one node
stands for both of the optional numbers. -/
def sharedOptional : Build NodeRef := do
  let name (text : String) :
      Build NodeRef := do Builder.simple .typeName [← Builder.identifier text]
  let optional ← Builder.optionalType (← name "number")
  let type ← Builder.functionType none none [optional] (← name "A")
  let use ← Builder.annotated (← Builder.document [← Builder.tag "type" [type]])
    (← Builder.varStatement "f" none)
  let typedef ← Builder.annotated (← Builder.document [← Builder.tag "typedef" [optional]])
    (← Builder.varStatement "A" none)
  Builder.script [use, typedef]

def sharedArena : Arena := (sharedOptional Builder.new).2.arena

def sharedRoot : NodeRef := (sharedOptional Builder.new).1

/-- Names are bound in the tree. -/
def sharedNames : Analysis := runPasses sharedArena true sharedRoot 1

/-- The nodes below the function type: the shared node with what stands in it, and the alias. -/
theorem sharedArena_nodes :
    (sharedArena.kind? (some 6) = some .functionType ∧ sharedArena.child (some 6) 1 = some 4) ∧
    sharedArena.kind? (some 4) = some .typeName ∧
    (sharedArena.kind? (some 2) = some .optionalType ∧ sharedArena.child (some 2) 0 = some 1 ∧
      operands sharedArena 2 = [(some 1, .plain)]) ∧
    (sharedArena.kind? (some 1) = some .typeName ∧ sharedArena.child (some 1) 0 = some 0) ∧
    sharedArena.kind? (some 0) = some .identifier ∧
      builtinType? (sharedArena.text (some 0)) = some .number := by decide +kernel

/-- The only alias is that of the node `4`, and the shared node is its expression. -/
theorem sharedNames_alias :
    (boundType? sharedNames sharedArena 4 = some ⟨1000⟩ ∧
      sharedNames.store.types.key? ⟨1000⟩ = some (.aliasOf ⟨37⟩ (some 13))) ∧
    (∀ t ∈ sharedNames.store.types.aliases, aliasOperand sharedNames sharedArena t = some 2) ∧
    boundType? sharedNames sharedArena 1 = none := by decide +kernel

theorem sharedNames_operand {operand : Nat}
    (h : aliasOperand sharedNames sharedArena t = some operand) : operand = 2 := by
  obtain ⟨-, haliases, -⟩ := sharedNames_alias
  obtain ⟨name, tag, hkey, -⟩ := exists_tag_of_aliasOperand h
  exact (Option.some.inj ((haliases t (mem_aliases.2 ⟨name, _, hkey⟩)).symm.trans h)).symm

/-- The only alias has the shared node as its expression, and names none. -/
theorem sharedNames_acyclicBelow (n : Nat) : AcyclicBelow sharedNames sharedArena n := by
  obtain ⟨-, -, ⟨hoptional, -, hoperands⟩, ⟨hnumber, -⟩, -⟩ := sharedArena_nodes
  obtain ⟨-, -, hunbound⟩ := sharedNames_alias
  intro t ht hcycle
  obtain ⟨u, ⟨operand, m, hoperand, hm, hnames⟩, -⟩ := TransGen.head'_iff.1 hcycle
  obtain rfl := sharedNames_operand hoperand
  rcases ReflTransGen.cases_head hm with rfl | ⟨c, ⟨q, hc⟩, hm⟩
  · cases hoptional.symm.trans hnames.kind
  · rw [hoperands, List.mem_singleton] at hc
    cases hc
    rcases ReflTransGen.cases_head hm with rfl | ⟨d, hd, -⟩
    · cases hunbound.symm.trans hnames.bound
    · exact not_isOperand_of_typeName hnumber d hd

/-- The function takes something, and gives numbers. -/
theorem sharedNames_means :
    Same (structureOf sharedArena sharedNames (some 6) .plain)
      (functionStructure sharedArena (structureOf sharedArena sharedNames) 6) ∧
    Same (structureOf sharedArena sharedNames (some 4) .plain) (.leaf (.primitive .number)) := by
  have hlisted : ∀ n ∈ [1, 2, 4, 6], n ∈ sharedArena.listing sharedRoot := by decide +kernel
  have hgrammatical : sharedArena.Grammatical sharedRoot := by decide +kernel
  obtain ⟨⟨hfunction, -⟩, hname, ⟨hoptional, hchild, -⟩, ⟨hnumber, hreference⟩, hidentifier,
    hbuiltin⟩ := sharedArena_nodes
  obtain ⟨⟨hbound, hkey⟩, haliases, hunbound⟩ := sharedNames_alias
  have hoperands (t : TypeId) (operand : Nat)
      (h : aliasOperand sharedNames sharedArena t = some operand) :
      operand ∈ sharedArena.listing sharedRoot := sharedNames_operand h ▸ hlisted 2 (by simp)
  have hmeans (n : Nat) (hn : n ∈ [1, 2, 4, 6]) {s : Structure}
      (h : layer sharedArena sharedNames (structureOf sharedArena sharedNames)
        (aliasStructure sharedArena sharedNames) n .plain = some s) :
      Same (structureOf sharedArena sharedNames (some n) .plain) s := by
    have hsame := structureOf_same hgrammatical hoperands (hlisted n hn)
      (sharedNames_acyclicBelow n) .plain
    rwa [h] at hsame
  have hmeansNumber : Same (structureOf sharedArena sharedNames (some 1) .plain)
      (.leaf (.primitive .number)) := by
    refine hmeans 1 (by simp) ?_
    unfold layer nameStructure
    rw [hnumber, hunbound, hreference]
    dsimp only
    rw [hidentifier]
    dsimp only
    rw [hbuiltin, Option.getD_some]
    exact congrArg some ((runPasses_reached _ _ _ _).sound.unfold_intrinsic rfl fun _ => rfl)
  have hmeansShared : Same (structureOf sharedArena sharedNames (some 2) .plain)
      (structureOf sharedArena sharedNames (some 1) .plain) := by
    refine hmeans 2 (by simp) ?_
    unfold layer
    rw [hoptional, hchild]
  have hmeansAlias : Same (structureOf sharedArena sharedNames (some 4) .plain)
      (structureOf sharedArena sharedNames (some 2) .plain) := by
    have hoperand := haliases ⟨1000⟩ (mem_aliases.2 ⟨_, _, hkey⟩)
    have hexpands := structureOf_same_of_names hgrammatical hoperands (hlisted 4 (by simp))
      (sharedNames_acyclicBelow 4) ⟨hname, hbound, _, _, hkey⟩ .plain
    rwa [aliasStructure_of_some hoperand] at hexpands
  refine ⟨hmeans 6 (by simp) ?_, hmeansAlias.trans (hmeansShared.trans hmeansNumber)⟩
  unfold layer
  rw [hfunction]

/-- In this tree, in which a node is in two places, no alias is defined through itself and no type
expression is worked out. As a parameter the shared node may be `undefined`, and as the expression
of the alias it may not, but what is recorded for the parameter is found again for the alias. So the
function type does not come to what it means. -/
theorem sharedOptional_not_same :
    6 ∈ sharedArena.listing sharedRoot ∧ IsExpression sharedArena 6 ∧
      AcyclicBelow sharedNames sharedArena 6 ∧
      (∀ m, Walked sharedArena 6 m → IsExpression sharedArena m →
        sharedNames.typeOf? (some m) = none) ∧
      ∃ t y, transform sharedArena (some 6) .plain sharedNames = (t, y) ∧
        ¬Same (y.store.unfold t) (structureOf sharedArena sharedNames (some 6) .plain) := by
  obtain ⟨⟨hfunctionType, hchild⟩, -⟩ := sharedArena_nodes
  have hexpression : IsExpression sharedArena 6 := ⟨.functionType, hfunctionType, rfl, by decide⟩
  have huntyped : ∀ m < 7, sharedNames.typeOf? (some m) = none ∨
      sharedArena.kind? (some m) = some .identifier := by decide +kernel
  have hclosed : sharedNames.Closed := (runPasses_steps _ _ _ _).closed
  have hleads := (transform_runs hclosed sharedArena (some 6) .plain).1
  obtain ⟨hkey, hunion⟩ : (transform sharedArena (some 6) .plain sharedNames).2.store.types.key?
        (transform sharedArena (some 6) .plain sharedNames).1 =
      some (.function { arity := ⟨0, 1, false⟩, parameters := ⟨2⟩, returnType := ⟨1001⟩ }) ∧
      (transform sharedArena (some 6) .plain sharedNames).2.store.types.key? ⟨1001⟩ =
        some (.union ⟨1⟩) := by decide +kernel
  obtain ⟨t, y, hrun⟩ : ∃ t y, transform sharedArena (some 6) .plain sharedNames = (t, y) :=
    ⟨_, _, rfl⟩
  rw [hrun] at hleads hkey hunion
  refine ⟨by decide +kernel, hexpression, sharedNames_acyclicBelow 6, fun m hm hm' => ?_, t, y,
    hrun, fun hsame => ?_⟩
  · obtain ⟨kind, hkind, hexpression, -⟩ := hm'
    refine (huntyped m (Nat.lt_succ_of_le hm.le)).resolve_right fun hidentifier => ?_
    cases hkind.symm.trans hidentifier
    cases hexpression
  · -- what the function gives is the union that is recorded for the parameter
    have hy : y.store.Sound := (hleads.reached (runPasses_reached _ _ _ _)).sound
    obtain ⟨hfunction, hnumber⟩ := sharedNames_means
    rw [hy.unfold_of_key? hkey] at hsame
    obtain ⟨_, _, result, _, heq, -, -, hresult, -⟩ := same_function_iff.1 (hsame.trans hfunction)
    unfold functionStructure at heq
    obtain ⟨-, -, -, -, heq, -⟩ := Structure.function.inj heq
    rw [hchild] at heq
    have hleaf := same_leaf_iff.1 ((heq ▸ hresult).trans hnumber).symm
    rw [hy.unfold_of_key? hunion] at hleaf
    cases hleaf

end TypeExpr

end DocTypes
