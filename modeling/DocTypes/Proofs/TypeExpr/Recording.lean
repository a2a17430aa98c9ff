import DocTypes.Proofs.Hierarchy.Inheritance
import DocTypes.Proofs.Nodes.Coverage
import DocTypes.Proofs.TypeExpr.Layers

/-!
# What is recorded is what is meant

The walk records types at nodes and what aliases stand for, and finds again what it recorded before.
A `Region` is a part of the program that the walk does not leave: it has with a node what stands
below it, the aliases that it names, and their expressions. As long as no alias of a region is
defined through itself, and its nodes are entered where they stand, what is recorded there unfolds
to what it means (`TypeExpr.Records`). That holds whatever is entered besides, also while aliases
outside the region are being expanded: the walk gets into the region from there, and not out of it.

## Main statements

* `TypeExpr.Records.layer_same`: what a node of the region means over the types that are recorded.
* `TypeExpr.enter_records`: an expression that is entered keeps the records right.
-/

namespace DocTypes

open Relation Structure

namespace TypeExpr

open Analysis

variable {a : Arena} {root : NodeRef} {x₀ x y : Analysis} {n : Nat} {t : TypeId}

/-! ## Nodes with types of their own -/

/-- A node of a type expression that has a type of its own: it is no parameter list. -/
def IsExpression (a : Arena) (n : Nat) : Prop :=
  ∃ kind, a.kind? (some n) = some kind ∧ kind.isTypeExpression = true ∧ kind ≠
    .functionTypeParameters

theorem IsExpression.isTypeNode (h : IsExpression a n) : IsTypeNode a n := by
  obtain ⟨kind, hkind, hexpression, -⟩ := h
  rw [IsTypeNode, hkind]
  exact hexpression

/-- A node that is given a type is one of these. -/
theorem isExpression_of_meaning {position : Position} (h : (meaning a n position x).1 ≠ .nothing) :
    IsExpression a n := by
  have hnode := isTypeNode_of_meaning h
  unfold IsTypeNode at hnode
  cases hkind : a.kind? (some n) with
  | none =>
    rw [hkind] at hnode
    cases hnode
  | some kind =>
    rw [hkind] at hnode
    refine ⟨kind, hkind, hnode, ?_⟩
    rintro rfl
    unfold meaning at h
    rw [hkind] at h
    exact h rfl

/-- These are the nodes that have a meaning. -/
theorem isSome_layer_iff {f : NodeRef → Position → Structure} {targetOf : TypeId → Structure}
    {position : Position} : (layer a x f targetOf n position).isSome ↔ IsExpression a n := by
  constructor
  · cases hkind : a.kind? (some n) with
    | none =>
      unfold layer
      rw [hkind]
      exact fun h => absurd h Bool.false_ne_true
    | some kind =>
      unfold layer
      rw [hkind]
      intro h
      cases kind with
      | anyType | unknownType | voidType | typeName | typeApplication | nullableType
      | nonNullableType
        | optionalType | restType | unionType | tupleType | recordType | recordMember | functionType
        | thisType | newType => exact ⟨_, hkind, rfl, by decide⟩
      | _ => exact absurd h Bool.false_ne_true
  · rintro ⟨kind, hkind, hexpression, hlist⟩
    unfold layer
    rw [hkind]
    cases kind with
    | anyType | unknownType | voidType | typeName | typeApplication | nullableType | nonNullableType
      | restType | unionType | tupleType | recordType | recordMember | functionType
      | thisType | newType =>
      rfl
    | optionalType => cases position <;> rfl
    | functionTypeParameters => exact absurd rfl hlist
    | _ => cases hexpression

theorem layer_eq_none {f : NodeRef → Position → Structure} {targetOf : TypeId → Structure}
    {position : Position} (h : ¬IsExpression a n) : layer a x f targetOf n position = none := by
  rw [← Option.not_isSome_iff_eq_none, isSome_layer_iff]
  exact h

theorem known_of_isAlias (h : IsAlias x t) : x.store.Known t := by
  obtain ⟨name, tag, hkey⟩ := h
  exact Option.isSome_of_eq_some hkey

/-- A node is done if all that is worked out with it has types. -/
def Done (a : Arena) (x : Analysis) (n : Nat) : Prop :=
  ∀ m, Walked a n m → IsExpression a m → (x.typeOf? (some m)).isSome

theorem Done.fills (h : Done a x n) (hfills : Fills a x y) : Done a y n :=
  fun m hm hexpression => hfills.typed _ (h m hm hexpression)

/-- A node is done if it has a type and its operands are done. -/
theorem Done.intro (hself : IsExpression a n → (x.typeOf? (some n)).isSome)
    (hoperands : ∀ c, IsOperand a n c → Done a x c) : Done a x n := by
  intro m hm hexpression
  rcases ReflTransGen.cases_head hm with rfl | ⟨c, hc, hcm⟩
  · exact hself hexpression
  · exact hoperands c hc m hcm hexpression

/-! ## Default targets -/

/-- Of the aliases only those get a target that have no type expression, and it is their default. -/
structure Defaults (a : Arena) (x y : Analysis) : Prop extends Evaluates x y where
  origins : ∀ t target, y.store.types.aliasTarget? t = some target →
    x.store.types.aliasTarget? t = some target ∨
      IsAlias x t ∧ aliasOperand x a t = none ∧ target = defaultType a x t

theorem defaultType_eq (h : x.KeepsNames y) (ht : IsAlias x t) :
    defaultType a y t = defaultType a x t := by
  obtain ⟨name, tag, hkey⟩ := ht
  rw [defaultType, defaultType, hkey, h.keys t _ hkey]

namespace Defaults

theorem of_aliasTargets (h : Evaluates x y)
    (htargets : y.store.types.aliasTargets = x.store.types.aliasTargets) : Defaults a x y where
  toEvaluates := h
  origins t target ht := by
    refine .inl (Eq.trans ?_ ht)
    rw [TypeStore.aliasTarget?, TypeStore.aliasTarget?, htargets]

instance : Std.Refl (Defaults a) := ⟨fun x => of_aliasTargets (.refl x) rfl⟩

instance : IsTrans Analysis (Defaults a) where
  trans x y z h h' :=
    { toEvaluates := h.toEvaluates.trans h'.toEvaluates
      origins := fun t target ht => by
        rcases h'.origins t target ht with hold | ⟨halias, hnone, heq⟩
        · exact h.origins t target hold
        · have halias := h.aliases t halias
          exact .inr ⟨halias, (aliasOperand_eq h.toKeepsNames halias).symm.trans hnone,
            heq.trans (defaultType_eq h.toKeepsNames halias)⟩ }

instance : Composing (Defaults a) where
  interns {α f} h x := by
    have hordinary : ∀ types : TypeStore, types.Interns Ordinary (f types).2 :=
      fun types => (h types).mono fun _ hkey => hkey.1
    exact of_aliasTargets (onTypes_evaluates hordinary x) (hordinary x.store.types).aliasTargets_eq
  functions x shape _ := by
    have hordinary : ∀ types : TypeStore, types.Interns Ordinary (types.function shape).2 :=
      fun types => .intern types (by simp [Ordinary])
    exact of_aliasTargets (onTypes_evaluates hordinary x) (hordinary x.store.types).aliasTargets_eq
  reports d h x := of_aliasTargets (report_evaluates d h x) rfl

instance : Construing a (Defaults a) where
  applications := application_moves
    (fun node generic arguments x =>
      of_aliasTargets (newConstructedClass_evaluates node generic arguments x) rfl) a
  defaults {x t name tag} hkey hnone := by
    refine MovesFrom.bind (R := Defaults a) ?_ fun _ => .pure _
    refine ⟨setAliasTarget_evaluates t _ x, fun u target hu => ?_⟩
    have hset := (lookup_setAliasTarget x.store.types t _ u).symm.trans hu
    by_cases heq : u = t
    · rw [if_pos heq] at hset
      subst heq
      have hdefault : defaultType a x u = if a.text tag = "enum" then TypeId.number
          else .unspecified := by
        rw [defaultType, hkey]
      have hoperand : aliasOperand x a u = a.typeOperand tag := by rw [aliasOperand, hkey]
      exact .inr ⟨⟨name, tag, hkey⟩, hoperand.trans hnone,
        (Option.some.inj hset).symm.trans hdefault.symm⟩
    · rw [if_neg heq] at hset
      exact .inl hset

end Defaults

theorem known_defaultType (a : Arena) (x : Analysis) (t : TypeId) :
    x.store.Known (defaultType a x t) := by
  unfold defaultType
  split
  · split <;> exact x.store.known_of_lt (by decide)
  · exact x.store.known_of_lt (by decide)

/-! ## Regions -/

/-- A part of the program that a walk does not leave, in which no alias is defined
through itself, and the nodes that are entered at all. Among these, a node of the part is
entered where it stands. -/
structure Region (a : Arena) (root : NodeRef) (x : Analysis) where
  nodes : Nat → Prop
  aliases : TypeId → Prop
  entered : Nat → Prop
  position : Nat → Position
  listed : ∀ n, nodes n → n ∈ a.listing root
  below : ∀ n m, nodes n → IsOperand a n m → nodes m
  names : ∀ n t, nodes n → Names x a n t → aliases t
  operand : ∀ t operand, aliases t → aliasOperand x a t = some operand →
    nodes operand ∧ position operand = .plain
  acyclic : ∀ t, aliases t → ¬TransGen (DependsOn x a) t t
  entered_below : ∀ n m, entered n → IsOperand a n m → entered m
  entered_operand : ∀ n t operand, entered n → Names x a n t → aliasOperand x a t = some operand →
    entered operand ∧ (nodes operand → position operand = .plain)
  stands : ∀ n m q, entered n → (some m, q) ∈ operands a n → nodes m → position m = q

namespace Region

variable (g : Region a root x)

theorem walked (hn : g.nodes n) {m : Nat} (h : Walked a n m) : g.nodes m := by
  induction h with
  | refl => exact hn
  | tail _ hc ih => exact g.below _ _ ih hc

theorem entered_walked (hn : g.entered n) {m : Nat} (h : Walked a n m) : g.entered m := by
  induction h with
  | refl => exact hn
  | tail _ hc ih => exact g.entered_below _ _ ih hc

theorem dependsOn (ht : g.aliases t) {u : TypeId} (h : ReflTransGen (DependsOn x a) t u) :
    g.aliases u := by
  induction h with
  | refl => exact ht
  | tail _ hstep ih =>
    obtain ⟨operand, m, hoperand, hm, hnames⟩ := hstep
    exact g.names m _ (g.walked (g.operand _ operand ih hoperand).1 hm) hnames

/-- The aliases that are met from a node of a region are among its own. -/
theorem meets (hn : g.nodes n) (h : Meets x a n t) : g.aliases t := by
  obtain ⟨m, u, hm, hu, hut⟩ := h
  exact g.dependsOn (g.names m u (g.walked hn hm) hu) hut

theorem acyclicBelow (hn : g.nodes n) : AcyclicBelow x a n :=
  fun t ht => g.acyclic t (g.meets hn ht)

end Region

/-- Where a node stands: the entries of a parameter list that are no receivers stand as
parameters. -/
def standing (a : Arena) (n : Nat) : Position :=
  if a.isKind (a.parent (some n)) .functionTypeParameters && !isReceiver a (some n) then .parameter
  else .plain

/-- A node is worked out with its parent where it stands. -/
theorem standing_eq (h : a.Shaped root) (hn : n ∈ a.listing root) {m : Nat} {q : Position}
    (hm : (some m, q) ∈ operands a n) : standing a m = q := by
  have hparent := h.parent_child hn (mem_children_of_isOperand ⟨q, hm⟩)
  unfold standing
  rw [hparent]
  by_cases hlist : a.kind? (some n) = some .functionTypeParameters
  · unfold operands at hm
    rw [hlist] at hm
    obtain ⟨c, -, hc⟩ := List.mem_map.1 hm
    obtain ⟨rfl, rfl⟩ := Prod.mk.inj hc
    rw [Arena.isKind_iff.2 hlist, Bool.true_and, isReceiver]
    cases a.isKind (some m) .thisType || a.isKind (some m) .newType <;> rfl
  · rw [show a.isKind (some n) .functionTypeParameters = false from
      Bool.eq_false_iff.2 (mt Arena.isKind_iff.1 hlist), Bool.false_and]
    unfold operands at hm
    split at hm
    · cases hm
    · obtain ⟨c, -, hc⟩ := List.mem_map.1 hm
      exact congrArg Prod.snd hc
    · exact (congrArg Prod.snd (List.mem_singleton.1 hm)).symm
    · exact absurd ‹_› hlist
    · obtain ⟨c, -, hc⟩ := List.mem_map.1 hm
      exact congrArg Prod.snd hc

/-- A state in which names are bound and no type expression is worked out. -/
structure Unworked (a : Arena) (root : NodeRef) (x : Analysis) : Prop where
  shaped : a.Shaped root
  grammatical : a.Grammatical root
  closed : x.Closed
  reached : x.store.Reached
  listed : ∀ t operand, aliasOperand x a t = some operand → operand ∈ a.listing root
  expressions : ∀ t operand, aliasOperand x a t = some operand → IsExpression a operand
  plain : ∀ t operand, aliasOperand x a t = some operand → standing a operand = .plain
  untyped : ∀ n, IsExpression a n → x.typeOf? (some n) = none
  leaves : ∀ n ∈ a.listing root, (x.typeOf? (some n)).isSome → ∀ c, ¬IsOperand a n c
  targets : ∀ t, x.store.types.aliasTarget? t = none

/-! ## Records -/

variable {g : Region a root x₀}

/-- A node is done, and its type is what it means. -/
structure Recorded (g : Region a root x₀) (x : Analysis) (n : Nat) : Prop where
  done : Done a x n
  same : Same (x.store.unfold (x.typeOf (some n))) (structureOf a x₀ (some n) (g.position n))

/-- An alias stands for what it means, and its expression is done. -/
structure Expanded (a : Arena) (x₀ x : Analysis) (t target : TypeId) : Prop where
  done : ∀ operand, aliasOperand x₀ a t = some operand → Done a x operand
  same : Same (x.store.unfold target) (aliasStructure a x₀ t)

/-- What is recorded in a region is what is meant. -/
structure Records (g : Region a root x₀) (x : Analysis) : Prop where
  base : Unworked a root x₀
  later : Later a x₀ x
  closed : x.Closed
  reached : x.store.Reached
  silent : ∀ r, (∀ n, r = some n → ¬IsExpression a n) → x.typeOf? r = x₀.typeOf? r
  nodes : ∀ n, g.nodes n → IsExpression a n → (x.typeOf? (some n)).isSome → Recorded g x n
  targets : ∀ t target, g.aliases t → x.store.types.aliasTarget? t = some target →
    Expanded a x₀ x t target

/-- Before anything is worked out, nothing wrong is recorded. -/
theorem Unworked.records (h : Unworked a root x₀) (g : Region a root x₀) : Records g x₀ where
  base := h
  later := ⟨.refl a x₀, fun _ => rfl, .refl h.reached.sound⟩
  closed := h.closed
  reached := h.reached
  silent _ _ := rfl
  nodes n _ hexpression htyped := by simp [h.untyped n hexpression] at htyped
  targets t target _ htarget := by simp [h.targets t] at htarget

namespace Records

variable (h : Records g x)
include h

/-! ### Steps -/

theorem widens (hleads : x.Leads y) : x.store.Widens y.store :=
  ⟨(hleads.reached h.reached).sound, hleads.store.keeps⟩

/-- The default of an alias without a type expression is what it means. -/
theorem default_eq (ht : IsAlias x₀ t) (hnone : aliasOperand x₀ a t = none) :
    aliasStructure a x₀ t = x.store.unfold (defaultType a x t) := by
  rw [aliasStructure_of_none hnone, defaultType_eq h.later.fills.toKeepsNames ht,
    h.later.widens.unfold_eq h.base.reached.sound (known_defaultType a x₀ t)]

/-- What was recorded stays right while the state grows, so only what is new has to be. -/
theorem move (hleads : x.Leads y) (hfills : Fills a x y) (hclasses : x.store.SameClasses y.store)
    (hsilent : ∀ r, (∀ n, r = some n → ¬IsExpression a n) → y.typeOf? r = x.typeOf? r)
    (hnodes : ∀ n, g.nodes n → IsExpression a n →
      y.typeOf? (some n) = x.typeOf? (some n) ∨ Recorded g y n)
    (htargets : ∀ t target, g.aliases t → y.store.types.aliasTarget? t = some target →
      x.store.types.aliasTarget? t = some target ∨ Expanded a x₀ y t target) : Records g y := by
  have hsound := h.reached.sound
  have hwidens := h.widens hleads
  refine
    { base := h.base
      later := ⟨h.later.fills.trans hfills, fun v => (hclasses v).trans (h.later.classes v),
        h.later.widens.trans hwidens⟩
      closed := hleads.closed, reached := hleads.reached h.reached
      silent := fun r hr => (hsilent r hr).trans (h.silent r hr)
      nodes := fun n hn hexpression htyped => ?_
      targets := fun t target ht htarget => ?_ }
  · refine (hnodes n hn hexpression).elim (fun hold => ?_) id
    have hrecorded := h.nodes n hn hexpression (hold ▸ htyped)
    have htype : y.typeOf (some n) = x.typeOf (some n) := by rw [typeOf, typeOf, hold]
    refine ⟨hrecorded.done.fills hfills, ?_⟩
    rw [htype, hwidens.unfold_eq hsound (h.closed.known_typeOf _)]
    exact hrecorded.same
  · refine (htargets t target ht htarget).elim (fun hold => ?_) id
    have hexpanded := h.targets t target ht hold
    refine ⟨fun operand hoperand => (hexpanded.done operand hoperand).fills hfills, ?_⟩
    rw [hwidens.unfold_eq hsound (h.closed.known_aliasTarget? hold)]
    exact hexpanded.same

/-- Working out the meaning of a node records no types, and of the aliases those get a target that
have no type expression. -/
theorem meaning (n : Nat) (position : Position) :
    Records g (TypeExpr.meaning a n position x).2 := by
  have hleads : x.Leads (TypeExpr.meaning a n position x).2 :=
    (meaning_runs h.closed a n position).1
  have hstill : Still x (TypeExpr.meaning a n position x).2 := meaning_moves a n position x
  have hdefaults : Defaults a x (TypeExpr.meaning a n position x).2 := meaning_moves a n position x
  have htyped := hdefaults.typeOf?_eq
  refine h.move hleads (hdefaults.fills a) hstill.classes (fun r _ => htyped r)
    (fun m _ _ => .inl (htyped _)) fun t target ht htarget => ?_
  refine (hdefaults.origins t target htarget).imp_right fun ⟨halias, hnone, htarget⟩ => ?_
  have halias := h.later.fills.isAlias_iff.1 halias
  have hnone := (aliasOperand_eq h.later.fills.toKeepsNames halias).symm.trans hnone
  have hknown := known_defaultType a x t
  refine ⟨fun operand hoperand => ?_, ?_⟩
  · rw [hnone] at hoperand
    cases hoperand
  · rw [htarget, (h.widens hleads).unfold_eq h.reached.sound hknown, h.default_eq halias hnone]
    exact .refl _

/-- A node gets a type that is what it means. -/
theorem setType (hn : IsExpression a n) {u : TypeId} (hu : x.store.Known u)
    (hoperands : g.nodes n → ∀ c, IsOperand a n c → Done a x c)
    (hsame : g.nodes n → Same (x.store.unfold u) (structureOf a x₀ (some n) (g.position n))) :
    Records g (Analysis.setType (some n) u x).2 := by
  have hfills := setType_fills a hn.isTypeNode u x
  have hother {r : NodeRef} (hr : some n ≠ r) : (Analysis.setType (some n) u x).2.typeOf? r =
      x.typeOf? r := by
    rw [typeOf?_setType, if_neg hr]
  have hself : (Analysis.setType (some n) u x).2.typeOf? (some n) = some u := by
    rw [typeOf?_setType, if_pos rfl]
  refine h.move (Analysis.setType_runs h.closed _ hu).1 hfills (fun _ => rfl)
    (fun r hr => hother ?_)
    (fun m hm _ => ?_) fun t target _ htarget => .inl htarget
  · rintro rfl
    exact hr n rfl hn
  · by_cases heq : n = m
    · subst heq
      refine .inr ⟨.intro (fun _ => Option.isSome_of_eq_some hself) fun c hc =>
        (hoperands hm c hc).fills hfills, ?_⟩
      rw [typeOf, hself]
      exact hsame hm
    · exact .inl (hother (mt Option.some.inj heq))

/-- An alias gets a target that is what it means. -/
theorem setAliasTarget {target : TypeId} (ht : x.store.Known t) (htarget : x.store.Known target)
    (hexpanded : g.aliases t → Expanded a x₀ x t target) :
    Records g (onTypes (fun types => ((), types.setAliasTarget t target)) x).2 := by
  have hleads := (setAliasTarget_runs h.closed ht htarget).1
  have hfills := (setAliasTarget_evaluates t target x).fills a
  refine h.move hleads hfills (fun _ => rfl) (fun _ _ => rfl) (fun _ _ _ => .inl rfl)
    fun u v hu hv => ?_
  have hset := (lookup_setAliasTarget x.store.types t target u).symm.trans hv
  by_cases heq : u = t
  · rw [if_pos heq] at hset
    subst heq
    obtain rfl := Option.some.inj hset
    have hexpanded := hexpanded hu
    refine .inr ⟨fun operand hoperand => (hexpanded.done operand hoperand).fills hfills, ?_⟩
    rw [(h.widens hleads).unfold_eq h.reached.sound htarget]
    exact hexpanded.same
  · rw [if_neg heq] at hset
    exact .inl hset

theorem report (problem : Problem) (r : NodeRef) : Records g (reportAt a problem r x).2 :=
  h.move (reportAt_runs h.closed a problem r).1
    (reportAt_fills a problem r x) (fun _ => rfl) (fun _ _ => rfl)
    (fun _ _ _ => .inl rfl) fun _ _ _ htarget => .inl htarget

/-! ### One level -/

/-- A node that has a type of its own has what it means, and any other the type that it had. -/
theorem same {m : Nat} (hm : g.nodes m) (htyped : IsExpression a m → (x.typeOf? (some m)).isSome) :
    Same (x.store.unfold (x.typeOf (some m))) (structureOf a x₀ (some m) (g.position m)) := by
  by_cases hexpression : IsExpression a m
  · exact (h.nodes m hm hexpression (htyped hexpression)).same
  · have hstructure := structureOf_same h.base.grammatical h.base.listed (g.listed m hm)
      (g.acyclicBelow hm) (g.position m)
    rw [layer_eq_none hexpression] at hstructure
    have htype : x.typeOf (some m) = x₀.typeOf (some m) := by
      rw [typeOf, typeOf, h.silent _ fun k hk => Option.some.inj hk ▸ hexpression]
    rw [htype, h.later.widens.unfold_eq h.base.reached.sound (h.base.closed.known_typeOf _)]
    exact hstructure.symm

/-- A node that has a type is done. -/
theorem done_of_typed (hn : g.nodes n) (htyped : (x.typeOf? (some n)).isSome) : Done a x n := by
  by_cases hexpression : IsExpression a n
  · exact (h.nodes n hn hexpression htyped).done
  · rw [h.silent _ fun m hm => Option.some.inj hm ▸ hexpression] at htyped
    refine .intro (fun h' => (hexpression h').elim) ?_
    exact fun c hc => (h.base.leaves n (g.listed n hn) htyped c hc).elim

/-- What is recorded below a node whose operands are done is what is meant there. -/
theorem agree (hn : g.nodes n) (hentered : g.entered n)
    (hoperands : ∀ c, IsOperand a n c → Done a x c) :
    Agree a n x.recorded (structureOf a x₀) where
  absent q := by
    have hnone : ∀ m, none = some m → ¬IsExpression a m := by
      intro m hm
      cases hm
    have htype : x.typeOf none = x₀.typeOf none := by rw [typeOf, typeOf, h.silent none hnone]
    rw [recorded, htype, h.later.widens.unfold_eq h.base.reached.sound
      (h.base.closed.known_typeOf _),
      structureOf, structureIn]
    exact .refl _
  below m q hm := by
    obtain ⟨k, hk, hmk⟩ := hm
    have hnodes := g.below k m (g.walked hn hk) ⟨q, hmk⟩
    rw [← g.stands k m q (g.entered_walked hentered hk) hmk hnodes]
    refine h.same hnodes fun hexpression => ?_
    -- the way down to the node begins with an operand that is done
    rcases ReflTransGen.cases_head (hk.tail ⟨q, hmk⟩) with rfl | ⟨c, hc, hcm⟩
    · exact absurd hk.le (Nat.not_le.2 (Below.lt ⟨k, .refl, hmk⟩))
    · exact hoperands c hc m hcm hexpression

/-- What a node means over the types that are recorded is what it means. -/
theorem layer_same (hn : g.nodes n) (hentered : g.entered n)
    (hoperands : ∀ c, IsOperand a n c → Done a x c) {s : Structure}
    (hs : layer a x x.recorded (aliasStructure a x₀) n (g.position n) = some s) :
    Same s (structureOf a x₀ (some n) (g.position n)) := by
  have hsound := h.base.reached.sound
  have hstructure := structureOf_same h.base.grammatical h.base.listed (g.listed n hn)
    (g.acyclicBelow hn) (g.position n)
  have hlayers := TypeExpr.layer_same (h.base.grammatical n (g.listed n hn))
    (h.agree hn hentered hoperands)
    (fun t (_ : Names x₀ a n t) => .refl (aliasStructure a x₀ t)) (g.position n)
  rw [← h.later.layer_eq h.base.closed hsound, hs] at hlayers
  have hsame := getD_same hlayers (x₀.store.unfold (x₀.typeOf (some n)))
  exact hsame.trans hstructure.symm

/-- The aliases that a node of the region names have the targets that they should have. -/
theorem targets_of_names (hn : g.nodes n) : Targets a x n (aliasStructure a x₀) where
  known t target hnames htarget := by
    have hnames := (h.later.fills.names_iff h.base.closed).1 hnames
    exact (h.targets t target (g.names n t hn hnames) htarget).same
  default t hnames _ hnone := by
    have halias := ((h.later.fills.names_iff h.base.closed).1 hnames).isAlias
    exact h.default_eq halias ((aliasOperand_eq h.later.fills.toKeepsNames halias).symm.trans hnone)

end Records

/-! ## Whole expressions -/

/-- Nodes of type expressions get types, and of the aliases only some get a target. -/
structure Expands (a : Arena) (P : TypeId → Prop) (x y : Analysis) : Prop extends Fills a x y where
  opened : ∀ t, (y.store.types.aliasTarget? t).isSome → (x.store.types.aliasTarget? t).isSome ∨ P t

variable {P : TypeId → Prop}

namespace Expands

theorem of_aliasTargets (h : Fills a x y)
    (htargets : y.store.types.aliasTargets = x.store.types.aliasTargets) : Expands a P x y where
  toFills := h
  opened t ht := by
    rw [TypeStore.aliasTarget?, htargets] at ht
    exact .inl ht

instance : Std.Refl (Expands a P) := ⟨fun x => of_aliasTargets (.refl a x) rfl⟩

instance : IsTrans Analysis (Expands a P) where
  trans _ _ _ h h' :=
    { toFills := h.toFills.trans h'.toFills
      opened := fun t ht => (h'.opened t ht).elim (h.opened t) .inr }

theorem setAliasTarget (ht : P t) (target : TypeId) :
    Moves (Expands a P) (onTypes fun types => ((), types.setAliasTarget t target)) := fun x =>
  { toFills := (setAliasTarget_evaluates t target x).fills a
    opened := fun u hu => by
      have hset : ((x.store.types.setAliasTarget t target).aliasTarget? u).isSome := hu
      rw [lookup_setAliasTarget] at hset
      split at hset
      · next heq => exact .inr (heq ▸ ht)
      · exact .inl hset }

theorem setType (hn : IsTypeNode a n) (u : TypeId) :
    Moves (Expands a P) (Analysis.setType (some n) u) :=
      fun x => of_aliasTargets (setType_fills a hn u x) rfl

theorem reportAt (problem : Problem) (r : NodeRef) :
    Moves (Expands a P) (Analysis.reportAt a problem r) :=
  fun x => of_aliasTargets (reportAt_fills a problem r x) rfl

end Expands

/-- What is asked of a node that is entered: where an alias may not be expanded, the walk has come
from its expression, and a node of the region is entered where it stands. -/
structure Admits (g : Region a root x₀) (P : TypeId → Prop) (expandable : List TypeId) (n : Nat)
    (position : Position) : Prop where
  came : ∀ t, IsAlias x₀ t → t ∉ expandable → Reaches x₀ a t n
  met : ∀ t, Meets x₀ a n t → P t
  bare : ∀ t, IsAlias x₀ t → aliasOperand x₀ a t = none → P t
  entered : g.entered n
  stands : g.nodes n → position = g.position n

namespace Admits

variable {expandable : List TypeId} {position : Position} (h : Admits g P expandable n position)
include h

theorem operand {c : Nat} {q : Position} (hc : (some c, q) ∈ operands a n) :
    Admits g P expandable c q where
  came t ht hnot := (h.came t ht hnot).operand ⟨q, hc⟩
  met t ht := h.met t (ht.walked (.single ⟨q, hc⟩))
  bare := h.bare
  entered := g.entered_below n c h.entered ⟨q, hc⟩
  stands hn := (g.stands n c q h.entered hc hn).symm

/-- The walk goes on in the expression of an alias that is named. -/
theorem expand (hnames : Names x₀ a n t) {operand : Nat}
    (hoperand : aliasOperand x₀ a t = some operand) :
    Admits g P (expandable.erase t) operand .plain where
  came u hu hnot := by
    by_cases heq : u = t
    · exact heq ▸ .start hoperand
    · exact (h.came u hu (mt (List.mem_erase_of_ne heq).2 hnot)).expand hnames hoperand
  met u hu := h.met u (hu.expand hnames.meets hoperand)
  bare := h.bare
  entered := (g.entered_operand n t operand h.entered hnames hoperand).1
  stands hn := ((g.entered_operand n t operand h.entered hnames hoperand).2 hn).symm

end Admits

/-- What is to be shown of each expression: what is recorded stays right, and a node of the
region is done. -/
def StaysRight (g : Region a root x₀) (P : TypeId → Prop) (expandable : List TypeId) (r : NodeRef)
    (position : Position) : Prop :=
  ∀ x, Records g x → (∀ n, r = some n → Admits g P expandable n position) →
    Runs (Expands a P) x (enter a expandable r position) fun _ y =>
      Records g y ∧ ∀ n, r = some n → g.nodes n → Done a y n

/-- The operands of a node are entered one after another. -/
theorem operands_records {expandable : List TypeId} (operands : List (NodeRef × Position))
    (h : ∀ c ∈ operands, StaysRight g P expandable c.1 c.2) (hx : Records g x)
    (hadmits : ∀ c ∈ operands, ∀ n, c.1 = some n → Admits g P expandable n c.2) :
    Runs (Expands a P) x (operands.forM fun c => enter a expandable c.1 c.2) fun _ y =>
      Records g y ∧ ∀ c ∈ operands, ∀ n, c.1 = some n → g.nodes n → Done a y n := by
  induction operands generalizing x with
  | nil => exact .pure (Std.Refl.refl x) ⟨hx, fun _ hc => absurd hc List.not_mem_nil⟩
  | cons c rest ih =>
    refine (h c List.mem_cons_self x hx (hadmits c List.mem_cons_self)).bind fun _ y _ hy => ?_
    refine (ih (fun c hc => h c (List.mem_cons_of_mem _ hc)) hy.1
      fun c hc => hadmits c (List.mem_cons_of_mem _ hc)).weaken fun _ z hz hdone => ⟨hdone.1, ?_⟩
    rintro d hd n hn hnodes
    rcases List.mem_cons.1 hd with rfl | hd
    · exact (hy.2 n hn hnodes).fills hz.toFills
    · exact hdone.2 d hd n hn hnodes

/-- Once its expression is done, an alias may stand for the type that is recorded there. -/
theorem Records.expanded (hx : Records g x) (ht : g.aliases t) {operand : Nat}
    (hoperand : aliasOperand x₀ a t = some operand) (h : g.nodes operand → Done a x operand) :
    Expanded a x₀ x t ((x.typeOf? (some operand)).getD .invalid) := by
  obtain ⟨hnodes, hposition⟩ := g.operand t operand ht hoperand
  have hexpression := hx.base.expressions t operand hoperand
  have htyped := h hnodes operand .refl hexpression
  refine ⟨fun o ho => Option.some.inj (hoperand.symm.trans ho) ▸ h hnodes, ?_⟩
  obtain ⟨u, hu⟩ := Option.isSome_iff_exists.1 htyped
  have hsame := (hx.nodes operand hnodes hexpression htyped).same
  rw [typeOf, hu] at hsame
  rw [aliasStructure_of_some hoperand, ← hposition, hu]
  exact hsame

section Nodes

variable {expandable : List TypeId} {position : Position} (hx : Records g x)
  (hadmits : Admits g P expandable n position)
include hx hadmits

/-- An alias that is expanded gets a target, and so does the node that names it. -/
theorem expand_records {operand : Nat} (hsuspends : Suspends x a n t operand)
    (h : StaysRight g P (expandable.erase t) (some operand) .plain) :
    Runs (Expands a P) x (do
      enter a (expandable.erase t) (some operand) .plain
      let target := ((← get).typeOf? (some operand)).getD .invalid
      Analysis.onTypes fun types => ((), types.setAliasTarget t target)
      Analysis.setType (some n) target) fun _ y => Records g y ∧ (g.nodes n → Done a y n) := by
  have hnames := (hx.later.fills.names_iff hx.base.closed).1 hsuspends.toNames
  have hoperand := (aliasOperand_eq hx.later.fills.toKeepsNames hnames.isAlias).symm.trans
    hsuspends.operand
  have hentered := h x hx fun m hm => Option.some.inj hm ▸ hadmits.expand hnames hoperand
  let y := (enter a (expandable.erase t) (some operand) .plain x).2
  let target := (y.typeOf? (some operand)).getD .invalid
  have hy : Records g y := hentered.2.1
  have htarget : y.store.Known target := by
    show y.store.Known ((y.typeOf? (some operand)).getD .invalid)
    cases htype : y.typeOf? (some operand) with
    | none => exact y.store.known_of_lt (by decide)
    | some u => exact hy.closed.types _ u htype
  have hexpanded (ht : g.aliases t) : Expanded a x₀ y t target :=
    hy.expanded ht hoperand (hentered.2.2 operand rfl)
  let z := (onTypes (fun types => ((), types.setAliasTarget t target)) y).2
  have halias : y.store.Known t := hy.later.widens.known (known_of_isAlias hnames.isAlias)
  have hz : Records g z := hy.setAliasTarget halias htarget hexpanded
  have hmoved : y.store.Widens z.store := hy.widens (setAliasTarget_runs hy.closed halias htarget).1
  have hnone (c : Nat) : ¬IsOperand a n c := not_isOperand_of_typeName hnames.kind c
  have hn : IsExpression a n := ⟨_, hnames.kind, rfl, by decide⟩
  have hsame (hnodes : g.nodes n) :
      Same (z.store.unfold target) (structureOf a x₀ (some n) (g.position n)) := by
    have hstructure := structureOf_same_of_names hx.base.grammatical hx.base.listed
      (g.listed n hnodes)
      (g.acyclicBelow hnodes) hnames (g.position n)
    rw [hmoved.unfold_eq hy.reached.sound htarget]
    exact (hexpanded (g.names n t hnodes hnames)).same.trans hstructure.symm
  have hset := hz.setType hn (hmoved.known htarget) (fun _ c hc => (hnone c hc).elim) hsame
  refine ⟨IsTrans.trans _ _ _ hentered.1 (IsTrans.trans _ _ _
    (Expands.setAliasTarget (hadmits.met t hnames.meets) target y)
    (Expands.setType hn.isTypeNode target z)), hset, ?_⟩
  exact fun _ => .intro (fun _ => setType_types _ _ _) fun c hc => (hnone c hc).elim

/-- The name of an alias that is being expanded stands outside the region. -/
theorem cyclic_records {operand : Nat} (hsuspends : Suspends x a n t operand)
    (ht : t ∉ expandable) :
    Runs (Expands a P) x (do
      Analysis.reportAt a .cyclicTypedef (some n)
      Analysis.setType (some n) .invalid) fun _ y => Records g y ∧ (g.nodes n → Done a y n) := by
  have hnames := (hx.later.fills.names_iff hx.base.closed).1 hsuspends.toNames
  have houtside : ¬g.nodes n := fun hn =>
    g.acyclic t (g.names n t hn hnames) ((hadmits.came t hnames.isAlias ht).cycle hnames)
  have hn : IsExpression a n := ⟨_, hnames.kind, rfl, by decide⟩
  have hy := hx.report .cyclicTypedef (some n)
  refine ⟨IsTrans.trans _ _ _ (Expands.reportAt _ _ x) (Expands.setType hn.isTypeNode _ _), ?_,
    fun hnodes => (houtside hnodes).elim⟩
  exact hy.setType hn (Store.known_of_lt _ (by decide)) (fun hnodes => (houtside hnodes).elim)
    fun hnodes => (houtside hnodes).elim

/-- The meaning of a node gives targets only to aliases that are let through. -/
theorem meaning_expands : Expands a P x (meaning a n position x).2 := by
  have hdefaults : Defaults a x (meaning a n position x).2 := meaning_moves a n position x
  refine ⟨hdefaults.fills a, fun t ht => ?_⟩
  obtain ⟨target, htarget⟩ := Option.isSome_iff_exists.1 ht
  refine (hdefaults.origins t target htarget).imp Option.isSome_of_eq_some ?_
  rintro ⟨halias, hnone, -⟩
  have halias := hx.later.fills.isAlias_iff.1 halias
  exact hadmits.bare t halias
    ((aliasOperand_eq hx.later.fills.toKeepsNames halias).symm.trans hnone)

/-- A node whose operands are done gets the type that it means. -/
theorem type_records {u : TypeId} (hfound : (meaning a n position x).1 = .type u)
    (hoperands : g.nodes n → ∀ c, IsOperand a n c → Done a x c) :
    Runs (Expands a P) (meaning a n position x).2 (Analysis.setType (some n) u)
      fun _ y => Records g y ∧ (g.nodes n → Done a y n) := by
  let z := (meaning a n position x).2
  have hz : Records g z := hx.meaning n position
  have hmeaning : (meaning a n position x).1 ≠ .nothing := by
    rw [hfound]
    exact Meaning.noConfusion
  have hn : IsExpression a n := isExpression_of_meaning hmeaning
  have hu : z.store.Known u := by
    have hknown := (meaning_runs hx.closed a n position).2
    rwa [hfound] at hknown
  have hdone (hnodes : g.nodes n) (c : Nat) (hc : IsOperand a n c) : Done a z c :=
    (hoperands hnodes c hc).fills (meaning_fills a n position x)
  have hsame (hnodes : g.nodes n) :
      Same (z.store.unfold u) (structureOf a x₀ (some n) (g.position n)) := by
    have hcomes := (meaning_comes hx.closed hx.reached (hx.targets_of_names hnodes) position).2
    rw [hfound] at hcomes
    obtain ⟨s, hs, hshows⟩ := hcomes
    rw [hadmits.stands hnodes] at hs
    exact hshows.same.trans (hx.layer_same hnodes hadmits.entered (hoperands hnodes) hs)
  refine ⟨Expands.setType hn.isTypeNode u z, hz.setType hn hu hdone hsame, fun hnodes => ?_⟩
  exact .intro (fun _ => setType_types _ _ _) fun c hc =>
    (hdone hnodes c hc).fills (setType_fills a hn.isTypeNode u z)

/-- A node is concluded once its operands are done. -/
theorem conclude_records (h : ∀ t ∈ expandable, ∀ operand,
      StaysRight g P (expandable.erase t) (some operand) .plain)
    (hoperands : g.nodes n → ∀ c, IsOperand a n c → Done a x c) :
    Runs (Expands a P) x (do conclude a expandable n (← meaning a n position))
      fun _ y => Records g y ∧ (g.nodes n → Done a y n) := by
  have hmeaning := meaning_expands hx hadmits
  suffices hconclude : Runs (Expands a P) (meaning a n position x).2
      (conclude a expandable n (meaning a n position x).1)
      fun _ y => Records g y ∧ (g.nodes n → Done a y n) from
    ⟨IsTrans.trans _ _ _ hmeaning hconclude.1, hconclude.2⟩
  cases hfound : (meaning a n position x).1 with
  | nothing =>
    refine .pure (Std.Refl.refl _) ⟨hx.meaning n position, fun hnodes => .intro ?_ fun c hc => ?_⟩
    · rintro ⟨kind, hkind, hexpression, hlist⟩
      exact absurd hfound (meaning_ne_nothing hkind hexpression hlist position x)
    · exact (hoperands hnodes c hc).fills hmeaning.toFills
  | type u => exact type_records hx hadmits hfound hoperands
  | expansion t operand =>
    have hsuspends := suspends_of_meaning hfound
    have hstate : (meaning a n position x).2 = x :=
      congrArg Prod.snd (meaning_of_suspends hsuspends position)
    rw [hstate]
    by_cases ht : t ∈ expandable
    · rw [conclude_of_mem ht]
      exact expand_records hx hadmits hsuspends (h t ht operand)
    · rw [conclude_of_not_mem ht]
      exact cyclic_records hx hadmits hsuspends ht

end Nodes

/-- What is recorded stays right while an expression is entered. -/
theorem enter_records (g : Region a root x₀) (P : TypeId → Prop)
    (expandable : List TypeId) (r : NodeRef)
    (position : Position) : StaysRight g P expandable r position := by
  intro x hx hadmits
  match r with
  | none =>
    rw [enter_none]
    refine .pure (Std.Refl.refl x) ⟨hx, fun m hm => ?_⟩
    cases hm
  | some n =>
    have hadmits := hadmits n rfl
    rw [enter_some]
    refine .get_bind (.ite (fun htyped => .pure (Std.Refl.refl x) ⟨hx, ?_⟩) fun _ => ?_)
    · rintro m ⟨⟩ hn
      exact hx.done_of_typed hn htyped
    have hoperands : ∀ c ∈ operands a n, StaysRight g P expandable c.1 c.2 :=
      fun (c, p) hc => enter_records g P expandable c p
    have hwalked := operands_records (operands a n) hoperands hx fun c hc m hm =>
      hadmits.operand (hm ▸ hc)
    have hconcluded := conclude_records hwalked.2.1 hadmits
      (fun t ht operand => enter_records g P (expandable.erase t) (some operand) .plain)
      (fun hn c ⟨p, hc⟩ => hwalked.2.2 _ hc c rfl (g.below n c hn ⟨p, hc⟩))
    refine ⟨IsTrans.trans _ _ _ hwalked.1 hconcluded.1, hconcluded.2.1, ?_⟩
    rintro m ⟨⟩ hn
    exact hconcluded.2.2 hn
termination_by effort a expandable r
decreasing_by
  · exact effort_operand_lt hc expandable
  · exact effort_erase_lt ht a _ _

end TypeExpr

end DocTypes
