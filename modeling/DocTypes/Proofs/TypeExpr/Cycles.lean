import DocTypes.Proofs.Hierarchy.Building
import DocTypes.Proofs.Tree.Comments
import DocTypes.Proofs.TypeExpr.Stack

/-!
# Aliases that are defined through themselves

A cycle is reported where the walk through an expression meets the name of an alias that is being
expanded. The walk has come there from the expression of that alias, so the alias lies on a cycle.
If no cycle is reported, everything that was walked is grounded: there is no endless way from alias
to alias below it.

Both hold from the state in which names are bound on (`TypeExpr.Surveyed`), in whatever order
expressions are worked out.

## Main statements

* `TypeExpr.Grounded.not_cycle`: an alias that is grounded lies on no cycle.
* `TypeExpr.enter_surveys`: what is known of an expression once it is worked out.
* The instances of `Analysis.Working` and `Analysis.Building`: the later passes.
-/

namespace DocTypes

open Relation

/-! ## Steps that make no alias -/

/-- Types are made that are no aliases, and no name resolves to something else. -/
structure Store.Adds (s s' : Store) : Prop where
  values : s.values.Outlines s'.values
  types : s.types.Interns TypeExpr.Ordinary s'.types

namespace Store

instance : Std.Refl Adds := ⟨fun s => ⟨.refl s.values, .refl⟩⟩

instance : IsTrans Store Adds :=
  ⟨fun _ _ _ h h' => ⟨h.values.trans h'.values, h.types.trans h'.types⟩⟩

instance : Instantiating Adds where
  interns h s := ⟨.refl s.values, h s.types⟩
  instantiates h cls := by
    refine .bind .get fun s => ?_
    split
    · refine .bind .get fun s => .bind (.mapM fun t _ => h t) fun types => ?_
      refine .bind (fun s => ⟨.refl s.values, .internList s.types types⟩) fun arguments => ?_
      exact fun s => ⟨.newConstructedClass s.values _ _ _, .refl⟩
    · exact .pure cls

theorem finalizeAllConstructed_adds : Moves Adds finalizeAllConstructed := by
  refine finalizeAllConstructed_moves fun v => ?_
  refine .bind (directBases_applies v) fun _ => .bind (linearize_applies _) fun _ s => ?_
  exact ⟨.updateConstructed s.values v _, .refl⟩

end Store

namespace Analysis

/-- No alias is made or gets a target, no node gets a type, and no cycle is reported. -/
structure Adds (x y : Analysis) : Prop where
  store : x.store.Adds y.store
  valueTable : y.valueTable = x.valueTable
  namedTypes : y.namedTypes = x.namedTypes
  typeTable : y.typeTable = x.typeTable
  reports : TypeExpr.cyclicReports y = TypeExpr.cyclicReports x

theorem Adds.ofStore {x : Analysis} {store : Store} (h : x.store.Adds store) :
    x.Adds { x with store } := ⟨h, rfl, rfl, rfl, rfl⟩

theorem Adds.keepsNames {x y : Analysis} (h : x.Adds y) : x.KeepsNames y :=
  ⟨h.valueTable, h.namedTypes, h.store.values, fun _ _ hkey => h.store.types.key?_of_some hkey⟩

theorem KeepsNames.isAlias {x y : Analysis} (h : x.KeepsNames y) {t : TypeId}
    (ht : TypeExpr.IsAlias x t) : TypeExpr.IsAlias y t := by
  obtain ⟨name, tag, hkey⟩ := ht
  exact ⟨name, tag, h.keys t _ hkey⟩

end Analysis

/-! ## Nodes of type expressions -/

namespace Arena

/-- A node of the type expression of a tag, in a comment of the program. -/
def InType (a : Arena) (root : NodeRef) (n : Nat) : Prop :=
  ∃ tag operand, a.InComment root tag ∧ a.typeOperand (some tag) = some operand ∧
    TypeExpr.Walked a operand n

variable {a : Arena} {root : NodeRef} {n c : Nat}

theorem InType.operand (h : a.InType root n) (hc : TypeExpr.IsOperand a n c) : a.InType root c := by
  obtain ⟨tag, operand, htag, hoperand, hwalk⟩ := h
  exact ⟨tag, operand, htag, hoperand, hwalk.tail hc⟩

theorem InComment.inType {tag operand : Nat} (h : a.InComment root tag)
    (hoperand : a.typeOperand (some tag) = some operand) : a.InType root operand :=
  ⟨tag, operand, h, hoperand, .refl⟩

end Arena

namespace TypeExpr

open Analysis

variable {a : Arena} {root : NodeRef} {x₀ x y : Analysis} {n : Nat} {t : TypeId}

/-! ## Grounded aliases -/

/-- An alias from which no endless way goes on from alias to alias. -/
def Grounded (x : Analysis) (a : Arena) (t : TypeId) : Prop := Acc (fun u t => DependsOn x a t u) t

/-- All aliases that are named where a node is worked out are grounded. -/
def GroundedBelow (x : Analysis) (a : Arena) (n : Nat) : Prop :=
  ∀ m u, Walked a n m → Names x a m u → Grounded x a u

/-- An alias that is grounded lies on no cycle. -/
theorem Grounded.not_cycle (h : Grounded x a t) : ¬TransGen (DependsOn x a) t t := by
  intro hcycle
  have hacc := Acc.transGen h
  have hswap := transGen_swap.2 hcycle
  clear h hcycle
  induction hacc with
  | intro t _ ih => exact ih t hswap hswap

theorem grounded_of_none (h : aliasOperand x a t = none) : Grounded x a t := by
  refine Acc.intro t fun u hu => ?_
  obtain ⟨operand, -, hoperand, -⟩ := hu
  cases h.symm.trans hoperand

theorem grounded_of_operand {operand : Nat} (h : aliasOperand x a t = some operand)
    (hbelow : GroundedBelow x a operand) : Grounded x a t := by
  refine Acc.intro t fun u hu => ?_
  obtain ⟨operand', m, hoperand, hwalk, hm⟩ := hu
  cases h.symm.trans hoperand
  exact hbelow m u hwalk hm

theorem GroundedBelow.intro (hself : ∀ u, Names x a n u → Grounded x a u)
    (hoperands : ∀ c, IsOperand a n c → GroundedBelow x a c) : GroundedBelow x a n := by
  intro m u hwalk hm
  rcases ReflTransGen.cases_head hwalk with rfl | ⟨c, hc, hwalk⟩
  · exact hself u hm
  · exact hoperands c hc m u hwalk hm

theorem Names.unique {u : TypeId} (h : Names x a n t) (hu : Names x a n u) : u = t :=
  Option.some.inj (hu.bound.symm.trans h.bound)

/-! ## What is known of cycles -/

/-- A cycle is reported at the name of an alias that lies on one. -/
def Circular (x : Analysis) (a : Arena) (d : Diagnostic) : Prop :=
  ∃ n t, d = { problem := .cyclicTypedef, span := a.span (some n) } ∧ Names x a n t ∧
    TransGen (DependsOn x a) t t

/-- What is known of cycles in a state that comes after names are bound in the state `x₀`. -/
structure Surveyed (a : Arena) (root : NodeRef) (x₀ x : Analysis) : Prop where
  base : x₀.Closed
  keeps : x₀.KeepsNames x
  /-- Simple type names go on to mean what they were bound to. -/
  names : ∀ n, a.InType root n → a.kind? (some n) = some .typeName →
    a.kind? (a.child (some n) 0) = some .identifier →
      x.typeOf? (a.child (some n) 0) = x₀.typeOf? (a.child (some n) 0)
  aliases : ∀ t name tag, x.store.types.key? t = some (.aliasOf name (some tag)) →
    a.InComment root tag
  reports : ∀ d ∈ cyclicReports x, Circular x₀ a d
  typed : cyclicReports x = [] → ∀ n, a.InType root n → (x.typeOf? (some n)).isSome →
    GroundedBelow x₀ a n
  targets : cyclicReports x = [] → ∀ t, IsAlias x₀ t → (x.store.types.aliasTarget? t).isSome →
    Grounded x₀ a t

namespace Surveyed

variable (h : Surveyed a root x₀ x)
include h

theorem boundType?_eq (hn : a.InType root n) (hkind : a.kind? (some n) = some .typeName) :
    boundType? x a n = boundType? x₀ a n := by
  unfold boundType?
  simp only
  split
  · next hidentifier => exact h.names n hn hkind hidentifier
  · rw [h.keeps.resolvePath_eq h.base]
    exact congrArg _ (funext h.keeps.namedType?_eq)
  · rfl

/-- Names in the program go on to be names of the same aliases. -/
theorem names_iff (hn : a.InType root n) : Names x a n t ↔ Names x₀ a n t := by
  constructor
  · rintro ⟨hkind, hbound, name, tag, hkey⟩
    rw [h.boundType?_eq hn hkind] at hbound
    obtain ⟨key, hkey₀⟩ := Option.isSome_iff_exists.1 (known_of_boundType? h.base hbound)
    cases hkey.symm.trans (h.keeps.keys t key hkey₀)
    exact ⟨hkind, hbound, name, tag, hkey₀⟩
  · rintro ⟨hkind, hbound, halias⟩
    exact ⟨hkind, (h.boundType?_eq hn hkind).trans hbound, h.keeps.isAlias halias⟩

/-- The type expression of an alias stands in the program. -/
theorem inType_operand {operand : Nat} (ht : aliasOperand x a t = some operand) :
    a.InType root operand := by
  obtain ⟨name, tag, hkey, htyped⟩ := exists_tag_of_aliasOperand ht
  exact (h.aliases t name tag hkey).inType htyped

/-- If no cycle is reported, an alias that is named is grounded, or still to be expanded. -/
theorem grounded_or_suspends (hn : a.InType root n) (hnames : Names x₀ a n t)
    (hnone : cyclicReports x = []) : Grounded x₀ a t ∨ ∃ operand, Suspends x a n t operand := by
  cases htarget : x.store.types.aliasTarget? t with
  | some target => exact .inl (h.targets hnone t hnames.isAlias (Option.isSome_of_eq_some htarget))
  | none =>
    cases hoperand : aliasOperand x₀ a t with
    | none => exact .inl (grounded_of_none hoperand)
    | some operand =>
      exact .inr ⟨operand, (h.names_iff hn).2 hnames,
        (aliasOperand_eq h.keeps hnames.isAlias).trans hoperand,
        htarget⟩

/-- A step that makes no alias. -/
theorem adds (hadds : x.Adds y) : Surveyed a root x₀ y where
  base := h.base
  keeps := h.keeps.trans hadds.keepsNames
  names n hn hkind hidentifier := by
    rw [typeOf?, hadds.typeTable]
    exact h.names n hn hkind hidentifier
  aliases t name tag hkey := (hadds.store.types.key?_cases hkey).elim (h.aliases t name tag)
    fun hother => (hother name _ rfl).elim
  reports := hadds.reports.symm ▸ h.reports
  typed hnone n hn htyped := by
    rw [typeOf?, hadds.typeTable] at htyped
    exact h.typed (hadds.reports ▸ hnone) n hn htyped
  targets hnone t ht htarget := by
    rw [TypeStore.aliasTarget?, hadds.store.types.aliasTargets_eq] at htarget
    exact h.targets (hadds.reports ▸ hnone) t ht htarget

/-- An alias gets a target, if it is grounded or a cycle was reported. -/
theorem setAliasTarget (hground : cyclicReports x = [] → IsAlias x₀ t → Grounded x₀ a t)
    (target : TypeId) :
    Surveyed a root x₀ (onTypes (fun types => ((), types.setAliasTarget t target)) x).2 where
  base := h.base
  keeps := h.keeps.trans (setAliasTarget_evaluates t target x).toKeepsNames
  names := h.names
  aliases := h.aliases
  reports := h.reports
  typed := h.typed
  targets hnone u hu htarget := by
    have hlookup : ((x.store.types.setAliasTarget t target).aliasTarget? u).isSome := htarget
    rw [lookup_setAliasTarget] at hlookup
    split at hlookup
    · next heq => exact heq ▸ hground hnone (heq ▸ hu)
    · exact h.targets hnone u hu hlookup

/-- A node gets a type, if what is below it is grounded or a cycle was reported. -/
theorem setType {r : NodeRef} (hr : a.kind? r = some .identifier → ∀ n, a.InType root n →
      r ≠ a.child (some n) 0)
    (hground : cyclicReports x = [] → ∀ n, r = some n → a.InType root n → GroundedBelow x₀ a n)
    (u : TypeId) : Surveyed a root x₀ (setType r u x).2 where
  base := h.base
  keeps := h.keeps.trans ⟨rfl, rfl, .refl _, fun _ _ hkey => hkey⟩
  names n hn hkind hidentifier := by
    have hne : r ≠ a.child (some n) 0 := by
      rintro rfl
      exact hr hidentifier n hn rfl
    rw [typeOf?_setType, if_neg hne]
    exact h.names n hn hkind hidentifier
  aliases := h.aliases
  reports := h.reports
  typed hnone n hn htyped := by
    rw [typeOf?_setType] at htyped
    split at htyped
    · next heq => exact hground hnone n heq hn
    · exact h.typed hnone n hn htyped
  targets := h.targets

/-- A cycle is reported at the name of an alias that lies on one. -/
theorem report (hnames : Names x₀ a n t) (hcycle : TransGen (DependsOn x₀ a) t t) :
    Surveyed a root x₀ (reportAt a .cyclicTypedef (some n) x).2 ∧
      cyclicReports (reportAt a .cyclicTypedef (some n) x).2 ≠ [] := by
  have hreports : cyclicReports (reportAt a .cyclicTypedef (some n) x).2 =
      cyclicReports x ++ [{ problem := .cyclicTypedef, span := a.span (some n) }] := by
    show (x.diagnostics.push _).toList.filter _ = _
    simp [cyclicReports]
  have hsome : cyclicReports (reportAt a .cyclicTypedef (some n) x).2 ≠ [] := by
    rw [hreports]
    exact List.append_ne_nil_of_right_ne_nil _ (List.cons_ne_nil _ _)
  refine ⟨⟨h.base, h.keeps.trans ⟨rfl, rfl, .refl _, fun _ _ hkey => hkey⟩, h.names, h.aliases,
    fun d hd => ?_, fun hnone => (hsome hnone).elim, fun hnone => (hsome hnone).elim⟩, hsome⟩
  rw [hreports, List.mem_append, List.mem_singleton] at hd
  rcases hd with hd | rfl
  · exact h.reports d hd
  · exact ⟨n, t, rfl, hnames, hcycle⟩

end Surveyed

/-- What is known of cycles stays known, and no report is lost. -/
structure Surveys (a : Arena) (root : NodeRef) (x₀ x y : Analysis) : Prop where
  surveyed : Surveyed a root x₀ x → Surveyed a root x₀ y
  reports : Surveyed a root x₀ x → cyclicReports y = [] → cyclicReports x = []

instance : Std.Refl (Surveys a root x₀) := ⟨fun _ => ⟨id, fun _ => id⟩⟩

instance : IsTrans Analysis (Surveys a root x₀) :=
  ⟨fun _ _ _ h h' => ⟨fun hx => h'.surveyed (h.surveyed hx),
    fun hx hz => h.reports hx (h'.reports (h.surveyed hx) hz)⟩⟩

instance : Anchored (Surveys a root x₀) := ⟨fun _ => Std.Refl.refl _⟩

theorem surveys_of_adds {α : Type} {m : Analyze α} (h : ∀ x : Analysis, x.Adds (m x).2) :
    Moves (Surveys a root x₀) m := fun x =>
  ⟨fun hx => hx.adds (h x), fun _ hnone => (h x).reports ▸ hnone⟩

theorem onStore_surveys {α : Type} {m : StateM Store α} (h : Moves Store.Adds m) :
    Moves (Surveys a root x₀) (Analyze.onStore m) :=
  surveys_of_adds fun x => .ofStore (h x.store)

instance : Composing (Surveys a root x₀) where
  interns h := surveys_of_adds fun x =>
    .ofStore ⟨.refl _, (h x.store.types).mono fun _ hkey => hkey.1⟩
  functions x shape _ := by
    have hordinary : Ordinary (.function shape) := by simp [Ordinary]
    exact surveys_of_adds (m := onTypes (·.function shape))
      (fun x => .ofStore ⟨.refl _, .intern x.store.types hordinary⟩) x
  reports d hd := surveys_of_adds fun x => ⟨Std.Refl.refl _, rfl, rfl, rfl,
    (report_evaluates d hd x).reports⟩

instance : Construing a (Surveys a root x₀) where
  applications := application_moves (fun _ _ _ => surveys_of_adds fun x =>
    .ofStore ⟨.newConstructedClass x.store.values _ _ _, .refl⟩) a
  defaults {x t _ tag} hkey hnone := by
    refine MovesFrom.bind (R := Surveys a root x₀) ⟨fun hx =>
      hx.setAliasTarget (fun _ ht => ?_) _, fun _ => id⟩
      fun _ => .pure _
    refine grounded_of_none ((aliasOperand_eq hx.keeps ht).symm.trans ?_)
    rw [aliasOperand, hkey]
    exact hnone

/-! ## Whole expressions -/

/-- Where an alias may not be expanded, the walk has come from its expression. -/
def Within (a : Arena) (root : NodeRef) (x₀ x : Analysis) (expandable : List TypeId)
    (n : Nat) : Prop :=
  ∀ t, IsAlias x t → t ∉ expandable → a.InType root n ∧ (IsAlias x₀ t → Reaches x₀ a t n)

theorem Within.operand {expandable : List TypeId} (h : Within a root x₀ x expandable n) {c : Nat}
    (hc : IsOperand a n c) : Within a root x₀ x expandable c := fun t ht hnot =>
  have ⟨hn, hreaches⟩ := h t ht hnot
  ⟨hn.operand hc, fun ht₀ => (hreaches ht₀).operand hc⟩

theorem Within.fills {expandable : List TypeId} (h : Within a root x₀ x expandable n)
    (hfills : Fills a x y) : Within a root x₀ y expandable n :=
fun t ht => h t (hfills.aliases t ht)

/-- The walk goes on in the expression of an alias that is named. -/
theorem Within.expand {expandable : List TypeId} (h : Within a root x₀ x expandable n)
    (hx : Surveyed a root x₀ x) {operand : Nat} (hsuspends : Suspends x a n t operand) :
    Within a root x₀ x (expandable.erase t) operand := by
  have hoperand := hx.inType_operand hsuspends.operand
  intro u hu hnot
  refine ⟨hoperand, fun hu₀ => ?_⟩
  by_cases heq : u = t
  · subst heq
    exact .start ((aliasOperand_eq hx.keeps hu₀).symm.trans hsuspends.operand)
  · have hnot : u ∉ expandable := fun hmem => hnot ((List.mem_erase_of_ne heq).2 hmem)
    obtain ⟨hn, hreaches⟩ := h u hu hnot
    have hnames := (hx.names_iff hn).1 hsuspends.toNames
    exact (hreaches hu₀).expand hnames
      ((aliasOperand_eq hx.keeps hnames.isAlias).symm.trans hsuspends.operand)

/-- What is known of an expression once it is worked out: it is grounded if no cycle is reported. -/
def Settled (a : Arena) (root : NodeRef) (x₀ : Analysis) (r : NodeRef) (y : Analysis) : Prop :=
  ∀ n, r = some n → a.InType root n → cyclicReports y = [] → GroundedBelow x₀ a n

theorem Settled.mono {r : NodeRef} (h : Settled a root x₀ r x) (hx : Surveyed a root x₀ x)
    (hxy : Surveys a root x₀ x y) : Settled a root x₀ r y :=
  fun n hr hn hnone => h n hr hn (hxy.reports hx hnone)

/-- Steps that settle an expression each settle all of them. -/
theorem forM_surveys {ι : Type} {f : ι → Analyze PUnit} {r : ι → NodeRef} {I : Analysis → Prop}
    (items : List ι) (hI : ∀ y, I y → Surveyed a root x₀ y)
    (hf : ∀ i ∈ items, ∀ y, I y → Runs (Surveys a root x₀) y (f i) fun _ z =>
      I z ∧ Settled a root x₀ (r i) z) (hx : I x) :
    Runs (Surveys a root x₀) x (items.forM f) fun _ y =>
      I y ∧ ∀ i ∈ items, Settled a root x₀ (r i) y := by
  induction items generalizing x with
  | nil => exact .pure (Std.Refl.refl x) ⟨hx, fun i hi => (List.not_mem_nil hi).elim⟩
  | cons i items ih =>
    have hfirst := hf i List.mem_cons_self x hx
    have hrest := ih (fun j hj => hf j (List.mem_cons_of_mem _ hj)) hfirst.2.1
    refine ⟨IsTrans.trans _ _ _ hfirst.1 hrest.1, hrest.2.1, fun j hj => ?_⟩
    rcases List.mem_cons.1 hj with rfl | hj
    · exact hfirst.2.2.mono (hI _ hfirst.2.1) hrest.1
    · exact hrest.2.2 j hj

/-- What is to be shown of an expression. -/
def Enters (a : Arena) (root : NodeRef) (x₀ : Analysis) (expandable : List TypeId) (r : NodeRef)
    (position : Position) : Prop :=
  ∀ x, Surveyed a root x₀ x → (∀ n, r = some n → Within a root x₀ x expandable n) →
    Runs (Surveys a root x₀) x (enter a expandable r position) fun _ => Settled a root x₀ r

/-- The operands of a node are worked out one after another. -/
theorem operands_surveys {expandable : List TypeId} (operands : List (NodeRef × Position))
    (h : ∀ c ∈ operands, Enters a root x₀ expandable c.1 c.2) (hx : Surveyed a root x₀ x)
    (hwithin : ∀ c ∈ operands, ∀ n, c.1 = some n → Within a root x₀ x expandable n) :
    Runs (Surveys a root x₀) x (operands.forM fun c => enter a expandable c.1 c.2) fun _ y =>
      ∀ c ∈ operands, Settled a root x₀ c.1 y := by
  let invariant (y : Analysis) : Prop :=
    Surveyed a root x₀ y ∧ ∀ c ∈ operands, ∀ n, c.1 = some n → Within a root x₀ y expandable n
  refine (forM_surveys (I := invariant) (r := Prod.fst) operands (fun _ hy => hy.1)
    (fun c hc y hy => ?_)
    ⟨hx, hwithin⟩).weaken fun _ _ _ hsettled => hsettled.2
  have hentered := h c hc y hy.1 (hy.2 c hc)
  have hfills := enter_fills a expandable c.1 c.2 y
  exact ⟨hentered.1, ⟨hentered.1.surveyed hy.1, fun d hd n hn =>
    (hy.2 d hd n hn).fills hfills⟩, hentered.2⟩

/-- A node of a type expression is no simple name. -/
theorem ne_identifier_of_isTypeNode (h : IsTypeNode a n) : a.kind? (some n) ≠ some .identifier := by
  intro hkind
  rw [IsTypeNode, hkind] at h
  cases h

section Nodes

variable {expandable : List TypeId} (hx : Surveyed a root x₀ x)
  (hwithin : Within a root x₀ x expandable n)
include hx hwithin

/-- An alias that is expanded gets a target, and so does the node that names it. -/
theorem expand_surveys {operand : Nat} (hsuspends : Suspends x a n t operand)
    (h : Enters a root x₀ (expandable.erase t) (some operand) .plain) :
    Runs (Surveys a root x₀) x (do
      enter a (expandable.erase t) (some operand) .plain
      let target := ((← get).typeOf? (some operand)).getD .invalid
      Analysis.onTypes fun types => ((), types.setAliasTarget t target)
      Analysis.setType (some n) target) fun _ => Settled a root x₀ (some n) := by
  have hentered := h x hx fun m hm => Option.some.inj hm ▸ hwithin.expand hx hsuspends
  let y := (enter a (expandable.erase t) (some operand) .plain x).2
  let target := (y.typeOf? (some operand)).getD .invalid
  have hy : Surveyed a root x₀ y := hentered.1.surveyed hx
  have halias (hnone : cyclicReports y = []) (ht : IsAlias x₀ t) : Grounded x₀ a t :=
    grounded_of_operand ((aliasOperand_eq hx.keeps ht).symm.trans hsuspends.operand)
      (hentered.2 operand rfl (hx.inType_operand hsuspends.operand) hnone)
  have hnode (hnone : cyclicReports y = []) (hn : a.InType root n) : GroundedBelow x₀ a n := by
    have hnames := (hx.names_iff hn).1 hsuspends.toNames
    refine .intro (fun u hu => ?_) fun c hc => (not_isOperand_of_typeName hnames.kind c hc).elim
    exact hnames.unique hu ▸ halias hnone hnames.isAlias
  have hkind : a.kind? (some n) ≠ some .identifier := by
    rw [hsuspends.kind]
    decide
  refine ⟨⟨fun _ => ?_, fun _ hnone => hentered.1.reports hx hnone⟩, ?_⟩
  · refine (hy.setAliasTarget halias target).setType (fun hidentifier =>
      (hkind hidentifier).elim) ?_ _
    rintro hnone m ⟨⟩ hn
    exact hnode hnone hn
  · rintro m ⟨⟩ hn hnone
    exact hnode hnone hn

/-- The name of an alias that is being expanded is where a cycle is reported. -/
theorem cyclic_surveys {operand : Nat} (hsuspends : Suspends x a n t operand)
    (ht : t ∉ expandable) :
    Runs (Surveys a root x₀) x (do
      Analysis.reportAt a .cyclicTypedef (some n)
      Analysis.setType (some n) .invalid) fun _ => Settled a root x₀ (some n) := by
  obtain ⟨hn, hreaches⟩ := hwithin t hsuspends.isAlias ht
  have hnames := (hx.names_iff hn).1 hsuspends.toNames
  obtain ⟨hreported, hsome⟩ := hx.report hnames ((hreaches hnames.isAlias).cycle hnames)
  have hkind : a.kind? (some n) ≠ some .identifier := by
    rw [hsuspends.kind]
    decide
  refine ⟨⟨fun _ => ?_, fun _ hnone => (hsome hnone).elim⟩, fun _ _ _ hnone => (hsome hnone).elim⟩
  exact hreported.setType (fun hidentifier => (hkind hidentifier).elim)
    (fun hnone => (hsome hnone).elim) _

/-- A node is concluded once its operands are done. -/
theorem conclude_surveys (h : ∀ t ∈ expandable, ∀ operand,
      Enters a root x₀ (expandable.erase t) (some operand) .plain)
    (hoperands : a.InType root n → cyclicReports x = [] → ∀ c, IsOperand a n c →
      GroundedBelow x₀ a c)
    (position : Position) :
    Runs (Surveys a root x₀) x (do conclude a expandable n (← meaning a n position))
      fun _ => Settled a root x₀ (some n) := by
  have hmeaning : Surveys a root x₀ x (meaning a n position x).2 := meaning_moves a n position x
  -- what a node means that is not left open rests on what is grounded already
  have hclosed (hne : ∀ t operand, (meaning a n position x).1 ≠ .expansion t operand) (y : Analysis)
      (hy : Surveys a root x₀ x y) : Settled a root x₀ (some n) y := by
    rintro m ⟨⟩ hn hnone
    have hnone := hy.reports hx hnone
    refine .intro (fun u hu => ?_) (hoperands hn hnone)
    refine (hx.grounded_or_suspends hn hu hnone).resolve_right ?_
    rintro ⟨operand, hsuspends⟩
    exact hne u operand (by rw [meaning_of_suspends hsuspends])
  suffices hconclude : Runs (Surveys a root x₀) (meaning a n position x).2
      (conclude a expandable n (meaning a n position x).1) fun _ => Settled a root x₀ (some n) from
    ⟨IsTrans.trans _ _ _ hmeaning hconclude.1, hconclude.2⟩
  have hnode := @isTypeNode_of_meaning a n position x
  cases hfound : (meaning a n position x).1 with
  | nothing => exact ⟨Std.Refl.refl _, hclosed (by simp [hfound]) _ hmeaning⟩
  | type u =>
    have hsettled := hclosed (by simp [hfound]) _ hmeaning
    have hidentifier := ne_identifier_of_isTypeNode (hnode (by simp [hfound]))
    rw [conclude]
    generalize (meaning a n position x).2 = y at hsettled
    refine ⟨⟨fun hy => hy.setType (fun hkind => (hidentifier hkind).elim) (fun hnone m hm hn =>
      hsettled m hm hn hnone) u, fun _ => id⟩, hsettled⟩
  | expansion t operand =>
    have hsuspends := suspends_of_meaning hfound
    rw [meaning_of_suspends hsuspends]
    by_cases ht : t ∈ expandable
    · rw [conclude_of_mem ht]
      exact expand_surveys hx hwithin hsuspends (h t ht operand)
    · rw [conclude_of_not_mem ht]
      exact cyclic_surveys hx hwithin hsuspends ht

end Nodes

/-- What is known of an expression once it is worked out. -/
theorem enter_surveys (a : Arena) (root : NodeRef) (x₀ : Analysis) (expandable : List TypeId)
    (r : NodeRef) (position : Position) : Enters a root x₀ expandable r position := by
  intro x hx hwithin
  match r with
  | none =>
    rw [enter_none]
    exact .pure (Std.Refl.refl x) nofun
  | some n =>
    have hwithin := hwithin n rfl
    rw [enter_some]
    refine .get_bind (.ite (fun htyped => .pure (Std.Refl.refl x) ?_) fun _ => ?_)
    · rintro m ⟨⟩ hn hnone
      exact hx.typed hnone n hn htyped
    have hoperands : ∀ c ∈ operands a n, Enters a root x₀ expandable c.1 c.2 :=
      fun (c, p) hc => enter_surveys a root x₀ expandable c p
    have hfills : Fills a x ((operands a n).forM (fun c => enter a expandable c.1 c.2) x).2 :=
      Moves.forM (fun c _ => enter_fills a expandable c.1 c.2) x
    have hwalked := operands_surveys (operands a n) hoperands hx fun c hc m hm =>
      hwithin.operand ⟨c.2, hm ▸ hc⟩
    have hconcluded := conclude_surveys (hwalked.1.surveyed hx) (hwithin.fills hfills)
      (fun t ht operand => enter_surveys a root x₀ (expandable.erase t) (some operand) .plain)
      (fun hn hnone c ⟨p, hc⟩ => hwalked.2 _ hc c rfl (hn.operand ⟨p, hc⟩) hnone) position
    exact ⟨IsTrans.trans _ _ _ hwalked.1 hconcluded.1, hconcluded.2⟩
termination_by effort a expandable r
decreasing_by
  · exact effort_operand_lt hc expandable
  · exact effort_erase_lt ht a _ _

/-- A type expression is worked out by a pass. -/
theorem transform_surveys (hx : Surveyed a root x₀ x) (r : NodeRef) (position : Position) :
    Runs (Surveys a root x₀) x (transform a r position) fun _ => Settled a root x₀ r := by
  refine .ite (fun hnone => .pure (Std.Refl.refl x) ?_) fun _ => .get_bind ?_
  · rintro n rfl
    cases hnone
  · refine (enter_surveys a root x₀ _ r position x hx fun n _ t ht hnot => ?_).bind
      fun _ y _ hy => ?_
    · exact (hnot (mem_aliases.2 ht)).elim
    · exact .get_bind (.pure (Std.Refl.refl y) hy)

/-- An alias is worked out. -/
theorem resolveAlias_surveys (hx : Surveyed a root x₀ x) (t : TypeId) :
    MovesFrom (Surveys a root x₀) x (resolveAlias a t) := by
  refine .bind_from (m := get) (Std.Refl.refl x) ?_
  dsimp only [run_get]
  split
  · exact (Moves.pure _).movesFrom x
  · split
    · next hkey =>
      split
      · next hnone => exact Construing.defaults hkey hnone
      · next operand htag =>
        have hoperand : aliasOperand x a t = some operand := by
          rw [aliasOperand, hkey]
          exact htag
        have hin := hx.inType_operand hoperand
        -- no other alias is being expanded
        have hwithin : Within a root x₀ x (x.store.types.aliases.erase t) operand := by
          intro u hu hnot
          obtain rfl : u = t := by
            by_contra hne
            exact hnot ((List.mem_erase_of_ne hne).2 (mem_aliases.2 hu))
          exact ⟨hin, fun hu₀ => .start ((aliasOperand_eq hx.keeps hu₀).symm.trans hoperand)⟩
        have hentered := enter_surveys a root x₀ (x.store.types.aliases.erase t)
          (some operand) .plain x hx
          fun m hm => Option.some.inj hm ▸ hwithin
        refine .bind_from hentered.1 (.bind_from (m := get) (Std.Refl.refl _) ?_)
        dsimp only [run_get]
        split
        · exact (Moves.pure _).movesFrom _
        · refine .bind ⟨fun hy => hy.setAliasTarget (fun hnone ht => ?_) _, fun _ => id⟩
            fun _ => .pure _
          exact grounded_of_operand ((aliasOperand_eq hx.keeps ht).symm.trans hoperand)
            (hentered.2 operand rfl hin hnone)
    · exact (Moves.pure _).movesFrom x

/-! ## Passes -/

/-- What is to be shown of a step may be shown from a state that was surveyed. -/
theorem surveys_of_surveyed (h : Surveyed a root x₀ x → Surveys a root x₀ x y) :
    Surveys a root x₀ x y :=
  ⟨fun hx => (h hx).surveyed hx, fun hx => (h hx).reports hx⟩

instance : Working a (Surveys a root x₀) where
  transforms r position _ := surveys_of_surveyed fun hx => (transform_surveys hx r position).1
  resolves t _ := surveys_of_surveyed fun hx => resolveAlias_surveys hx t

theorem updateClass_surveys (cls : ValueId) (f : ClassData → ClassData) :
    Moves (Surveys a root x₀) (modifyValues (·.updateClass cls f)) :=
  surveys_of_adds fun x => .ofStore ⟨.updateClass x.store.values cls f, .refl⟩

theorem finalizeClass_adds (cls : ValueId) : Moves Store.Adds (Hierarchy.finalizeClass cls) := by
  refine .bind .get fun s => ?_
  split
  · refine .bind (Store.linearize_applies _) fun ancestors s => ?_
    exact ⟨.updateClass s.values cls _, .refl⟩
  · exact .pure _

instance : Building a (Surveys a root x₀) where
  notesBases cls _ := updateClass_surveys cls _
  finalizes cls := onStore_surveys (finalizeClass_adds cls)
  completes := onStore_surveys Store.finalizeAllConstructed_adds

end TypeExpr

end DocTypes
