import DocTypes.Proofs.Nodes.Coverage
import DocTypes.Proofs.TypeExpr.Cycles

/-!
# When cycles of aliases are reported

The later passes work out the type expressions of all comments, and give types to nodes of the
program besides. No node of the program is a part of a type expression in a comment, so what
is known of cycles once names are bound stays known (`Analysis.Charts`). In the end every
alias of a comment is grounded if no cycle was reported, and each report is at the name of an
alias that lies on a cycle.

## Main statements

* `Analysis.runPasses_surveyed`: what is known of cycles once names are bound.
* `Typing.visits_settle`: what the third pass works out.
* `Analysis.run_reports_cycles`: the whole run.
-/

namespace DocTypes

open Relation

/-! ## Type expressions and the program -/

namespace Arena

variable {a : Arena} {root : NodeRef} {n c : Nat}

/-- A node of the tree that is no node of the program. -/
def Inside (a : Arena) (root : NodeRef) (n : Nat) : Prop := n ∈ a.listing root ∧ n ∉ a.code root

/-- A comment with tags is there. -/
theorem exists_of_mem_tags {document : NodeRef} {tag : Nat} (htag : tag ∈ a.tags document) :
    ∃ d, document = some d := by
  cases document with
  | some d => exact ⟨d, rfl⟩
  | none => simp [tags, presentChildren, children, node?] at htag

namespace Shaped

variable (h : a.Shaped root)
include h

/-- What stands below a node inside a comment is inside it too. -/
theorem inside_child (hn : a.Inside root n) (hc : some c ∈ a.children (some n)) : a.Inside root c :=
  ⟨mem_listing_child hn.1 hc, fun hcode => hn.2 (h.mem_code_parent hn.1 hc hcode).1⟩

/-- The tags of a comment are inside it. -/
theorem inside_tag {tag : Nat} (htag : a.InComment root tag) : a.Inside root tag := by
  obtain ⟨m, hm, hkind, htag⟩ := htag
  have hchild := mem_presentChildren.1 (List.mem_filter.1 htag).1
  have hlisting := mem_listing_of_mem_code hm
  refine ⟨mem_listing_of_grandchild hlisting hchild, fun hcode => ?_⟩
  obtain ⟨d, hd⟩ := exists_of_mem_tags htag
  rw [hd] at hchild
  have hdocument := h.kind?_child hlisting hkind rfl hd
  have hplain := (h.mem_code_parent (mem_listing_of_child hlisting hd) hchild hcode).2
  exact absurd (isKind_iff.2 hdocument) (by simp [hplain])

/-- The nodes of type expressions of comments are inside the comments. -/
theorem inside_of_inType (hn : a.InType root n) : a.Inside root n := by
  obtain ⟨tag, operand, htag, hoperand, hwalk⟩ := hn
  have hchild := mem_presentChildren.1 (List.mem_of_find?_eq_some hoperand)
  induction hwalk with
  | refl => exact h.inside_child (h.inside_tag htag) hchild
  | tail _ hc ih => exact h.inside_child ih (TypeExpr.mem_children_of_isOperand hc)

/-- A label has nothing below it. -/
theorem not_isOperand_of_isLabel (hn : n ∈ a.listing root) (hlabel : a.IsLabel (some n)) :
    ¬TypeExpr.IsOperand a n c := by
  intro hc
  obtain ⟨i, -, hi⟩ := exists_child_of_mem_children (TypeExpr.mem_children_of_isOperand hc)
  have hnone : a.isOf (fun _ => false) (some c) = true := by
    rcases hlabel with hkind | hkind
    · exact h.isOf_child hn hkind rfl (by simp) hi
    · exact h.isOf_child hn hkind rfl (by simp) hi
  simp [isOf] at hnone

end Shaped

end Arena

namespace Analysis

open TypeExpr Arena

variable {a : Arena} {root : NodeRef} {x₀ x y : Analysis}

/-- What is known of cycles once names are bound. -/
theorem runPasses_surveyed (h : a.Shaped root) (hc : a.Complete root) (reportUndefined : Bool) :
    Surveyed a root (runPasses a reportUndefined root 1) (runPasses a reportUndefined root 1) := by
  have hsited := bindNames_sited h hc reportUndefined
  rw [← runPasses_one] at hsited
  refine ⟨(runPasses_steps a reportUndefined root 1).closed, .refl _, fun _ _ _ _ => rfl,
    hsited.pending.aliases, ?_, fun _ n hn htyped => ?_, fun _ t _ htarget => ?_⟩
  · rw [hsited.pending.reports]
    nofun
  · have hlabel := hsited.types (some n) htyped
    refine .intro (fun u hu => ?_) fun c hc =>
      (h.not_isOperand_of_isLabel (h.inside_of_inType hn).1 hlabel hc).elim
    rcases hlabel with hkind | hkind
    · cases hkind.symm.trans hu.kind
    · cases hkind.symm.trans hu.kind
  · rw [TypeStore.aliasTarget?, hsited.pending.targets] at htarget
    cases htarget

end Analysis

/-! ## Steps of the third pass -/

namespace TypeExpr

namespace Surveyed

open Analysis

variable {a : Arena} {root : NodeRef} {x₀ x : Analysis} (h : Surveyed a root x₀ x)
include h

/-- Types get numbers. The aliases among them are those of tags of comments. -/
theorem interns {types : TypeStore} (hinterns : x.store.types.Interns
      (fun key => ∀ name tag, key = .aliasOf name (some tag) → a.InComment root tag) types) :
    Surveyed a root x₀ { x with store := { x.store with types } } where
  base := h.base
  keeps := h.keeps.trans ⟨rfl, rfl, .refl _, fun _ _ hkey => hinterns.key?_of_some hkey⟩
  names := h.names
  aliases t name tag hkey := (hinterns.key?_cases hkey).elim (h.aliases t name tag)
    fun hnew => hnew name tag rfl
  reports := h.reports
  typed := h.typed
  targets hnone t ht htarget := by
    rw [TypeStore.aliasTarget?, hinterns.aliasTargets_eq] at htarget
    exact h.targets hnone t ht htarget

end Surveyed

end TypeExpr

namespace Analysis

open TypeExpr Arena

variable {a : Arena} {root : NodeRef} {x₀ x y : Analysis}

theorem setTypeIfNew_cases (r : NodeRef) (t : TypeId) (x : Analysis) :
    (setTypeIfNew r t x).2 = x ∨ (setTypeIfNew r t x).2 = (setType r t x).2 := by
  show { x with typeTable := x.typeTable.insertIfNew r t } = x ∨
    { x with typeTable := x.typeTable.insertIfNew r t } =
    { x with typeTable := x.typeTable.insert r t }
  unfold NodeTable.insertIfNew
  split
  · exact .inl rfl
  · exact .inr rfl

/-- A node of the program gets a type. -/
theorem setType_surveys (h : a.Shaped root) {r : NodeRef} (hr : ∀ n, r = some n → n ∈ a.code root)
    (t : TypeId) : Moves (Surveys a root x₀) (setType r t) := by
  refine fun x => ⟨fun hx =>
    hx.setType (fun hkind n hn hname => ?_) (fun _ n hrn hn => ?_) t, fun _ => id⟩
  · obtain ⟨m, rfl⟩ := exists_of_kind? hkind
    have hinside :=
      h.inside_child (h.inside_of_inType hn) (mem_children_of_child_eq_some hname.symm)
    exact hinside.2 (hr m rfl)
  · exact absurd (hr n hrn) (h.inside_of_inType hn).2

/-- What is known of cycles stays known, and values stay where they are. -/
structure Charts (a : Arena) (root : NodeRef) (x₀ x y : Analysis) : Prop
    extends x.SameSites y, Surveys a root x₀ x y

instance : Std.Refl (Charts a root x₀) := ⟨fun x => ⟨Std.Refl.refl x, Std.Refl.refl x⟩⟩

instance : IsTrans Analysis (Charts a root x₀) := ⟨fun _ _ _ h h' =>
  ⟨h.toSameSites.trans h'.toSameSites, IsTrans.trans _ _ _ h.toSurveys h'.toSurveys⟩⟩

instance : Anchored (Charts a root x₀) := ⟨fun _ => Std.Refl.refl _⟩

instance : Working a (Charts a root x₀) where
  interns h x := ⟨Composing.interns h x, Composing.interns h x⟩
  functions x _ h := ⟨Composing.functions x h, Composing.functions x h⟩
  reports d h x := ⟨Composing.reports d h x, Composing.reports d h x⟩
  transforms r position x :=
    ⟨transform_moves (a := a) r position x, Working.transforms r position x⟩
  resolves t x := ⟨resolveAlias_moves (a := a) t x, Working.resolves t x⟩

/-- The nodes of the program get types. -/
theorem charts_marking (h : a.Shaped root) (x₀ : Analysis) :
    Marking a root (fun r => ∀ n, r = some n → n ∈ a.code root) (Charts a root x₀) where
  same hxy := hxy.toSameSites
  sets hr t x := ⟨Annotating.sets _ t x, setType_surveys h hr t x⟩
  setsIfNew {r} hr t x := by
    refine ⟨Annotating.setsIfNew _ t x, ?_⟩
    rcases setTypeIfNew_cases r t x with heq | heq
    · rw [heq]
      exact Std.Refl.refl x
    · rw [heq]
      exact setType_surveys h hr t x
  declares v t x := ⟨Annotating.declares v t x,
    surveys_of_adds (m := declareType v t) (fun _ => ⟨Std.Refl.refl _, rfl, rfl, rfl, rfl⟩) x⟩
  aliases name tag htag x := by
    have hinterns : x.store.types.Interns
        (fun key => ∀ name tag, key = .aliasOf name (some tag) → a.InComment root tag)
        (x.store.types.aliasOf name tag).2 := by
      refine .intern _ ?_
      rintro _ other ⟨⟩
      exact htag other rfl
    exact ⟨Declaring.aliases a name tag x, fun hx => hx.interns hinterns, fun _ => id⟩

theorem typable_code (a : Arena) (root : NodeRef) :
    a.Typable root fun r => ∀ n, r = some n → n ∈ a.code root where
  site _ hn _ _ hm := Option.some.inj hm ▸ hn
  method _ hn _ _ hm := Option.some.inj hm ▸ hn
  named hnone := (hnone fun n heq => (Option.some_ne_none n heq.symm).elim).elim

end Analysis

/-! ## The third pass -/

namespace Typing

open Analysis TypeExpr Arena

variable {a : Arena} {root : NodeRef} {x₀ x : Analysis}

/-- The type expressions of a comment are settled once they are gone through. -/
theorem remainingOperands_surveys (hx : Surveyed a root x₀ x) (document : NodeRef) :
    Runs (Surveys a root x₀) x (remainingOperands a document) fun _ y =>
      ∀ tag ∈ a.tags document, Settled a root x₀ (a.typeOperand (some tag)) y := by
  refine (forM_surveys (r := fun tag => a.typeOperand (some tag)) (a.tags document) (fun _ => id)
    (fun tag _ y hy => ?_) hx).weaken fun _ _ _ hsettled => hsettled.2
  refine .get_bind (.ite (fun _ => ?_) fun htyped =>
    ⟨Std.Refl.refl y, hy, fun n hn hin hnone => ?_⟩)
  · have hsettled := transform_surveys hy (a.typeOperand (some tag))
      (if a.text (some tag) == "param" then .parameter else .plain)
    exact ⟨hsettled.1, hsettled.1.surveyed hy, hsettled.2⟩
  · refine hy.typed hnone n hin (Option.isSome_iff_ne_none.2 fun hnone => htyped ?_)
    simp [hn, hnone]

variable (h : a.Shaped root) (hc : a.Complete root)
include h hc

theorem visit_charts (hx : x.Placed a root) {m : Nat} (hm : m ∈ a.code root) :
    MovesFrom (Charts a root x₀) x (visit a m) :=
  visit_marks (charts_marking h x₀) h hc hx (typable_code a root) hm
    (fun _ heq => Option.some.inj heq ▸ hm) fun _ _ _ _ hn _ _ heq => Option.some.inj heq ▸ hn

theorem visits_charts (hx : x.Placed a root) {nodes : List Nat}
    (hnodes : ∀ m ∈ nodes, m ∈ a.code root) :
    MovesFrom (Charts a root x₀) x (nodes.forM (visit a)) :=
  (Runs.forM (R := Charts a root x₀) (Std.Refl.refl x) fun m hm _ hy =>
    ⟨visit_charts h hc (hy.placed hx) (hnodes m hm), trivial⟩).1

/-- The type expressions of a comment are settled by the visit of the comment. -/
theorem annotated_settles (hx : Surveyed a root x₀ x) (hplaced : x.Placed a root) {m : Nat}
    (hm : m ∈ a.code root) (hkind : a.kind? (some m) = some .annotated) :
    Runs (Surveys a root x₀) x (annotated a (some m)) fun _ y =>
      ∀ tag ∈ a.tags (a.child (some m) 0), Settled a root x₀ (a.typeOperand (some tag)) y := by
  have hdescribed : Charts a root x₀ x (described a (some m) x).2 :=
    described_marks (charts_marking h x₀) h hc hplaced (typable_code a root) hm hkind
      fun _ _ _ hn _ _ heq => Option.some.inj heq ▸ hn
  have hrest := remainingOperands_surveys (hdescribed.surveyed hx) (a.child (some m) 0)
  rw [annotated_eq]
  exact ⟨IsTrans.trans _ _ _ hdescribed.toSurveys hrest.1, hrest.2⟩

/-- The type expressions of all comments are settled once all nodes are visited. -/
theorem visits_settle (hx : Surveyed a root x₀ x) (hplaced : x.Placed a root) :
    Runs (Surveys a root x₀) x ((a.code root).forM (visit a)) fun _ y =>
      ∀ tag, a.InComment root tag → Settled a root x₀ (a.typeOperand (some tag)) y := by
  refine ⟨(visits_charts h hc hplaced fun _ => id).toSurveys, fun tag htag => ?_⟩
  obtain ⟨m, hm, hkind, htag⟩ := htag
  obtain ⟨before, after, hsplit⟩ := List.append_of_mem hm
  rw [hsplit]
  have hbefore : Charts a root x₀ x (before.forM (visit a) x).2 := visits_charts h hc hplaced
    fun k hk => hsplit ▸ List.mem_append_left _ hk
  have hvisit := annotated_settles h hc (hbefore.surveyed hx) (hbefore.placed hplaced) hm hkind
  have hcharts : Charts a root x₀ _ (visit a m (before.forM (visit a) x).2).2 :=
    visit_charts h hc (hbefore.placed hplaced) hm
  rw [← visit_annotated hkind] at hvisit
  have hafter : Charts a root x₀ _ (after.forM (visit a) _).2 :=
    visits_charts h hc (hcharts.placed (hbefore.placed hplaced))
      fun k hk => hsplit ▸ List.mem_append_right _ (List.mem_cons_of_mem _ hk)
  rw [run_forM_append]
  exact (hvisit.2 tag htag).mono (hvisit.1.surveyed (hbefore.surveyed hx)) hafter.toSurveys

omit h hc

/-- The same cycles are reported. -/
def SameReports (x y : Analysis) : Prop := cyclicReports y = cyclicReports x

instance : Std.Refl SameReports := ⟨fun _ => rfl⟩

instance : IsTrans Analysis SameReports := ⟨fun _ _ _ h h' => Eq.trans h' h⟩

instance : Annotating SameReports where
  sets _ _ _ := rfl
  setsIfNew _ _ _ := rfl
  declares _ _ _ := rfl

theorem onStore_sameReports {α : Type} (m : StateM Store α) :
    Moves SameReports (Analyze.onStore m) :=
  fun _ => rfl

/-- At the end of the pass no cycle is reported. -/
theorem finish_sameReports : Moves SameReports finish :=
  .bind .get fun _ => .bind (.forM fun v _ => propagate_moves v) fun _ => onStore_sameReports _

end Typing

/-! ## Targets stay -/

/-- An alias that stands for something goes on to stand for something. -/
theorem Store.Change.aliasTarget? {s s' : Store} (h : s.Change s') {t : TypeId}
    (ht : (s.types.aliasTarget? t).isSome) : (s'.types.aliasTarget? t).isSome := by
  have hsame {types : TypeStore} (heq : types.aliasTargets = s.types.aliasTargets) :
      (types.aliasTarget? t).isSome := by
    rw [TypeStore.aliasTarget?, heq]
    exact ht
  cases h with
  | operation op =>
    cases op with
    | setAliasTarget u target =>
      show ((s.types.setAliasTarget u target).aliasTarget? t).isSome
      rw [TypeExpr.lookup_setAliasTarget]
      split
      · rfl
      · exact ht
    | union types => exact hsame (Store.aliasTargets_normalUnion _ _)
    | removeMember u member => exact hsame (Store.aliasTargets_normalUnion _ _)
    | record fields => exact hsame (Store.aliasTargets_record _ _)
    | instanceOf | constructedInstanceOf | reference | function | tuple | labeled
    | parameter | aliasOf =>
      exact hsame (TypeStore.aliasTargets_intern _ _)
    | _ => exact ht
  | _ => exact ht

theorem Analysis.Change.aliasTarget? {x y : Analysis} (h : Change x y) {t : TypeId}
    (ht : (x.store.types.aliasTarget? t).isSome) : (y.store.types.aliasTarget? t).isSome := by
  cases h with
  | store s h => exact h.aliasTarget? ht
  | _ => exact ht

theorem Analysis.aliasTarget?_of_changes {x y : Analysis} (h : ReflTransGen Change x y) {t : TypeId}
    (ht : (x.store.types.aliasTarget? t).isSome) : (y.store.types.aliasTarget? t).isSome := by
  induction h with
  | refl => exact ht
  | tail _ hstep ih => exact hstep.aliasTarget? ih

/-! ## Runs -/

namespace Analysis

open TypeExpr Arena

variable {a : Arena} {root : NodeRef} {x₀ x y : Analysis}

/-- An alias that was made for a tag of a comment in the tree. -/
def Documented (x : Analysis) (a : Arena) (root : NodeRef) (t : TypeId) : Prop :=
  ∃ name tag, x.store.types.key? t = some (.aliasOf name (some tag)) ∧ ∃ n ∈ a.listing root,
    a.kind? (some n) = some .annotated ∧ a.kind? (a.child (some n) 0) = some .jsDocDocument ∧
      tag ∈ a.tags (a.child (some n) 0)

/-- An alias with a type expression has a tag in a comment of the program. -/
theorem exists_tag_of_dependsOn (hx : Surveyed a root x x) {t u : TypeId} (h : DependsOn x a t u) :
    ∃ name tag, x.store.types.key? t = some (.aliasOf name (some tag)) ∧ a.InComment root tag := by
  obtain ⟨operand, -, hoperand, -⟩ := h
  obtain ⟨name, tag, hkey, -⟩ := exists_tag_of_aliasOperand hoperand
  exact ⟨name, tag, hkey, hx.aliases t name tag hkey⟩

theorem documented_of_dependsOn (h : a.Shaped root) (hx : Surveyed a root x x) {t u : TypeId}
    (hdepends : DependsOn x a t u) : x.Documented a root t := by
  obtain ⟨name, tag, hkey, n, hn, hkind, htag⟩ := exists_tag_of_dependsOn hx hdepends
  have hlisting := mem_listing_of_mem_code hn
  refine ⟨name, tag, hkey, n, hlisting, hkind, ?_, htag⟩
  obtain ⟨d, hd⟩ := exists_of_mem_tags htag
  rw [hd]
  exact h.kind?_child hlisting hkind rfl hd

theorem mem_cyclicReports {d : Diagnostic} :
    d ∈ cyclicReports x ↔ d ∈ x.diagnostics ∧ d.problem = .cyclicTypedef := by
  simp [cyclicReports]

/-- At the end of a run the same cycles are reported as in a state in which the type expressions of
all comments are settled. -/
theorem run_settled (h : a.Shaped root) (hc : a.Complete root) (reportUndefined : Bool) :
    let x := runPasses a reportUndefined root 1
    ∃ y, Surveyed a root x y ∧
      (∀ tag, a.InComment root tag → Settled a root x (a.typeOperand (some tag)) y) ∧
      cyclicReports (runPasses a reportUndefined root 3) = cyclicReports y := by
  intro x
  have hx : Surveyed a root x x := runPasses_surveyed h hc reportUndefined
  let x₂ := runPasses a reportUndefined root 2
  have hbuilt : Surveys a root x x x₂ := by
    show Surveys a root x x (runPasses a reportUndefined root 2)
    rw [runPasses_two]
    exact Hierarchy.build_moves (a := a) x
  have hvisited := Typing.visits_settle h hc (hbuilt.surveyed hx)
    (runPasses_placed h hc reportUndefined).1
  refine ⟨_, hvisited.1.surveyed (hbuilt.surveyed hx), hvisited.2, ?_⟩
  rw [runPasses_three, Typing.run_eq]
  exact Typing.finish_sameReports _

/-- If no cycle is reported, the aliases lie on no cycle. -/
theorem not_cycle_of_settled (hx : Surveyed a root x x) (hsettled : ∀ tag, a.InComment root tag →
      Settled a root x (a.typeOperand (some tag)) y) (hnone : cyclicReports y = []) (t : TypeId) :
    ¬TransGen (DependsOn x a) t t := by
  intro hcycle
  obtain ⟨u, hfirst, -⟩ := TransGen.head'_iff.1 hcycle
  obtain ⟨name, tag, hkey, htag⟩ := exists_tag_of_dependsOn hx hfirst
  obtain ⟨operand, n, hoperand, hwalk, hnames⟩ := hfirst
  have htyped : a.typeOperand (some tag) = some operand := by
    rw [aliasOperand, hkey] at hoperand
    exact hoperand
  have hbelow := hsettled tag htag operand htyped (htag.inType htyped) hnone
  exact (grounded_of_operand hoperand hbelow).not_cycle hcycle

/-- **Cycles of aliases are reported if there are any, and at no other place.** From every closed
state the machine that works out a type expression or an alias stops, and expands no alias twice.
What it has expanded has a target from then on, so it is expanded once in the whole run. After a run
over a tree of the right shape a cycle is reported if and only if the aliases of the comments have
one among them, and each report is at the name of an alias that lies on a cycle. -/
theorem run_reports_cycles (a : Arena) (root : NodeRef) (options : Options) :
    let x := runPasses a (options.reports a root) root 1
    (∀ y : Analysis, y.Closed →
      (∀ n position, Machine.Halts a (.start y (some n) position)
        (transform a (some n) position y).2) ∧
      (∀ t operand, aliasOperand y a t = some operand → y.store.types.aliasTarget? t = none →
        ∃ w, Machine.Halts a (.startAlias y t operand) w ∧ (resolveAlias a t y).2 =
          if (w.store.types.aliasTarget? t).isSome then w
          else (onTypes (fun types =>
            ((), types.setAliasTarget t (w.typeOf (some operand)))) w).2) ∧
      ∀ w t, ReflTransGen Change y w → (y.store.types.aliasTarget? t).isSome →
        (w.store.types.aliasTarget? t).isSome) ∧
    (a.Shaped root → a.Complete root →
      ((∃ d ∈ (run a root options).diagnostics, d.problem = .cyclicTypedef) ↔
        ∃ t, TransGen (fun t u => x.Documented a root t ∧ DependsOn x a t u) t t) ∧
      ∀ d ∈ (run a root options).diagnostics, d.problem = .cyclicTypedef → Circular x a d) := by
  intro x
  refine ⟨fun y hy => ⟨Machine.halts_start hy a, fun t operand => Machine.halts_startAlias hy a,
    fun w t hsteps => aliasTarget?_of_changes hsteps⟩, fun h hc => ?_⟩
  have hx : Surveyed a root x x := runPasses_surveyed h hc (options.reports a root)
  obtain ⟨y, hy, hsettled, hreports⟩ := run_settled h hc (options.reports a root)
  have hreports : cyclicReports (run a root options) = cyclicReports y := hreports
  have hcircular (d : Diagnostic) (hd : d ∈ (run a root options).diagnostics)
      (hproblem : d.problem = .cyclicTypedef) : Circular x a d :=
    hy.reports d (hreports ▸ mem_cyclicReports.2 ⟨hd, hproblem⟩)
  refine ⟨⟨?_, ?_⟩, hcircular⟩
  · rintro ⟨d, hd, hproblem⟩
    obtain ⟨n, t, -, -, hcycle⟩ := hcircular d hd hproblem
    exact ⟨t, TransGen.mono (fun t u htu => ⟨documented_of_dependsOn h hx htu, htu⟩) t t hcycle⟩
  · rintro ⟨t, hcycle⟩
    by_contra hnone
    have hnone : cyclicReports y = [] := by
      refine List.eq_nil_iff_forall_not_mem.2 fun d hd => hnone ?_
      exact ⟨d, mem_cyclicReports.1 (hreports ▸ hd)⟩
    exact not_cycle_of_settled hx hsettled hnone t (TransGen.mono (fun _ _ htu => htu.2) t t hcycle)

/-- `/** @typedef {B} */ var A; /** @typedef {A} */ var B;`. -/
def mutualTypedefs : Build NodeRef := do
  let typedef (name type : String) : Build NodeRef := do
    let operand ← Builder.simple .typeName [← Builder.identifier type]
    let document ← Builder.document [← Builder.tag "typedef" [operand]]
    Builder.annotated document (← Builder.varStatement name none)
  Builder.script [← typedef "A" "B", ← typedef "B" "A"]

/-- In this tree the machine stops from the state in which names are bound, and a cycle is
reported, so there is one. -/
theorem mutualTypedefs_cycle :
    let tree := mutualTypedefs Builder.new
    let x := runPasses tree.2.arena true tree.1 1
    (∀ n position, Machine.Halts tree.2.arena (.start x (some n) position)
        (transform tree.2.arena (some n) position x).2) ∧
      (∃ d ∈ (run tree.2.arena tree.1 {}).diagnostics,
        d.problem = .cyclicTypedef ∧ Circular x tree.2.arena d) ∧
      ∃ t, TransGen (fun t u => x.Documented tree.2.arena tree.1 t ∧
        DependsOn x tree.2.arena t u) t t := by
  intro tree x
  obtain ⟨hshaped, hcomplete, hreports⟩ : tree.2.arena.Shaped tree.1 ∧
      tree.2.arena.Complete tree.1 ∧ ({} : Options).reports tree.2.arena tree.1 = true := by
    decide +kernel
  have hclosed : x.Closed := (runPasses_steps _ _ _ _).closed
  have hreported : ∃ d ∈ (run tree.2.arena tree.1 {}).diagnostics, d.problem = .cyclicTypedef := by
    decide +kernel
  obtain ⟨hhalts, hcycles⟩ := run_reports_cycles tree.2.arena tree.1 {}
  obtain ⟨hiff, hcircular⟩ := hcycles hshaped hcomplete
  rw [hreports] at hiff hcircular
  refine ⟨(hhalts x hclosed).1, ?_, hiff.1 hreported⟩
  obtain ⟨d, hd, hproblem⟩ := hreported
  exact ⟨d, hd, hproblem, hcircular d hd hproblem⟩

/-- A class whose body is a comment, and in it `/** @typedef {T} */ var T;`. -/
def typedefInComment : Build NodeRef := do
  let operand ← Builder.simple .typeName [← Builder.identifier "T"]
  let document ← Builder.document [← Builder.tag "typedef" [operand]]
  let typedef ← Builder.annotated document (← Builder.varStatement "T" none)
  let body ← Builder.document [typedef]
  Builder.script [← Builder.simple .classDeclaration [← Builder.bindingName "C", none, body]]

/-- In this tree, which has not the right shape, there is a cycle and none is reported: names are
bound in the body of the class, but the third pass leaves out what is in comments. -/
theorem typedefInComment_unreported :
    let tree := typedefInComment Builder.new
    let x := runPasses tree.2.arena true tree.1 1
    (run tree.2.arena tree.1 {}).diagnostics = #[] ∧
      ∃ t, TransGen (fun t u => x.Documented tree.2.arena tree.1 t ∧
        DependsOn x tree.2.arena t u) t t := by
  intro tree x
  obtain ⟨hkey, hoperand, hbound⟩ : x.store.types.key? ⟨1001⟩ = some (.aliasOf ⟨37⟩ (some 2)) ∧
      aliasOperand x tree.2.arena ⟨1001⟩ = some 1 ∧
      boundType? x tree.2.arena 1 = some ⟨1001⟩ := by decide +kernel
  have hnames : Names x tree.2.arena 1 ⟨1001⟩ := ⟨by decide +kernel, hbound, _, _, hkey⟩
  have hdocumented : x.Documented tree.2.arena tree.1 ⟨1001⟩ := ⟨_, _, hkey, 7, by decide +kernel⟩
  exact ⟨by decide +kernel, ⟨1001⟩, .single ⟨hdocumented, 1, 1, hoperand, .refl, hnames⟩⟩

end Analysis

end DocTypes
