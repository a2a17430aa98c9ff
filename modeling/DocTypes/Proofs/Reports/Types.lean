import DocTypes.Proofs.Hierarchy.Passes
import DocTypes.Proofs.Reports.Mirroring

/-!
# What the passes after the first report

The second and the third pass give the same types, values and ancestors whatever problems were
found before them. They report no name that is bound nowhere, with one exception: a dotted type
name whose root is bound is followed by them alone, and so it is reported by them if it leads
nowhere (`ReportedLate`).

## Main statements

* `TypeExpr.enter_tolerates`: working out a type expression.
* `Hierarchy.build_tolerates`, `Typing.run_tolerates`: the two passes.
-/

namespace DocTypes

/-- Whether a node is a type name of several parts. -/
def Arena.isDottedTypeName (a : Arena) (n : Nat) : Bool :=
  a.isKind (some n) .typeName && a.isKind (a.child (some n) 0) .memberExpression

/-- The problem of a dotted type name that leads nowhere. -/
def Arena.dottedProblem (a : Arena) (n : Nat) : Diagnostic :=
  { problem := .undefinedType, span := a.span (some n) }

/-- What the passes after the first may report. -/
def ReportedLate (a : Arena) (d : Diagnostic) : Prop :=
  d.problem.isUndefinedName = true → ∃ n, a.isDottedTypeName n = true ∧ d = a.dottedProblem n

/-- What is found only when a parameter list is held against its comment. -/
def Problem.isOfParameterList : Problem → Bool
  | .expectedParameterTag | .undefinedParameter | .unexpectedInitializer => true
  | _ => false

/-- What working out a type expression may report. -/
def ReportedInside (a : Arena) (d : Diagnostic) : Prop :=
  d.problem.isOfParameterList = false ∧ ReportedLate a d

variable {a : Arena} {g : Redress}

theorem Redress.Keeps.inside (hg : g.Keeps (ReportedLate a)) : g.Keeps (ReportedInside a) :=
  fun problems d hd => hg problems d hd.2

namespace Analysis

theorem reportAt_tolerates (hg : g.Keeps (ReportedLate a)) {problem : Problem}
    (h : problem.isUndefinedName = false) (node : NodeRef) :
    Tolerates (redress g) (reportAt a problem node) :=
  report_tolerates hg fun hname => by
    rw [h] at hname
    cases hname

theorem reportInside_tolerates (hg : g.Keeps (ReportedInside a)) {problem : Problem}
    (h : problem.isUndefinedName = false) (hlist : problem.isOfParameterList = false)
    (node : NodeRef) : Tolerates (redress g) (reportAt a problem node) :=
  report_tolerates hg ⟨hlist, fun hname => by
    rw [h] at hname
    cases hname⟩

theorem reportRelated_tolerates (hg : g.Keeps (ReportedLate a)) {problem : Problem}
    (h : problem.isUndefinedName = false) (node related : NodeRef) :
    Tolerates (redress g) (reportRelated a problem node related) :=
  report_tolerates hg fun hname => by
    rw [h] at hname
    cases hname

/-! ## What nodes stand for -/

theorem denoteIn_redress (g : Redress) (x : Analysis) (steps : Nat) (v : ValueId) :
    (x.redress g).denoteIn steps v = x.denoteIn steps v := by
  induction steps generalizing v with
  | zero => rfl
  | succ steps ih =>
    unfold denoteIn
    simp only [ih]
    rfl

theorem denote_redress (g : Redress) (x : Analysis) (v : ValueId) :
    (x.redress g).denote v = x.denote v := denoteIn_redress g x _ v

theorem classOf?_redress (g : Redress) (x : Analysis) (v : ValueId) :
    (x.redress g).classOf? v = x.classOf? v := by
  unfold classOf?
  rw [denote_redress]
  rfl

theorem resolvePath_redress (g : Redress) (x : Analysis) (a : Arena) (r : NodeRef) :
    (x.redress g).resolvePath a r = x.resolvePath a r := by
  fun_induction resolvePath x a r with
  | case1 => rw [resolvePath]
  | case2 n hkind ih =>
    rw [resolvePath, hkind]
    simp only [ih, denote_redress]
    rfl
  | case3 n hkind =>
    rw [resolvePath, hkind]
    rfl
  | case4 n hmember hidentifier =>
    rw [resolvePath]
    split
    · exact absurd ‹_› hmember
    · exact absurd ‹_› hidentifier
    · rfl

end Analysis

namespace TypeExpr

open Analysis

theorem union2_tolerates (t u : TypeId) : Tolerates (redress g) (union2 t u) := onTypes_tolerates _

theorem childType_tolerates (r : NodeRef) (i : Nat) : Tolerates (redress g) (childType a r i) :=
  fun _ => rfl

theorem childTypes_tolerates (n skip : Nat) : Tolerates (redress g) (childTypes a n skip) :=
  fun _ => rfl

/-! ## Names -/

theorem defaultTarget_tolerates (t : TypeId) (tag : NodeRef) :
    Tolerates (redress g) (defaultTarget a t tag) :=
  .bind (onTypes_tolerates _) fun _ => .pure _

theorem named_tolerates (t : TypeId) : Tolerates (redress g) (named a t) := by
  refine .get_bind (fun _ => rfl) fun x => ?_
  dsimp only
  split
  · exact .bind (union2_tolerates _ _) fun _ => .pure _
  · exact .bind (union2_tolerates _ _) fun _ => .pure _
  · split
    · exact .pure _
    · split
      · exact .pure _
      · exact .bind (defaultTarget_tolerates _ _) fun _ => .pure _
  · exact .pure _

/-- A type name that leads nowhere is reported late only if it is dotted. -/
theorem typeName_tolerates (hg : g.Keeps (ReportedInside a)) {n : Nat}
    (hn : a.kind? (some n) = some .typeName) : Tolerates (redress g) (typeName a n) := by
  refine .get_bind (fun x => ?_) fun x => ?_
  · simp only [resolvePath_redress, denote_redress]
    rfl
  · dsimp only
    split
    · split
      · exact named_tolerates _
      · exact .pure _
    · next hkind =>
      split
      · split
        · exact named_tolerates _
        · have hlast (t : TypeId) : Tolerates (redress g) (do
              return Meaning.type (← union2 t .null) : Analyze Meaning) :=
            .bind (union2_tolerates _ _) fun _ => .pure _
          split
          · exact .bind (onStore_tolerates _) hlast
          · exact .bind (onTypes_tolerates _) hlast
      · have hdotted : ReportedInside a { problem := .undefinedType, span := a.span (some n) } :=
          ⟨rfl, fun _ => ⟨n, by simp [Arena.isDottedTypeName, hn, Arena.isKind, hkind], rfl⟩⟩
        refine .ite (fun _ => ?_) fun _ => .pure _
        exact .bind (report_tolerates hg hdotted) fun _ => .pure _
    · exact .pure _

theorem appliedClass?_redress (x : Analysis) (name : NodeRef) :
    appliedClass? (x.redress g) a name = appliedClass? x a name := by
  unfold appliedClass?
  simp only [resolvePath_redress, denote_redress]
  rfl

theorem application_tolerates (hg : g.Keeps (ReportedInside a)) (n : Nat) :
    Tolerates (redress g) (application a n) := by
  refine .get_bind (fun x => ?_) fun x => ?_
  · simp only [appliedClass?_redress]
    rfl
  · dsimp only
    split
    · exact .pure _
    · exact .bind (reportInside_tolerates hg rfl rfl _) fun _ => .pure _
    · refine .bind (childTypes_tolerates _ _) fun arguments =>
        .bind (onTypes_tolerates _) fun raw => ?_
      refine .ite (fun _ => .bind (reportInside_tolerates hg rfl rfl _) fun _ =>
        union2_tolerates _ _) fun _ => ?_
      refine .ite (fun _ => .bind (reportInside_tolerates hg rfl rfl _) fun _ =>
        union2_tolerates _ _) fun _ => ?_
      refine .bind (onTypes_tolerates _) fun _ => .bind (onValues_tolerates _) fun _ => ?_
      exact .bind (onTypes_tolerates _) fun _ => union2_tolerates _ _

/-! ## Composite types -/

theorem nonNullable_tolerates (hg : g.Keeps (ReportedInside a)) (n : Nat) :
    Tolerates (redress g) (nonNullable a n) := by
  refine .bind (childType_tolerates _ _) fun inner => .get_bind (fun _ => rfl) fun x => ?_
  refine .ite (fun _ => onTypes_tolerates _) fun _ => .ite (fun _ => ?_) fun _ => .pure _
  exact .bind (reportInside_tolerates hg rfl rfl _) fun _ => .pure _

theorem fields_tolerates (hg : g.Keeps (ReportedInside a)) (read : List (Atom × TypeId))
    (reported : List Atom) (members : List NodeRef) :
    Tolerates (redress g) (fields a read reported members) := by
  induction members generalizing read reported with
  | nil => exact .pure _
  | cons member rest ih =>
    refine .ite (fun _ => .ite (fun _ => ih _ _) fun _ => ?_) fun _ => ?_
    · exact .bind (reportInside_tolerates hg rfl rfl _) fun _ => ih _ _
    · exact .get_bind (fun _ => rfl) fun _ => ih _ _

/-- A parameter in the wrong place is no name that is bound nowhere, and a function type has such
parameters too. -/
theorem isUndefinedName_of_problem? {reached kind : ParameterKind} {problem : Problem}
    (h : ArityCount.problem? reached kind = some problem) :
    problem.isUndefinedName = false ∧ problem.isOfParameterList = false := by
  cases reached <;> cases kind <;> cases h <;> exact ⟨rfl, rfl⟩

theorem pushParameter_tolerates (hg : g.Keeps (ReportedInside a)) (s : Signature)
    (param : NodeRef) :
    Tolerates (redress g) (pushParameter a s param) := by
  unfold pushParameter
  split
  · exact .bind (childType_tolerates _ _) fun _ => .pure _
  · exact .bind (childType_tolerates _ _) fun _ => .pure _
  · have hlast (count : ArityCount) : Tolerates (redress g) (do
        return { s with parameters := s.parameters ++ [(← get).typeOf param], count } :
          Analyze Signature) := .get_bind (fun _ => rfl) fun _ => .pure _
    dsimp only
    split
    · next problem hproblem =>
      obtain ⟨hname, hlist⟩ := isUndefinedName_of_problem? hproblem
      exact .bind (reportInside_tolerates hg hname hlist _) fun _ => hlast _
    · exact hlast _

theorem function_tolerates (hg : g.Keeps (ReportedInside a)) (n : Nat) :
    Tolerates (redress g) (function a n) := by
  refine .bind (.foldlM (fun s param _ => pushParameter_tolerates hg s param) _) fun signature => ?_
  exact .get_bind (fun _ => rfl) fun x => .bind (onTypes_tolerates _) fun _ => onTypes_tolerates _

theorem meaning_tolerates (hg : g.Keeps (ReportedInside a)) (n : Nat) (position : Position) :
    Tolerates (redress g) (meaning a n position) := by
  have htype {m : Analyze TypeId} (h : Tolerates (redress g) m) :
      Tolerates (redress g) (do return Meaning.type (← m)) := .bind h fun _ => .pure _
  unfold meaning
  split
  · exact .pure _
  · exact .pure _
  · exact .pure _
  · next hkind => exact typeName_tolerates hg hkind
  · exact htype (application_tolerates hg n)
  · exact .bind (childType_tolerates _ _) fun _ => htype (union2_tolerates _ _)
  · exact htype (nonNullable_tolerates hg n)
  · refine .bind (childType_tolerates _ _) fun inner => ?_
    cases position with
    | parameter => exact htype (union2_tolerates _ _)
    | plain => exact .bind (reportInside_tolerates hg rfl rfl _) fun _ => .pure _
  · have hlast := htype (childType_tolerates (g := g) (a := a) (some n) 0)
    exact .ite (fun _ => .bind (reportInside_tolerates hg rfl rfl _) fun _ => hlast) fun _ => hlast
  · exact .bind (childTypes_tolerates _ _) fun _ => htype (onTypes_tolerates _)
  · exact .bind (childTypes_tolerates _ _) fun _ => htype (onTypes_tolerates _)
  · exact .get_bind (fun _ => rfl) fun _ => htype (onTypes_tolerates _)
  · exact .bind (fields_tolerates hg _ _ _) fun _ => htype (onTypes_tolerates _)
  · exact htype (function_tolerates hg n)
  · exact htype (childType_tolerates _ _)
  · exact htype (childType_tolerates _ _)
  · exact .pure _

/-! ## Type expressions -/

/-- Working out a type expression does not depend on what was reported before. -/
theorem enter_tolerates (hg : g.Keeps (ReportedInside a)) (expandable : List TypeId) (r : NodeRef)
    (position : Position) : Tolerates (redress g) (enter a expandable r position) := by
  fun_induction enter a expandable r position with
  | case1 => exact .pure _
  | case2 expandable position n ihOperand ihExpansion =>
    refine .get_bind (fun _ => rfl) fun x => .ite (fun _ => .pure _) fun _ => ?_
    refine .bind (.forM fun operand _ => ihOperand operand.1.1 operand.1.2 operand.2) fun _ => ?_
    refine .bind (meaning_tolerates hg n position) fun m => ?_
    cases m with
    | nothing => exact .pure _
    | type t => exact setType_tolerates _ _
    | expansion t operand =>
      by_cases ht : t ∈ expandable
      · simp only [dif_pos ht]
        refine .bind (ihExpansion t operand ht) fun _ => .get_bind (fun _ => rfl) fun _ => ?_
        exact .bind (onTypes_tolerates _) fun _ => setType_tolerates _ _
      · simp only [dif_neg ht]
        exact .bind (reportInside_tolerates hg rfl rfl _) fun _ => setType_tolerates _ _

theorem transform_tolerates (hg : g.Keeps (ReportedInside a)) (r : NodeRef) (position : Position) :
    Tolerates (redress g) (transform a r position) := by
  refine .ite (fun _ => .pure _) fun _ => .get_bind (fun _ => rfl) fun _ => ?_
  exact .bind (enter_tolerates hg _ _ _) fun _ => .get_bind (fun _ => rfl) fun _ => .pure _

theorem resolveAlias_tolerates (hg : g.Keeps (ReportedInside a)) (t : TypeId) :
    Tolerates (redress g) (resolveAlias a t) := by
  refine .get_bind (fun _ => rfl) fun x => ?_
  dsimp only
  split
  · exact .pure _
  · split
    · split
      · exact defaultTarget_tolerates _ _
      · refine .bind (enter_tolerates hg _ _ _) fun _ => .get_bind (fun _ => rfl) fun y => ?_
        split
        · exact .pure _
        · exact .bind (onTypes_tolerates _) fun _ => .pure _
    · exact .pure _

end TypeExpr

/-! ## The class hierarchy -/

namespace Hierarchy

open Analysis

theorem heritageOfType_tolerates (t : TypeId) : Tolerates (redress g) (heritageOfType t) := by
  refine .ite (fun _ => .pure _) fun _ => .bind (onTypes_tolerates _) fun t => ?_
  refine .get_bind (fun _ => rfl) fun x => ?_
  split <;> exact .pure _

theorem heritage_tolerates (hg : g.Keeps (ReportedLate a)) (node : NodeRef) :
    Tolerates (redress g) (heritage a node) := by
  unfold heritage
  split
  · exact .pure _
  · refine .ite (fun _ => ?_) fun _ => .get_bind (fun x => ?_) fun x => ?_
    · exact .bind (TypeExpr.transform_tolerates hg.inside _ _) fun t => heritageOfType_tolerates t
    · simp only [classOf?_redress]
      rfl
    · split
      · split <;> exact .pure _
      · split <;> exact .pure _
      · exact .pure _

theorem resolveBase_tolerates (hg : g.Keeps (ReportedLate a)) (cls : ValueId) (base : BaseRef) :
    Tolerates (redress g) (resolveBase a cls base) := by
  have hsort (interface : Bool) : (sortProblem interface).isUndefinedName = false := by
    cases interface <;> rfl
  refine .get_bind (fun _ => rfl) fun x => .bind (heritage_tolerates hg _) fun found => ?_
  cases found with
  | unresolved => exact .bind (reportAt_tolerates hg rfl _) fun _ => .pure _
  | other => exact .bind (reportAt_tolerates hg (hsort _) _) fun _ => .pure _
  | cls v =>
    refine .get_bind (fun _ => rfl) fun y => .ite (fun _ => .pure _) fun _ => ?_
    exact .bind (reportAt_tolerates hg (hsort _) _) fun _ => .pure _

theorem pushBase_tolerates (hg : g.Keeps (ReportedLate a)) (cls : ValueId) (r : Resolved)
    (base : BaseRef) : Tolerates (redress g) (pushBase a cls r base) := by
  refine .bind (resolveBase_tolerates hg cls base) fun found => ?_
  cases found <;> exact .pure _

theorem resolveBases_tolerates (hg : g.Keeps (ReportedLate a)) (decls : List ClassDecl) :
    Tolerates (redress g) (resolveBases a decls) := by
  induction decls with
  | nil => exact .pure _
  | cons decl rest ih =>
    refine .bind (.foldlM (fun r base _ => pushBase_tolerates hg decl.cls r base) _)
      fun resolved => ?_
    exact .bind (onValues_tolerates _) fun _ => .bind ih fun _ => .pure _

theorem reportCycles_tolerates (hg : g.Keeps (ReportedLate a)) (decls : List ClassDecl) :
    Tolerates (redress g) (reportCycles a decls) :=
  .get_bind (fun _ => rfl) fun _ => .forM fun _ _ => reportRelated_tolerates hg rfl _ _

/-- Building the class hierarchy does not depend on what was reported before. -/
theorem build_tolerates (hg : g.Keeps (ReportedLate a)) : Tolerates (redress g) (build a) := by
  refine .get_bind (fun _ => rfl) fun x => .bind (resolveBases_tolerates hg _) fun blocked => ?_
  refine .get_bind (fun _ => rfl) fun y => .bind (.forM fun _ _ => onStore_tolerates _) fun _ => ?_
  exact .bind (reportCycles_tolerates hg _) fun _ => onStore_tolerates _

end Hierarchy

/-! ## Signatures -/

namespace Signature

open Analysis

theorem countKind_tolerates (hg : g.Keeps (ReportedLate a)) (s : Parameters) (kind : ParameterKind)
    (node : NodeRef) : Tolerates (redress g) (s.countKind a kind node) := by
  unfold Parameters.countKind
  dsimp only
  split
  · next problem hproblem =>
    have hname := (TypeExpr.isUndefinedName_of_problem? hproblem).1
    exact .bind (reportAt_tolerates hg hname _) fun _ => .pure _
  · exact .bind (.pure _) fun _ => .pure _

theorem pushTag_tolerates (hg : g.Keeps (ReportedLate a)) (s : Parameters) (tag : Nat) :
    Tolerates (redress g) (pushTag a s tag) :=
  .bind (countKind_tolerates hg s _ _) fun _ =>
    .bind (TypeExpr.transform_tolerates hg.inside _ _) fun _ => .pure _

theorem taggedType_tolerates (hg : g.Keeps (ReportedLate a)) (e : Entry) (tag : Nat) :
    Tolerates (redress g) (taggedType a e tag) := by
  have hrest : Tolerates (redress g) (do
      let type ← TypeExpr.transform a (a.typeOperand (some tag)) .parameter
      if e.hasDefault && ParameterKind.ofTypeKind (a.kind? (a.typeOperand (some tag))) =
        .required then
        return (ParameterKind.ofTypeKind (a.kind? (a.typeOperand (some tag))),
          ← TypeExpr.union2 type .void)
      else return (ParameterKind.ofTypeKind (a.kind? (a.typeOperand (some tag))), type)) :=
    .bind (TypeExpr.transform_tolerates hg.inside _ _) fun _ => .ite
      (fun _ => .bind (TypeExpr.union2_tolerates _ _) fun _ => .pure _) fun _ => .pure _
  exact .ite (fun _ => .bind (reportAt_tolerates hg rfl _) fun _ => hrest) fun _ => hrest

theorem untaggedType_tolerates (hg : g.Keeps (ReportedLate a))
    (doc : Option DocComment) (e : Entry) :
    Tolerates (redress g) (untaggedType a doc e) :=
  .ite (fun _ => .bind (reportAt_tolerates hg rfl _) fun _ => .pure _) fun _ => .pure _

theorem pushEntry_tolerates (hg : g.Keeps (ReportedLate a)) (doc : Option DocComment)
    (s : Parameters) (e : Entry) : Tolerates (redress g) (pushEntry a doc s e) := by
  unfold pushEntry
  split
  · exact .bind (taggedType_tolerates hg e _) fun _ =>
      .bind (countKind_tolerates hg s _ _) fun _ => .pure _
  · exact .bind (untaggedType_tolerates hg doc e) fun _ =>
      .bind (countKind_tolerates hg s _ _) fun _ => .pure _

theorem ofList_tolerates (hg : g.Keeps (ReportedLate a)) (doc : Option DocComment)
    (function : NodeRef) : Tolerates (redress g) (ofList a doc function) := by
  refine .bind (.foldlM (fun s e _ => pushEntry_tolerates hg doc s e) _) fun parameters => ?_
  split
  · exact .bind (.forM fun _ _ => reportAt_tolerates hg rfl _) fun _ => .pure _
  · exact .pure _

theorem parameters_tolerates (hg : g.Keeps (ReportedLate a)) (doc : Option DocComment)
    (function : NodeRef) : Tolerates (redress g) (parameters a doc function) := by
  unfold parameters
  split
  · exact .foldlM (fun s tag _ => pushTag_tolerates hg s tag) _
  · exact ofList_tolerates hg _ _

theorem instanceTypeOf_tolerates (cls : Option ValueId) :
    Tolerates (redress g) (instanceTypeOf cls) := by
  cases cls with
  | none => exact .pure _
  | some v => exact onTypes_tolerates _

theorem receiverType_tolerates (hg : g.Keeps (ReportedLate a)) (doc : Option DocComment)
    (d : Declaration) : Tolerates (redress g) (receiverType a doc d) := by
  unfold receiverType
  split
  · exact .bind (TypeExpr.transform_tolerates hg.inside _ _) fun _ => onTypes_tolerates _
  · exact .pure _

theorem returnType_tolerates (hg : g.Keeps (ReportedLate a)) (doc : Option DocComment) :
    Tolerates (redress g) (returnType a doc) := by
  unfold returnType
  split
  · exact TypeExpr.transform_tolerates hg.inside _ _
  · exact .pure _

theorem functionType_tolerates (hg : g.Keeps (ReportedLate a)) (doc : Option DocComment)
    (d : Declaration) (kind : FunctionKind) :
    Tolerates (redress g) (functionType a doc d kind) := by
  have hrest (thisType : TypeId) : Tolerates (redress g) (do
      let parameters ← parameters a doc d.function
      let returnType ← returnType a doc
      let typeParameters := typeParameters (← get) doc
      let types ← Analysis.onTypes (·.internList parameters.types)
      let typeParameters ← Analysis.onTypes (·.internList typeParameters)
      Analysis.onTypes (·.function
        { kind, parameters := types, arity := parameters.count.arity, thisType, returnType
          typeParameters })) := by
    refine .bind (parameters_tolerates hg doc _) fun _ =>
      .bind (returnType_tolerates hg doc) fun _ => ?_
    refine .get_bind (fun _ => rfl) fun _ => .bind (onTypes_tolerates _) fun _ => ?_
    exact .bind (onTypes_tolerates _) fun _ => onTypes_tolerates _
  unfold functionType
  cases kind with
  | constructor => exact .bind (instanceTypeOf_tolerates _) hrest
  | normal => exact .bind (receiverType_tolerates hg doc d) hrest

theorem aliasType_tolerates (hg : g.Keeps (ReportedLate a)) (doc : DocComment) (slot : TagSlot)
    (name : Atom) : Tolerates (redress g) (aliasType a doc slot name) :=
  .bind (onTypes_tolerates _) fun _ =>
    .bind (TypeExpr.resolveAlias_tolerates hg.inside _) fun _ => .pure _

theorem declaredType_tolerates (hg : g.Keeps (ReportedLate a)) (doc : DocComment)
    (d : Declaration) :
    Tolerates (redress g) (declaredType a doc d) := by
  unfold declaredType
  split
  · exact functionType_tolerates hg _ d _
  · exact instanceTypeOf_tolerates _
  · exact functionType_tolerates hg _ d _
  · exact TypeExpr.transform_tolerates hg.inside _ _
  · exact TypeExpr.transform_tolerates hg.inside _ _
  · exact aliasType_tolerates hg doc _ _
  · exact aliasType_tolerates hg doc _ _
  · exact .pure _
  · exact .ite (fun _ => functionType_tolerates hg _ d _) fun _ => .pure _

end Signature

/-! ## Types of nodes -/

namespace Typing

open Analysis

theorem receiverType?_tolerates (function : NodeRef) :
    Tolerates (redress g) (receiverType? a function) := by
  refine .get_bind (fun x => ?_) fun x => ?_
  · have hcls : (x.redress g).receiverClass? a function = x.receiverClass? a function := by
      have hclassOf : (x.redress g).classOf? = x.classOf? := funext (classOf?_redress g x)
      unfold receiverClass?
      rw [hclassOf]
      rfl
    rw [hcls]
  · split
    · exact .bind (onStore_tolerates _) fun _ => .pure _
    · exact .pure _

theorem declaredClass?_redress (x : Analysis) (target : NodeRef) :
    (x.redress g).declaredClass? a target = x.declaredClass? a target := by
  have hclassAt (r : NodeRef) : (x.redress g).classAt? r = x.classAt? r := rfl
  fun_induction declaredClass? x a target with
  | case1 r cls hcls | case2 hcls => rw [declaredClass?.eq_def, hclassAt, hcls]
  | case3 n hkind hcls ih | case4 n hkind hcls ih | case5 n hkind hcls ih | case6 n hkind hcls ih
  | case7 n hkind hcls ih =>
    rw [declaredClass?.eq_def, hclassAt, hcls]
    simp only [hkind, ih]
  | case8 n hstatement hvar hdeclaration hassignment hproperty hcls =>
    rw [declaredClass?.eq_def, hclassAt, hcls]
    dsimp only
    split <;> first | rfl | contradiction

theorem register_tolerates (site : NodeRef) (t : TypeId) :
    Tolerates (redress g) (register site t) := by
  refine .bind (setType_tolerates _ _) fun _ => .get_bind (fun _ => rfl) fun x => ?_
  split
  · exact declareType_tolerates _ _
  · exact .pure _

theorem registerIfNew_tolerates (site : NodeRef) (t : TypeId) :
    Tolerates (redress g) (registerIfNew site t) := by
  refine .bind (setTypeIfNew_tolerates _ _) fun _ => .get_bind (fun _ => rfl) fun x => ?_
  split
  · exact .ite (fun _ => declareType_tolerates _ _) fun _ => .pure _
  · exact .pure _

theorem function_tolerates (hg : g.Keeps (ReportedLate a)) (node : NodeRef) :
    Tolerates (redress g) (function a node) := by
  refine .get_bind (fun _ => rfl) fun x => .ite (fun _ => .pure _) fun _ => ?_
  refine .bind (receiverType?_tolerates node) fun _ => ?_
  refine .bind (Signature.functionType_tolerates hg _ _ _) fun _ => ?_
  refine .bind (setType_tolerates _ _) fun _ => ?_
  exact .ite (fun _ => registerIfNew_tolerates _ _) fun _ => .pure _

theorem classType_tolerates (hg : g.Keeps (ReportedLate a)) (node : NodeRef) (cls : ValueId)
    (doc : Option DocComment) : Tolerates (redress g) (classType a node cls doc) := by
  refine .ite (fun _ => onTypes_tolerates _) fun _ => ?_
  generalize a.constructorMethod node = method
  obtain ⟨function, document⟩ := method
  refine .bind (Signature.functionType_tolerates hg _ _ _) fun _ => ?_
  exact .ite (fun _ => .bind (setType_tolerates _ _) fun _ => .pure _) fun _ => .pure _

theorem classBody_tolerates (hg : g.Keeps (ReportedLate a)) (node : NodeRef)
    (doc : Option DocComment) : Tolerates (redress g) (classBody a node doc) := by
  refine .get_bind (fun _ => rfl) fun x => ?_
  split
  · exact .pure _
  · exact .pure _
  · refine .bind (classType_tolerates hg node _ doc) fun _ =>
      .bind (setType_tolerates _ _) fun _ => ?_
    exact .ite (fun _ => .bind (register_tolerates _ _) fun _ => .pure _) fun _ => .pure _

theorem enumMembers_tolerates (site : NodeRef) (t : TypeId) :
    Tolerates (redress g) (enumMembers a site t) :=
  .get_bind (fun _ => rfl) fun _ => .forM fun _ _ => register_tolerates _ _

theorem aliasSites_tolerates (hg : g.Keeps (ReportedLate a)) (doc : DocComment) (d : Declaration)
    (sites : List Nat) : Tolerates (redress g) (aliasSites a doc d sites) := by
  induction sites with
  | nil => exact .pure _
  | cons site rest ih =>
    refine .bind (Signature.declaredType_tolerates hg doc _) fun _ => ?_
    refine .bind (setType_tolerates _ _) fun _ => ?_
    exact .ite (fun _ => .bind (enumMembers_tolerates _ _) fun _ => ih) fun _ => ih

theorem plainSites_tolerates (hg : g.Keeps (ReportedLate a)) (doc : DocComment) (d : Declaration)
    (sites : List Nat) : Tolerates (redress g) (plainSites a doc d sites) := by
  have hsites (t : TypeId) : Tolerates (redress g) (do
      sites.forM fun site => register (some site) t
      if sites.isEmpty && doc.kind = .type then
        Analysis.setType (a.castExpression doc.target) t : Analyze Unit) :=
    .bind (.forM fun _ _ => register_tolerates _ _) fun _ =>
      .ite (fun _ => setType_tolerates _ _) fun _ => .pure _
  refine .bind (Signature.declaredType_tolerates hg doc _) fun t => ?_
  refine .ite (fun _ => .bind (setType_tolerates _ _) fun _ => ?_) fun _ => ?_
  all_goals
    refine .get_bind (fun _ => rfl) fun _ => ?_
    dsimp only
    split
    · exact .bind (setType_tolerates _ _) fun _ => hsites t
    · exact hsites t

theorem declaration_tolerates (hg : g.Keeps (ReportedLate a)) (doc : DocComment)
    (function : NodeRef) (sites : List Nat) :
    Tolerates (redress g) (declaration a doc function sites) := by
  refine .get_bind (fun x => ?_) fun x => ?_
  · simp only [declaredClass?_redress]
  · refine .ite (fun _ => .bind (receiverType?_tolerates function) fun _ => ?_)
      fun _ => .bind (.pure _) fun _ => ?_
    all_goals
      split
      · exact aliasSites_tolerates hg doc _ sites
      · exact aliasSites_tolerates hg doc _ sites
      · exact plainSites_tolerates hg doc _ sites

theorem remainingOperands_tolerates (hg : g.Keeps (ReportedLate a)) (document : NodeRef) :
    Tolerates (redress g) (remainingOperands a document) := by
  refine .forM fun tag _ => .get_bind (fun _ => rfl) fun x => .ite (fun _ => ?_) fun _ => .pure _
  exact .bind (TypeExpr.transform_tolerates hg.inside _ _) fun _ => .pure _

theorem annotated_tolerates (hg : g.Keeps (ReportedLate a)) (node : NodeRef) :
    Tolerates (redress g) (annotated a node) := by
  have hlast := remainingOperands_tolerates hg (a.child node 0)
  refine .get_bind (fun _ => rfl) fun x => ?_
  dsimp only
  split
  · split
    · refine .bind (classBody_tolerates hg _ _) fun _ => ?_
      exact .bind (.forM fun _ _ => register_tolerates _ _) fun _ => hlast
    · exact .bind (declaration_tolerates hg _ _ _) fun _ => hlast
  · exact hlast

theorem visit_tolerates (hg : g.Keeps (ReportedLate a)) (n : Nat) :
    Tolerates (redress g) (visit a n) := by
  unfold visit
  split
  · exact .pure _
  · exact annotated_tolerates hg _
  · exact .bind (classBody_tolerates hg _ _) fun _ => .pure _
  · exact .bind (classBody_tolerates hg _ _) fun _ => .pure _
  · exact .get_bind (fun _ => rfl) fun x =>
      .ite (fun _ => setTypeIfNew_tolerates _ _) fun _ => .pure _
  · refine .ite (fun _ => function_tolerates hg _) fun _ => ?_
    split
    · exact setTypeIfNew_tolerates _ _
    · exact .pure _

theorem propagate_tolerates (v : ValueId) : Tolerates (redress g) (propagate v) := by
  refine .get_bind (fun _ => rfl) fun x => ?_
  split
  · exact .forM fun _ _ => setTypeIfNew_tolerates _ _
  · exact .pure _

/-- Giving types to nodes does not depend on what was reported before. -/
theorem run_tolerates (hg : g.Keeps (ReportedLate a)) (root : NodeRef) :
    Tolerates (redress g) (run a root) := by
  refine .bind (.forM fun n _ => visit_tolerates hg n) fun _ => .get_bind (fun _ => rfl) fun x => ?_
  exact .bind (.forM fun v _ => propagate_tolerates v) fun _ => onStore_tolerates _

end Typing

end DocTypes
