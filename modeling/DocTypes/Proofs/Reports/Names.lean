import DocTypes.Binding.Visit
import DocTypes.Proofs.Comment.Accounting
import DocTypes.Proofs.Handles.Names
import DocTypes.Proofs.Reports.Types

/-!
# What the first pass reports

Only the references that are left over when the outermost scope closes are reported as bound
nowhere, and only if they are to be reported. So a change of the problems that drops these
reports, and keeps all others, mirrors the pass that reports them in the pass that does not.

## Main statements

* `DocComment.compile_redress`: a comment is compiled the same way whatever was reported before.
* `Binder.visit_tolerates`: so is a node visited.
* `Binder.run_mirrors`: the pass that reports undefined names, and the one that does not.
-/

namespace DocTypes

/-- Whether a problem is something else than a name that is bound nowhere. -/
def Diagnostic.isOrdinary (d : Diagnostic) : Bool := !d.problem.isUndefinedName

/-- Reporting one of these problems makes no difference after the change. -/
def Redress.Drops (g : Redress) (reported : Diagnostic → Prop) : Prop :=
  ∀ problems d, reported d → g (problems.push d) = g problems

variable {a : Arena} {g : Redress}

/-! ## Comments -/

/-- Reporting such problems comes to the same before and after the change. -/
theorem Sink.map_reportAll {reported : Diagnostic → Prop} (hg : g.Keeps reported)
    {ds : List Diagnostic} (hds : ∀ d ∈ ds, reported d) (sink : Sink) :
    Sink.reportAll (sink.map g) ds = (sink.reportAll ds).map g := by
  cases sink with
  | none => rfl
  | some problems =>
    refine congrArg some ?_
    induction ds generalizing problems with
    | nil => simp
    | cons d ds ih =>
      have hrest := ih (fun d' hd' => hds d' (List.mem_cons_of_mem d hd')) (problems.push d)
      rw [hg problems d (hds d List.mem_cons_self)] at hrest
      simpa using hrest

/-- The problems of comments are not about names that are bound nowhere. -/
theorem isOrdinary_of_category {d : Diagnostic} (h : d.problem.category = .jsDoc) :
    d.isOrdinary = true := by
  unfold Diagnostic.isOrdinary
  cases hproblem : d.problem <;> rw [hproblem] at h <;> first | rfl | cases h

namespace DocComment

/-- A comment and a sink, with the problems in the sink changed. -/
def carry (g : Redress) (state : DocComment × Sink) : DocComment × Sink := (state.1, state.2.map g)

/-- A comment is compiled the same way whatever was reported before. -/
theorem compile_redress (hg : g.Keeps (·.isOrdinary = true)) (document target : NodeRef)
    (sink : Sink) :
    compile a document target (sink.map g) = carry g (compile a document target sink) := by
  rw [compile_eq, compile_eq,
    Sink.map_reportAll hg fun d hd => isOrdinary_of_category (mem_problems a hd)]
  rfl

end DocComment

/-! ## Steps of the walk -/

namespace Binder

open Analysis (redress)

/-- The walk with its problems changed. -/
def redress (g : Redress) (b : Binder) : Binder := { b with analysis := b.analysis.redress g }

theorem onAnalysis_tolerates {α : Type} {step : Analyze α}
    (h : Tolerates (Analysis.redress g) step) :
    Tolerates (redress g) (Bind.onAnalysis step) := by
  intro b
  show ((step (b.analysis.redress g)).1,
    { b.redress g with analysis := (step (b.analysis.redress g)).2 }) = _
  rw [h b.analysis]
  rfl

theorem onTypes_tolerates {α : Type} (f : TypeStore → α × TypeStore) :
    Tolerates (redress g) (Bind.onAnalysis (Analysis.onTypes f)) := fun _ => rfl

theorem onValues_tolerates {α : Type} (f : ValueStore → α × ValueStore) :
    Tolerates (redress g) (Bind.onAnalysis (Analysis.onValues f)) := fun _ => rfl

theorem modifyValues_tolerates (f : ValueStore → ValueStore) :
    Tolerates (redress g) (Bind.onAnalysis (Analysis.modifyValues f)) := fun _ => rfl

theorem setValue_tolerates (r : NodeRef) (v : ValueId) :
    Tolerates (redress g) (Bind.onAnalysis (Analysis.setValue r v)) := fun _ => rfl

theorem setType_tolerates (r : NodeRef) (t : TypeId) :
    Tolerates (redress g) (Bind.onAnalysis (Analysis.setType r t)) := fun _ => rfl

theorem nameType_tolerates (v : ValueId) (t : TypeId) :
    Tolerates (redress g) (Bind.onAnalysis (Analysis.nameType v t)) := fun _ => rfl

theorem reportAt_tolerates (hg : g.Keeps (·.isOrdinary = true)) {problem : Problem}
    (h : problem.isUndefinedName = false) (node : NodeRef) :
    Tolerates (redress g) (Bind.onAnalysis (Analysis.reportAt a problem node)) :=
  onAnalysis_tolerates (Analysis.report_tolerates hg (by simp [Diagnostic.isOrdinary, h]))

theorem reportRelated_tolerates (hg : g.Keeps (·.isOrdinary = true)) {problem : Problem}
    (h : problem.isUndefinedName = false) (node related : NodeRef) :
    Tolerates (redress g) (Bind.onAnalysis (Analysis.reportRelated a problem node related)) :=
  onAnalysis_tolerates (Analysis.report_tolerates hg (by simp [Diagnostic.isOrdinary, h]))

theorem updateScope_tolerates (id : ScopeId) (f : Scope → Scope) :
    Tolerates (redress g) (updateScope id f) := fun _ => rfl

theorem enterScope_tolerates (kind : ScopeKind) (node : NodeRef) :
    Tolerates (redress g) (enterScope kind node) := fun _ => rfl

theorem functionScope_tolerates : Tolerates (redress g) functionScope := fun _ => rfl

theorem lexicalScope_tolerates : Tolerates (redress g) lexicalScope := fun _ => rfl

theorem declarationScope_tolerates (statement : NodeRef) :
    Tolerates (redress g) (declarationScope a statement) :=
  .ite (fun _ => lexicalScope_tolerates) fun _ => functionScope_tolerates

theorem reserveAll_tolerates (id : ScopeId) (names : List (Namespace × Atom)) :
    Tolerates (redress g) (reserveAll id names) := .forM fun _ _ => updateScope_tolerates _ _

/-! ### Declarations -/

theorem declareVariable_tolerates (hg : g.Keeps (·.isOrdinary = true)) (id : ScopeId)
    (binding : NodeRef) :
    Tolerates (redress g) (declareVariable a id binding) := by
  refine .get_bind (fun _ => rfl) fun b => ?_
  split
  · refine .bind (reportRelated_tolerates hg rfl _ _) fun _ => ?_
    exact .bind (setValue_tolerates _ _) fun _ => .pure _
  · refine .bind (onValues_tolerates _) fun _ => .bind (updateScope_tolerates _ _) fun _ => ?_
    exact .bind (setValue_tolerates _ _) fun _ => .pure _

theorem declareType_tolerates (hg : g.Keeps (·.isOrdinary = true)) (id : ScopeId)
    (nameNode : NodeRef)
    (t : TypeId) : Tolerates (redress g) (declareType a id nameNode t) := by
  refine .get_bind (fun _ => rfl) fun b => ?_
  split
  · exact reportRelated_tolerates hg rfl _ _
  · exact updateScope_tolerates _ _

theorem hoist_tolerates (hg : g.Keeps (·.isOrdinary = true)) (id : ScopeId) (h : Hoisted) :
    Tolerates (redress g) (hoist a id h) := by
  cases h with
  | variableName binding => exact (declareVariable_tolerates hg id _).discard
  | functionName function binding =>
    exact .bind (declareVariable_tolerates hg id _) fun _ => modifyValues_tolerates _
  | typeName name => exact updateScope_tolerates _ _

theorem openBody_tolerates (hg : g.Keeps (·.isOrdinary = true)) (id : ScopeId)
    (statements : List NodeRef) :
    Tolerates (redress g) (openBody a id statements) :=
  .bind (.forM fun h _ => hoist_tolerates hg id h) fun _ => reserveAll_tolerates _ _

theorem declareClass_tolerates (site : NodeRef) (name : String) (doc : Option DocComment)
    (heritage reportNode : NodeRef) :
    Tolerates (redress g) (declareClass a site name doc heritage reportNode) := fun _ => rfl

theorem instanceOf_tolerates (cls : ValueId) : Tolerates (redress g) (instanceOf cls) :=
  fun _ => rfl

theorem classBindingSite_tolerates (node : NodeRef) :
    Tolerates (redress g) (classBindingSite a node) := by
  unfold classBindingSite
  split
  · exact .pure _
  · exact .bind functionScope_tolerates fun _ => .pure _
  · exact .bind lexicalScope_tolerates fun _ => .pure _
  · exact .ite (fun _ => .bind (declarationScope_tolerates _) fun _ => .pure _) fun _ => .pure _

theorem bindClassType_tolerates (hg : g.Keeps (·.isOrdinary = true)) (node : NodeRef)
    (cls : ValueId) :
    Tolerates (redress g) (bindClassType a node cls) := by
  refine .bind (classBindingSite_tolerates node) fun site => ?_
  split
  · exact .pure _
  · exact .bind (instanceOf_tolerates cls) fun _ => declareType_tolerates hg _ _ _

theorem aliasFor_tolerates (doc : DocComment) (name : Atom) :
    Tolerates (redress g) (aliasFor doc name) := fun _ => rfl

/-! ### References -/

theorem bindReference_tolerates (node : NodeRef) (target : ValueId) (assigned : NodeRef) :
    Tolerates (redress g) (bindReference node target assigned) := by
  refine .bind (setValue_tolerates _ _) fun _ => .bind (modifyValues_tolerates _) fun _ => ?_
  exact .ite (fun _ => modifyValues_tolerates _) fun _ => .pure _

theorem park_tolerates (id : ScopeId) (p : Parked) : Tolerates (redress g) (park id p) :=
  updateScope_tolerates _ _

theorem visitIdentifier_tolerates (node assigned : NodeRef) :
    Tolerates (redress g) (visitIdentifier a node assigned) := by
  refine .get_bind (fun _ => rfl) fun b => ?_
  dsimp only
  split
  · exact .bind (bindReference_tolerates _ _ _) fun _ => .pure _
  · exact .bind (park_tolerates _ _) fun _ => .pure _
  · refine .ite (fun _ => .bind (setValue_tolerates _ _) fun _ => .pure _) fun _ => ?_
    exact .ite (fun _ => .pure _) fun _ => .bind (park_tolerates _ _) fun _ => .pure _

theorem visitMember_tolerates (n : Nat) (object : ValueId) (create : Bool) :
    Tolerates (redress g) (visitMember a n object create) := by
  refine .get_bind (fun b => ?_) fun b => ?_
  · have hdenote : (b.redress g).analysis.denote object = b.analysis.denote object :=
      Analysis.denote_redress g b.analysis object
    simp only [hdenote]
    rfl
  · dsimp only
    refine .ite (fun _ => ?_) fun _ => ?_
    · refine .bind (onValues_tolerates _) fun _ => .bind (setValue_tolerates _ _) fun _ => ?_
      exact .bind (setValue_tolerates _ _) fun _ => .pure _
    · split
      · exact .pure _
      · refine .bind (setValue_tolerates _ _) fun _ => .bind (setValue_tolerates _ _) fun _ => ?_
        exact .bind (modifyValues_tolerates _) fun _ => .pure _

theorem visitPath_tolerates (r : NodeRef) (create : Bool) :
    Tolerates (redress g) (visitPath a r create) := by
  fun_induction visitPath a r create with
  | case1 | case2 | case5 | case6 => exact .pure _
  | case3 => exact .bind (visitIdentifier_tolerates _ _) fun _ => .pure _
  | case4 create n _ ih =>
    refine .bind ih fun found => ?_
    obtain ⟨object?, works⟩ := found
    cases object? with
    | none => exact .pure _
    | some object => exact .bind (visitMember_tolerates _ _ _) fun _ => .pure _

theorem visitTypeName_tolerates (n : Nat) : Tolerates (redress g) (visitTypeName a n) := by
  unfold visitTypeName
  dsimp only
  split
  · refine .ite (fun _ => .pure _) fun _ => .get_bind (fun _ => rfl) fun b => ?_
    split
    · exact setType_tolerates _ _
    · exact park_tolerates _ _
    · exact park_tolerates _ _
  · exact .ite (fun _ => (visitIdentifier_tolerates _ _).discard) fun _ => .pure _
  · exact .pure _

theorem visitTypeNames_tolerates (document : NodeRef) :
    Tolerates (redress g) (visitTypeNames a document) := .forM fun _ _ => visitTypeName_tolerates _

/-! ### Functions and classes -/

theorem declareParameter_tolerates (hg : g.Keeps (·.isOrdinary = true)) (id : ScopeId)
    (param : NodeRef) :
    Tolerates (redress g) (declareParameter a id param) := by
  unfold declareParameter
  split
  · exact .bind (declareVariable_tolerates hg _ _).discard fun _ => .pure _
  · refine .bind (declareVariable_tolerates hg _ _) fun _ => ?_
    split
    · exact .pure _
    · exact .bind (modifyValues_tolerates _) fun _ => .pure _
  · exact .bind (declareVariable_tolerates hg _ _).discard fun _ => .pure _
  · exact .pure _

theorem enterBody_tolerates (hg : g.Keeps (·.isOrdinary = true)) (params body : NodeRef) :
    Tolerates (redress g) (enterBody a params body) := by
  refine .get_bind (fun _ => rfl) fun b => ?_
  refine .bind (.mapM fun param _ => declareParameter_tolerates hg _ param) fun _ => ?_
  exact .ite (fun _ => .bind (openBody_tolerates hg _ _) fun _ => .pure _) fun _ => .pure _

theorem governingComment_tolerates (n : Nat) : Tolerates (redress g) (governingComment a n) :=
  fun _ => rfl

theorem createFunction_tolerates (hg : g.Keeps (·.isOrdinary = true)) (n : Nat) :
    Tolerates (redress g) (createFunction a n) := by
  have hplain : Tolerates (redress g) (do
      Analysis.setValue (some n) (← Analysis.onValues (·.newFunction (some n))) : Bind Unit) :=
    .bind (onValues_tolerates _) fun _ => setValue_tolerates _ _
  refine .bind (governingComment_tolerates n) fun doc => ?_
  split
  · refine .ite (fun _ => ?_) fun _ => hplain
    exact .bind (declareClass_tolerates _ _ _ _ _) fun _ => bindClassType_tolerates hg _ _
  · exact hplain

theorem visitFunction_tolerates (hg : g.Keeps (·.isOrdinary = true)) (n : Nat) (kind : NodeKind) :
    Tolerates (redress g) (visitFunction a n kind) := by
  -- The rule from its last step to its first.
  have hbody (params body : NodeRef) := enterBody_tolerates (a := a) hg params body
  have hinner (id : ScopeId) := declareVariable_tolerates (a := a) hg id (a.child (some n) 0)
  have hscope : Tolerates (redress g) (do
      let id ← enterScope .function (some n)
      if kind = .functionExpression && (a.child (some n) 0).isSome then
        let variableId ← declareVariable a id (a.child (some n) 0)
        Analysis.modifyValues (·.addWrite variableId (some n))
      let works ←
        if kind = .arrowFunction then enterBody a (a.child (some n) 0) (a.child (some n) 1)
        else enterBody a (a.child (some n) 1) (a.child (some n) 2)
      return works ++ [Work.exitScope]) := by
    have hlast : Tolerates (redress g) (do
        let works ←
          if kind = .arrowFunction then enterBody a (a.child (some n) 0) (a.child (some n) 1)
          else enterBody a (a.child (some n) 1) (a.child (some n) 2)
        return works ++ [Work.exitScope]) := by
      split
      · exact .bind (hbody _ _) fun _ => .pure _
      · exact .bind (hbody _ _) fun _ => .pure _
    refine .bind (enterScope_tolerates _ _) fun id => .ite (fun _ => ?_) fun _ => hlast
    exact .bind (hinner id) fun _ => .bind (modifyValues_tolerates _) fun _ => hlast
  have hdeclare : Tolerates (redress g) (do
      if kind = .functionDeclaration && (a.child (some n) 0).isSome then
        if ((← get).analysis.valueOf? (a.child (some n) 0)).isNone then
          let variableId ← declareVariable a (← functionScope) (a.child (some n) 0)
          Analysis.modifyValues (·.addWrite variableId (some n))
      let id ← enterScope .function (some n)
      if kind = .functionExpression && (a.child (some n) 0).isSome then
        let variableId ← declareVariable a id (a.child (some n) 0)
        Analysis.modifyValues (·.addWrite variableId (some n))
      let works ←
        if kind = .arrowFunction then enterBody a (a.child (some n) 0) (a.child (some n) 1)
        else enterBody a (a.child (some n) 1) (a.child (some n) 2)
      return works ++ [Work.exitScope]) := by
    refine .ite (fun _ => .get_bind (fun _ => rfl) fun b => ?_) fun _ => hscope
    refine .ite (fun _ => ?_) fun _ => hscope
    refine .bind functionScope_tolerates fun id => .bind (hinner id) fun _ => ?_
    exact .bind (modifyValues_tolerates _) fun _ => hscope
  refine .get_bind (fun _ => rfl) fun b => .ite (fun _ => ?_) fun _ => hdeclare
  exact .bind (createFunction_tolerates hg n) fun _ => hdeclare

theorem visitMethod_tolerates (hg : g.Keeps (·.isOrdinary = true)) (n : Nat) :
    Tolerates (redress g) (visitMethod a n) := by
  have hlast : Tolerates (redress g) (do
      discard (enterScope .function (some n))
      let works ← enterBody a (a.child (some n) 1) (a.child (some n) 2)
      return works ++ [Work.exitScope]) :=
    .bind (enterScope_tolerates _ _).discard fun _ =>
      .bind (enterBody_tolerates hg _ _) fun _ => .pure _
  refine .bind (onValues_tolerates _) fun _ => .bind (setValue_tolerates _ _) fun _ => ?_
  refine .get_bind (fun _ => rfl) fun b => ?_
  dsimp only
  split
  · exact hlast
  · split
    · exact hlast
    · refine .bind (onValues_tolerates _) fun _ => .bind (setValue_tolerates _ _) fun _ => ?_
      exact .bind (modifyValues_tolerates _) fun _ => hlast

theorem declareClassName_tolerates (hg : g.Keeps (·.isOrdinary = true)) (id : ScopeId) (n : Nat)
    (name : NodeRef)
    (cls : ValueId) : Tolerates (redress g) (declareClassName a id n name cls) := by
  refine .bind (declareVariable_tolerates hg _ _) fun _ =>
    .bind (modifyValues_tolerates _) fun _ => ?_
  exact .bind (instanceOf_tolerates cls) fun _ => declareType_tolerates hg _ _ _

theorem visitClass_tolerates (hg : g.Keeps (·.isOrdinary = true)) (n : Nat) :
    Tolerates (redress g) (visitClass a n) := by
  refine .bind (governingComment_tolerates n) fun doc => ?_
  refine .bind (declareClass_tolerates _ _ _ _ _) fun cls => ?_
  refine .ite (fun _ => .ite (fun _ => ?_) fun _ => .pure _) fun _ => ?_
  · exact .bind lexicalScope_tolerates fun _ =>
      .bind (declareClassName_tolerates hg _ _ _ _) fun _ => .pure _
  · refine .bind (bindClassType_tolerates hg _ _) fun _ => .ite (fun _ => ?_) fun _ => .pure _
    exact .bind (enterScope_tolerates _ _) fun _ =>
      .bind (declareClassName_tolerates hg _ _ _ _) fun _ => .pure _

/-! ### Statements -/

theorem declareAnnotated_tolerates (hg : g.Keeps (·.isOrdinary = true)) (doc : DocComment)
    (id : ScopeId)
    (declaration : NodeRef) (variableId : ValueId) :
    Tolerates (redress g) (declareAnnotated a doc id declaration variableId) := by
  refine .ite (fun _ => .ite (fun _ => ?_) fun _ => .pure _) fun _ =>
    .ite (fun _ => ?_) fun _ => .pure _
  · refine .bind (declareClass_tolerates _ _ _ _ _) fun _ =>
      .bind (modifyValues_tolerates _) fun _ => ?_
    exact .bind (instanceOf_tolerates _) fun _ => declareType_tolerates hg _ _ _
  · exact .bind (aliasFor_tolerates _ _) fun _ => declareType_tolerates hg _ _ _

theorem annotatedVariable_tolerates (hg : g.Keeps (·.isOrdinary = true)) (id : ScopeId)
    (doc : Option DocComment) (declaration : NodeRef) (variableId : ValueId) :
    Tolerates (redress g) (do
      match doc with
      | some x => declareAnnotated a x id declaration variableId
      | none => pure ()
      if (a.child declaration 1).isSome then
        Analysis.modifyValues (·.addWrite variableId (a.child declaration 1))
      return (Work.visit? (a.child declaration 1), []) : Bind (List Work × List Work)) := by
  have hlast : Tolerates (redress g) (do
      if (a.child declaration 1).isSome then
        Analysis.modifyValues (·.addWrite variableId (a.child declaration 1))
      return (Work.visit? (a.child declaration 1), []) : Bind (List Work × List Work)) :=
    .ite (fun _ => .bind (modifyValues_tolerates _) fun _ => .pure _) fun _ => .pure _
  cases doc with
  | some x => exact .bind (declareAnnotated_tolerates hg _ _ _ _) fun _ => hlast
  | none => exact hlast

theorem visitDeclaration_tolerates (hg : g.Keeps (·.isOrdinary = true)) (id : ScopeId)
    (doc : Option DocComment)
    (declaration : NodeRef) : Tolerates (redress g) (visitDeclaration a id doc declaration) := by
  have hrest := annotatedVariable_tolerates (a := a) hg id doc declaration
  refine .ite (fun _ => .pure _) fun _ => .get_bind (fun _ => rfl) fun b => ?_
  dsimp only
  split
  · exact hrest _
  · exact .bind (declareVariable_tolerates hg _ _) fun _ => hrest _

theorem visitDeclarations_tolerates (hg : g.Keeps (·.isOrdinary = true)) (n : Nat) :
    Tolerates (redress g) (visitDeclarations a n) := by
  refine .bind (declarationScope_tolerates _) fun id => .get_bind (fun _ => rfl) fun b => ?_
  exact .bind (.mapM fun declaration _ => visitDeclaration_tolerates hg _ _ declaration) fun _ =>
    .pure _

theorem visitAnnotated_tolerates (hg : g.Keeps (·.isOrdinary = true)) (n : Nat) :
    Tolerates (redress g) (visitAnnotated a n) := by
  have hlast (doc : DocComment) (exits : List Work) : Tolerates (redress g) (do
      modify fun b => { b with comments := b.comments.insert (a.child (some n) 1) doc }
      return Work.typeNames (a.child (some n) 0) :: (Work.visit? (a.child (some n) 1) ++ exits) :
        Bind (List Work)) := fun _ => rfl
  have hopened (doc : DocComment) : Tolerates (redress g) (do
      let generic := !doc.typeParameters.isEmpty
      if generic then
        let id ← enterScope .typeParameters (some n)
        doc.typeParameters.forM fun name => do
          let t ← Analysis.onTypes (·.parameter (a.atom (some name)) (some name))
          Analysis.setType (some name) t
          declareType a id (some name) t
      modify fun b => { b with comments := b.comments.insert (a.child (some n) 1) doc }
      return .typeNames (a.child (some n) 0) ::
        (Work.visit? (a.child (some n) 1) ++ if generic then [.exitScope] else [])) := by
    refine .ite (fun _ => .bind (enterScope_tolerates _ _) fun id => ?_) fun _ => hlast _ _
    refine .bind (.forM fun name _ => ?_) fun _ => hlast _ _
    refine .bind (onTypes_tolerates _) fun _ => .bind (setType_tolerates _ _) fun _ => ?_
    exact declareType_tolerates hg _ _ _
  refine Mirrors.get_bind fun b => ?_
  have hcompile := DocComment.compile_redress (a := a) hg (a.child (some n) 0) (a.child (some n) 1)
    (some b.analysis.diagnostics)
  rw [show some (b.redress g).analysis.diagnostics = (some b.analysis.diagnostics).map g from rfl,
    hcompile]
  generalize DocComment.compile a (a.child (some n) 0) (a.child (some n) 1)
    (some b.analysis.diagnostics) = compiled
  obtain ⟨doc, sink⟩ := compiled
  refine .bind (fun b' => by cases sink <;> rfl) fun _ => ?_
  refine Tolerates.ite (fun _ => ?_) fun _ => hopened doc
  exact .bind (reportAt_tolerates hg rfl _) fun _ => hopened doc

theorem visitExpressionStatement_tolerates (n : Nat) :
    Tolerates (redress g) (visitExpressionStatement a n) := by
  refine .get_bind (fun _ => rfl) fun b => ?_
  dsimp only
  split
  · exact .pure _
  · refine .ite (fun _ => .pure _) fun _ => .bind (visitPath_tolerates _ _) fun found => ?_
    obtain ⟨property?, works⟩ := found
    dsimp only
    split
    · exact .pure _
    · refine .ite (fun _ => ?_) fun _ => .ite (fun _ => ?_) fun _ => .pure _
      · exact .bind (declareClass_tolerates _ _ _ _ _).discard fun _ =>
          .bind (modifyValues_tolerates _) fun _ => .pure _
      · exact .bind (aliasFor_tolerates _ _) fun _ =>
          .bind (nameType_tolerates _ _) fun _ => .pure _

/-! ### Expressions -/

theorem nameMemberType_tolerates (n : Nat) (property : ValueId) :
    Tolerates (redress g) (nameMemberType a n property) := by
  refine .ite (fun _ => .pure _) fun _ => .get_bind (fun _ => rfl) fun b => ?_
  split
  · refine .ite (fun _ => ?_) fun _ => .pure _
    exact .bind (aliasFor_tolerates _ _) fun _ => nameType_tolerates _ _
  · exact .pure _

theorem visitAssignment_tolerates (n : Nat) : Tolerates (redress g) (visitAssignment a n) := by
  unfold visitAssignment
  dsimp only
  split
  · exact .pure _
  · exact .bind (visitIdentifier_tolerates _ _).discard fun _ => .pure _
  · refine .bind (visitPath_tolerates _ _) fun found => ?_
    obtain ⟨property?, works⟩ := found
    dsimp only
    split
    · have hlast (property : ValueId) : Tolerates (redress g) (do
          nameMemberType a n property
          return works ++ Work.visit? (a.child (some n) 1)) :=
        .bind (nameMemberType_tolerates _ _) fun _ => .pure _
      exact .ite (fun _ => .bind (modifyValues_tolerates _) fun _ => hlast _) fun _ => hlast _
    · exact .pure _
  · refine .bind (visitPath_tolerates _ _) fun found => ?_
    obtain ⟨object?, works⟩ := found
    dsimp only
    split
    · refine .get_bind (fun b => ?_) fun b => ?_
      · simp only [show ∀ v, (b.redress g).analysis.denote v = b.analysis.denote v from
          Analysis.denote_redress g b.analysis]
      · refine .bind (onValues_tolerates _) fun _ => .bind (setValue_tolerates _ _) fun _ => ?_
        exact .ite (fun _ => .bind (modifyValues_tolerates _) fun _ => .pure _) fun _ => .pure _
    · exact .pure _
  · exact .pure _

theorem visitProperty_tolerates (n : Nat) : Tolerates (redress g) (visitProperty a n) := by
  refine .get_bind (fun _ => rfl) fun b => ?_
  dsimp only
  split
  · exact .pure _
  · split
    · refine .bind (onValues_tolerates _) fun _ => .bind (setValue_tolerates _ _) fun _ => ?_
      exact .ite (fun _ => .bind (modifyValues_tolerates _) fun _ => .pure _) fun _ => .pure _
    · exact .ite (fun _ => .pure _) fun _ => .pure _

/-! ### The walk -/

theorem visitBlock_tolerates (n : Nat) : Tolerates (redress g) (visitBlock a n) :=
  .bind (enterScope_tolerates _ _) fun _ => .bind (reserveAll_tolerates _ _) fun _ => .pure _

theorem visitCatch_tolerates (hg : g.Keeps (·.isOrdinary = true)) (n : Nat) :
    Tolerates (redress g) (visitCatch a n) := by
  refine .bind (enterScope_tolerates _ _) fun id => .ite (fun _ => ?_) fun _ => .pure _
  exact .bind (declareVariable_tolerates hg _ _).discard fun _ => .pure _

theorem visitFor_tolerates (n : Nat) : Tolerates (redress g) (visitFor a n) := by
  refine .ite (fun _ => ?_) fun _ => .pure _
  exact .bind (enterScope_tolerates _ _) fun _ => .bind (reserveAll_tolerates _ _) fun _ => .pure _

/-- A node is visited the same way whatever was reported before. -/
theorem visit_tolerates (hg : g.Keeps (·.isOrdinary = true)) (n : Nat) :
    Tolerates (redress g) (visit a n) := by
  unfold visit
  split
  · exact .pure _
  · split
    · exact visitAnnotated_tolerates hg n
    · exact visitDeclarations_tolerates hg n
    · exact visitFunction_tolerates hg n _
    · exact visitFunction_tolerates hg n _
    · exact visitFunction_tolerates hg n _
    · exact visitMethod_tolerates hg n
    · exact visitClass_tolerates hg n
    · exact visitClass_tolerates hg n
    · exact visitBlock_tolerates n
    · exact visitCatch_tolerates hg n
    · exact visitFor_tolerates n
    · exact visitFor_tolerates n
    · exact visitFor_tolerates n
    · exact visitExpressionStatement_tolerates n
    · exact visitAssignment_tolerates n
    · exact .bind (visitIdentifier_tolerates _ _).discard fun _ => .pure _
    · exact .bind (visitPath_tolerates _ _) fun _ => .pure _
    · exact .bind (onValues_tolerates _) fun _ => .bind (setValue_tolerates _ _) fun _ => .pure _
    · exact visitProperty_tolerates n
    · exact .pure _
    · exact .pure _
    · exact .pure _
    · exact .pure _
    · exact .pure _
    · exact .pure _
    · exact .pure _
    · exact .ite (fun _ => .pure _) fun _ => .pure _

/-! ## The pass that reports and the pass that does not -/

/-- The report of a reference that is bound nowhere makes no difference. -/
theorem reportUnbound_mirrors (hdrop : g.Drops (·.isOrdinary = false)) (p : Parked) :
    Mirrors (redress g) (Bind.onAnalysis (Analysis.reportAt a (unboundProblem p.space) p.node))
      (pure ()) := by
  have hundefined : (unboundProblem p.space).isUndefinedName = true := by cases p.space <;> rfl
  intro b
  show ((), b.redress g) = ((), { b with analysis := { b.analysis with
    diagnostics := g (b.analysis.diagnostics.push _) } })
  rw [hdrop b.analysis.diagnostics _ (by simp [Diagnostic.isOrdinary, hundefined])]
  rfl

/-- One reference, of a pass that reports it and of one that does not. -/
theorem retry_mirrors (hdrop : g.Drops (·.isOrdinary = false)) (scope : Scope) (p : Parked) :
    Mirrors (redress g) (retry a true scope p) (retry a false scope p) := by
  unfold retry
  split
  · exact bindReference_tolerates _ _ _
  · exact setType_tolerates _ _
  · cases scope.outer with
    | some outer => exact park_tolerates _ _
    | none => exact reportUnbound_mirrors hdrop p

theorem exitScope_mirrors (hdrop : g.Drops (·.isOrdinary = false)) :
    Mirrors (redress g) (exitScope a true) (exitScope a false) := by
  refine .get_bind fun b => .get_bind fun b' => ?_
  rw [show (b'.redress g).analysis.scopes.get? (b.redress g).current =
    b'.analysis.scopes.get? b.current from rfl]
  split
  · exact Tolerates.pure _
  · refine .bind (updateScope_tolerates _ _) fun _ => ?_
    refine .bind (.forM fun p _ => retry_mirrors hdrop _ p) fun _ => ?_
    refine .bind (updateScope_tolerates _ _) fun _ => ?_
    split
    · exact fun _ => rfl
    · exact Tolerates.pure _

/-- A piece of work, of a pass that reports undefined names and of one that does not. -/
theorem perform_mirrors (hg : g.Keeps (·.isOrdinary = true))
    (hdrop : g.Drops (·.isOrdinary = false)) (work : Work) :
    Mirrors (redress g) (perform a true work) (perform a false work) := by
  match work with
  | .exitScope =>
    rw [perform, perform]
    exact exitScope_mirrors hdrop
  | .typeNames document =>
    rw [perform, perform]
    exact visitTypeNames_tolerates document
  | .visit n =>
    rw [perform, perform]
    refine .bind (visit_tolerates hg n) fun works => .forM fun next _ => ?_
    split
    · exact perform_mirrors hg hdrop next
    · exact Tolerates.pure _
termination_by work.rank
decreasing_by assumption

/-- The names of a unit, bound by a pass that reports undefined names and by one that does
not. -/
theorem run_mirrors (hg : g.Keeps (·.isOrdinary = true)) (hdrop : g.Drops (·.isOrdinary = false))
    (root : NodeRef) : Mirrors (redress g) (run a true root) (run a false root) := by
  refine .get_bind fun b => .bind (openBody_tolerates hg _ _) fun _ => ?_
  exact .forM fun work _ => perform_mirrors hg hdrop work

end Binder

/-- The first pass, reporting undefined names and not reporting them. -/
theorem Analysis.bindNames_mirrors (hg : g.Keeps (·.isOrdinary = true))
    (hdrop : g.Drops (·.isOrdinary = false)) (root : NodeRef) :
    Mirrors (Analysis.redress g) (bindNames a true root) (bindNames a false root) := by
  intro x
  have hrun := Binder.run_mirrors (a := a) hg hdrop root
    { analysis :=
        { x with scopes := (x.scopes.push { kind := .global, node := root, outer := none }).2 }
      current := (x.scopes.push { kind := .global, node := root, outer := none }).1 }
  exact Prod.ext rfl (congrArg (fun r => r.2.analysis) hrun)

end DocTypes
