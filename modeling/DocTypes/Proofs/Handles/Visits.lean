import DocTypes.Binding.Visit
import DocTypes.Proofs.Handles.Names

/-!
# Handles in visits

The rule of every kind of node leads from a safe state of the walk to a safe one, whatever the
node lists as its children, and it closes the scope that it opens. So the walk as a whole leads
from a closed state to a closed one, and leaves the state ready for the classes to be put
together.

## Main statements

* `Binder.visit_visits`: the rule of one node.
* `Binder.perform_runs`: a piece of work, with all that follows from it.
* `Analysis.bindNames_leads`, `Analysis.bindNames_ready`: the whole pass.
-/

namespace DocTypes

namespace Binder

open Analysis

variable {b : Binder}

/-! ## Functions -/

theorem plain_flatten {lists : List (List Work)} (h : ∀ works ∈ lists, Plain works) :
    Plain lists.flatten := by
  intro hmem
  obtain ⟨works, hworks, hexit⟩ := List.mem_flatten.1 hmem
  exact h works hworks hexit

theorem declareParameter_runs (hb : b.Safe) (a : Arena) {id : ScopeId} (hid : b.analysis.IsOpen id)
    (param : NodeRef) : Runs Leads b (declareParameter a id param) fun works _ => Plain works := by
  have hdeclared (binding : NodeRef) :
      Runs Leads b (do discard (declareVariable a id binding); return []) fun works _ =>
        Plain works :=
    (declareVariable_runs hb a hid binding).discard.bind fun _ _ h _ => pure_runs h.safe plain_nil
  unfold declareParameter
  split
  · exact hdeclared param
  · refine (declareVariable_runs hb a hid _).bind fun v b₁ h₁ hv => ?_
    split
    · exact pure_runs h₁.safe plain_nil
    · exact (addWrite_runs h₁.safe hv _).bind fun _ _ h₂ _ => pure_runs h₂.safe (plain_visit? _)
  · exact hdeclared _
  · exact pure_runs hb plain_nil

theorem enterBody_runs (hb : b.Safe) (a : Arena) (params body : NodeRef) :
    Runs Leads b (enterBody a params body) fun works _ => Plain works := by
  refine .get_bind ((Runs.mapM (Q := fun works _ => Plain works) (.refl hb) (fun _ _ _ _ h => h)
    fun param _ _ h => declareParameter_runs h.safe a (h.isOpen hb.current) param).bind ?_)
  intro defaults b₁ h₁ hdefaults
  have hplain := plain_flatten hdefaults
  refine .ite (fun _ => ?_) fun _ => pure_runs h₁.safe (plain_append hplain (plain_visit? _))
  refine (openBody_runs h₁.safe a (h₁.isOpen hb.current) _).bind fun _ b₂ h₂ _ => ?_
  exact pure_runs h₂.safe (plain_append hplain (plain_children a _))

/-- The body of a function is entered in a scope that is closed in the end. -/
theorem enterBody_exits (hb : b.Safe) (a : Arena) (params body : NodeRef) :
    Runs Leads b (do return (← enterBody a params body) ++ [.exitScope]) fun works _ =>
      ∃ rest, Plain rest ∧ works = rest ++ [.exitScope] :=
  (enterBody_runs hb a params body).bind fun works _ h hworks =>
    pure_runs h.safe ⟨works, hworks, rfl⟩

theorem createFunction_runs (hb : b.Safe) (a : Arena) (n : Nat) :
    Runs Leads b (createFunction a n) fun _ _ => True := by
  have hplain : Runs Leads b
      (do Analysis.setValue (some n) (← Analysis.onValues (·.newFunction (some n))) : Bind Unit)
      fun _ _ => True :=
    (newFunction_runs hb (some n)).bind fun v _ h hv => setValue_runs h.safe _ hv
  refine .get_bind ?_
  dsimp only
  split
  · refine .ite (fun _ => ?_) fun _ => hplain
    refine (declareClass_runs hb a _ _ _ _ _).bind fun cls _ h hcls => ?_
    exact bindClassType_runs h.safe a _ hcls
  · exact hplain

/-- What is left of a function once it has a value and its name is bound. -/
def finishFunction (a : Arena) (n : Nat) (kind : NodeKind) : Bind (List Work) := do
  let name := a.child (some n) 0
  let id ← enterScope .function (some n)
  if kind = .functionExpression && name.isSome then
    let variableId ← declareVariable a id name
    Analysis.modifyValues (·.addWrite variableId (some n))
  let works ←
    if kind = .arrowFunction then enterBody a (a.child (some n) 0) (a.child (some n) 1)
    else enterBody a (a.child (some n) 1) (a.child (some n) 2)
  return works ++ [.exitScope]

theorem finishFunction_visits (hb : b.Safe) (a : Arena) (n : Nat) (kind : NodeKind) :
    b.Visits (finishFunction a n kind) := by
  refine enterScope_visits hb .function (some n) fun b' hb' => ?_
  have hbody {b : Binder} (hb : b.Safe) : Runs Leads b (do
      let works ←
        if kind = .arrowFunction then enterBody a (a.child (some n) 0) (a.child (some n) 1)
        else enterBody a (a.child (some n) 1) (a.child (some n) 2)
      return works ++ [.exitScope]) fun works _ =>
        ∃ rest, Plain rest ∧ works = rest ++ [.exitScope] := by
    by_cases harrow : kind = .arrowFunction
    · simp only [harrow, if_true]
      exact enterBody_exits hb a _ _
    · simp only [harrow, if_false]
      exact enterBody_exits hb a _ _
  dsimp only
  split
  · refine (declareVariable_runs hb'.safe a hb'.safe.current _).bind fun v b₁ h₁ hv => ?_
    exact (addWrite_runs h₁.safe hv _).bind fun _ _ h₂ _ => hbody h₂.safe
  · exact hbody hb'.safe

theorem visitFunction_visits (hb : b.Safe) (a : Arena) (n : Nat) (kind : NodeKind) :
    b.Visits (visitFunction a n kind) := by
  have hname {b : Binder} (hb : b.Safe) : b.Visits (do
      let name := a.child (some n) 0
      if kind = .functionDeclaration && name.isSome then
        if ((← get).analysis.valueOf? name).isNone then
          let variableId ← declareVariable a (← functionScope) name
          Analysis.modifyValues (·.addWrite variableId (some n))
      finishFunction a n kind) := by
    dsimp only
    split
    · refine .get_bind ?_
      split
      · refine .bind (functionScope_runs hb) fun id b₁ h₁ hid => ?_
        refine .bind (declareVariable_runs h₁.safe a hid _) fun v b₂ h₂ hv => ?_
        exact .bind (addWrite_runs h₂.safe hv _) fun _ _ h₃ _ =>
          finishFunction_visits h₃.safe a n kind
      · exact finishFunction_visits hb a n kind
    · exact finishFunction_visits hb a n kind
  refine .get_bind ?_
  dsimp only
  split
  · exact .bind (createFunction_runs hb a n) fun _ _ h _ => hname h.safe
  · exact hname hb

/-- What is left of a method once it is a member of its class. -/
def finishMethod (a : Arena) (n : Nat) : Bind (List Work) := do
  discard (enterScope .function (some n))
  let works ← enterBody a (a.child (some n) 1) (a.child (some n) 2)
  return works ++ [.exitScope]

theorem finishMethod_visits (hb : b.Safe) (a : Arena) (n : Nat) : b.Visits (finishMethod a n) := by
  show b.Visits (enterScope .function (some n) >>= fun _ => do
    return (← enterBody a (a.child (some n) 1) (a.child (some n) 2)) ++ [.exitScope])
  exact enterScope_visits hb .function (some n) fun _ hb' => enterBody_exits hb'.safe a _ _

theorem visitMethod_visits (hb : b.Safe) (a : Arena) (n : Nat) : b.Visits (visitMethod a n) := by
  refine .bind (newFunction_runs hb _) fun v b₁ h₁ hv => ?_
  refine .bind (setValue_runs h₁.safe _ hv) fun _ b₂ h₂ _ => .get_bind ?_
  dsimp only
  split
  · exact finishMethod_visits h₂.safe a n
  · next cls hcls =>
    split
    · exact finishMethod_visits h₂.safe a n
    · next data hdata =>
      have hprototype : b₂.analysis.store.ValueKnown data.prototype := by
        obtain ⟨value, hvalue, hclass⟩ := Option.bind_eq_some_iff.1 hdata
        exact (h₂.closed.store.values _ _ hvalue).prototype hclass
      have howner : b₂.analysis.store.ValueKnown
          (if (a.flags (some n)).isStatic then cls else data.prototype) := by
        split
        · exact h₂.closed.values _ _ hcls
        · exact hprototype
      refine .bind (newProperty_runs h₂.safe howner _ _) fun property b₃ h₃ hproperty => ?_
      refine .bind (setValue_runs h₃.safe _ hproperty) fun _ b₄ h₄ _ => ?_
      refine .bind (addWrite_runs h₄.safe (h₄.valueKnown hproperty) _) fun _ b₅ h₅ _ => ?_
      exact finishMethod_visits h₅.safe a n

/-! ## Classes -/

theorem declareClassName_runs (hb : b.Safe) (a : Arena) {id : ScopeId} (hid : b.analysis.IsOpen id)
    (n : Nat) (name : NodeRef) {cls : ValueId}
    (hcls : (b.analysis.store.values.class? cls).isSome) :
    Runs Leads b (declareClassName a id n name cls) fun _ _ => True := by
  refine (declareVariable_runs hb a hid name).bind fun v b₁ h₁ hv => ?_
  refine (addWrite_runs h₁.safe hv _).bind fun _ b₂ h₂ _ => ?_
  have hcls₂ := h₂.analysis.class? (h₁.analysis.class? hcls)
  refine (instanceOf_runs h₂.safe hcls₂).bind fun t b₃ h₃ ht => ?_
  exact declareType_runs h₃.safe a (h₃.isOpen (h₂.isOpen (h₁.isOpen hid))) name ht

theorem visitClass_visits (hb : b.Safe) (a : Arena) (n : Nat) : b.Visits (visitClass a n) := by
  have hinner : Plain (Work.visit? (a.child (some n) 1) ++ Work.children a (a.child (some n) 2)) :=
    plain_append (plain_visit? _) (plain_children a _)
  refine .get_bind (.bind (declareClass_runs hb a _ _ _ _ _) fun cls b₁ h₁ hcls => ?_)
  dsimp only
  split
  · split
    · refine .bind (lexicalScope_runs h₁.safe) fun id b₂ h₂ hid => ?_
      refine .bind (declareClassName_runs h₂.safe a hid n _ (h₂.analysis.class? hcls)) ?_
      exact fun _ _ h₃ _ => .stay (pure_runs h₃.safe hinner)
    · exact .stay (pure_runs h₁.safe hinner)
  · refine .bind (bindClassType_runs h₁.safe a _ hcls) fun _ b₂ h₂ _ => ?_
    have hcls₂ := h₂.analysis.class? hcls
    split
    · refine enterScope_visits h₂.safe .block (some n) fun b₃ h₃ => ?_
      refine (declareClassName_runs h₃.safe a h₃.safe.current n _
        (h₃.analysis.class? hcls₂)).bind ?_
      exact fun _ _ h₄ _ => pure_runs h₄.safe ⟨_, hinner, rfl⟩
    · exact .stay (pure_runs h₂.safe hinner)

/-! ## Statements -/

theorem declareAnnotated_runs (hb : b.Safe) (a : Arena) (doc : DocComment) {id : ScopeId}
    (hid : b.analysis.IsOpen id) (declaration : NodeRef) {v : ValueId}
    (hv : b.analysis.store.ValueKnown v) :
    Runs Leads b (declareAnnotated a doc id declaration v) fun _ _ => True := by
  refine .ite (fun _ => .ite (fun _ => ?_) fun _ => pure_runs hb trivial) fun _ =>
    .ite (fun _ => ?_) fun _ => pure_runs hb trivial
  · refine (declareClass_runs hb a _ _ _ _ _).bind fun cls b₁ h₁ hcls => ?_
    refine (addWrite_runs h₁.safe (h₁.valueKnown hv) _).bind fun _ b₂ h₂ _ => ?_
    refine (instanceOf_runs h₂.safe (h₂.analysis.class? hcls)).bind fun t b₃ h₃ ht => ?_
    exact declareType_runs h₃.safe a (h₃.isOpen (h₂.isOpen (h₁.isOpen hid))) _ ht
  · refine (aliasFor_runs hb doc _).bind fun t b₁ h₁ ht => ?_
    exact declareType_runs h₁.safe a (h₁.isOpen hid) _ ht

/-- The work that a declaration leaves closes no scope. -/
def PlainPair (works : List Work × List Work) : Prop := Plain works.1 ∧ Plain works.2

/-- What is done for a variable once it is declared. -/
theorem annotatedVariable_runs (hb : b.Safe) (a : Arena) {id : ScopeId} (hid : b.analysis.IsOpen id)
    (doc : Option DocComment) (declaration : NodeRef) {v : ValueId}
    (hv : b.analysis.store.ValueKnown v) :
    Runs Leads b (do
      match doc with
      | some x => declareAnnotated a x id declaration v
      | none => pure ()
      let init := a.child declaration 1
      if init.isSome then Analysis.modifyValues (·.addWrite v init)
      return (Work.visit? init, ([] : List Work)) : Bind (List Work × List Work)) fun works _ =>
      PlainPair works := by
  have hwritten {b : Binder} (hb : b.Safe) (hv : b.analysis.store.ValueKnown v) :
      Runs Leads b (do
        let init := a.child declaration 1
        if init.isSome then Analysis.modifyValues (·.addWrite v init)
        return (Work.visit? init, ([] : List Work)) : Bind (List Work × List Work)) fun works _ =>
        PlainPair works := by
    dsimp only
    split
    · exact (addWrite_runs hb hv _).bind fun _ _ h _ => pure_runs h.safe ⟨plain_visit? _, plain_nil⟩
    · exact pure_runs hb ⟨plain_visit? _, plain_nil⟩
  cases doc with
  | none => exact hwritten hb hv
  | some doc =>
    refine (declareAnnotated_runs hb a doc hid declaration hv).bind fun _ b₁ h₁ _ => ?_
    exact hwritten h₁.safe (h₁.valueKnown hv)

theorem visitDeclaration_runs (hb : b.Safe) (a : Arena) {id : ScopeId} (hid : b.analysis.IsOpen id)
    (doc : Option DocComment) (declaration : NodeRef) :
    Runs Leads b (visitDeclaration a id doc declaration) fun works _ => PlainPair works := by
  unfold visitDeclaration
  dsimp only
  refine .ite (fun _ => pure_runs hb ⟨plain_nil, plain_visit? _⟩) fun _ => .get_bind ?_
  split
  · next v hv => exact annotatedVariable_runs hb a hid doc declaration (hb.closed.values _ v hv)
  · refine (declareVariable_runs hb a hid _).bind fun v b₁ h₁ hv => ?_
    exact annotatedVariable_runs h₁.safe a (h₁.isOpen hid) doc declaration hv

theorem visitDeclarations_runs (hb : b.Safe) (a : Arena) (n : Nat) :
    Runs Leads b (visitDeclarations a n) fun works _ => Plain works := by
  refine (declarationScope_runs hb a _).bind fun id b₁ h₁ hid => .get_bind ?_
  refine (Runs.mapM (Q := fun works _ => PlainPair works) (.refl h₁.safe) (fun _ _ _ _ h => h)
    fun declaration _ _ h => visitDeclaration_runs h.safe a (h.isOpen hid) _ declaration).bind ?_
  intro works b₂ h₂ hworks
  refine pure_runs h₂.safe (plain_append ?_ ?_)
  · intro hmem
    obtain ⟨pair, hpair, hexit⟩ := List.mem_flatMap.1 hmem
    exact (hworks pair hpair).1 hexit
  · intro hmem
    obtain ⟨pair, hpair, hexit⟩ := List.mem_flatMap.1 (List.mem_reverse.1 hmem)
    exact (hworks pair hpair).2 hexit

/-- The names of `@template` tags are bound in the scope around a statement. -/
theorem declareTemplate_runs (hb : b.Safe) (a : Arena) {id : ScopeId} (hid : b.analysis.IsOpen id)
    (name : Nat) :
    Runs Leads b (do
      let t ← Analysis.onTypes (·.parameter (a.atom (some name)) (some name))
      Analysis.setType (some name) t
      declareType a id (some name) t) fun _ _ => True := by
  refine (onTypes_runs hb (Store.parameter_runs hb.closed.store _ _)
    (.intern _ (by simp) (by simp))).bind fun t b₁ h₁ ht => ?_
  refine (setType_runs h₁.safe _ ht).bind fun _ b₂ h₂ _ => ?_
  exact declareType_runs h₂.safe a (h₂.isOpen (h₁.isOpen hid)) _ (h₂.known ht)

/-- The compiled comment of a node is kept. -/
theorem keepComment_runs (hb : b.Safe) (target : NodeRef) (doc : DocComment) :
    Runs Leads b (modify fun b => { b with comments := b.comments.insert target doc } : Bind Unit)
      fun _ _ => True :=
  ⟨⟨⟨.refl hb.closed, .refl _, .refl _⟩, rfl, hb.live⟩, trivial⟩

theorem visitAnnotated_visits (hb : b.Safe) (a : Arena) (n : Nat) :
    b.Visits (visitAnnotated a n) := by
  have hwork : Plain (.typeNames (a.child (some n) 0) :: Work.visit? (a.child (some n) 1)) := by
    have hnames : Plain [.typeNames (a.child (some n) 0)] := by simp [Plain]
    exact plain_append hnames (plain_visit? _)
  have hopened {b : Binder} (hb : b.Safe) (doc : DocComment) : b.Visits (do
      let generic := !doc.typeParameters.isEmpty
      if generic then
        let id ← enterScope .typeParameters (some n)
        doc.typeParameters.forM fun name => do
          let t ← Analysis.onTypes (·.parameter (a.atom (some name)) (some name))
          Analysis.setType (some name) t
          declareType a id (some name) t
      modify fun b => { b with comments := b.comments.insert (a.child (some n) 1) doc }
      return .typeNames (a.child (some n) 0) ::
        (Work.visit? (a.child (some n) 1) ++ if generic then [.exitScope] else [])) := by
    dsimp only
    split
    · next hgeneric =>
      refine enterScope_visits hb .typeParameters (some n) fun b₁ h₁ => ?_
      refine (Runs.forM (.refl h₁.safe) fun name _ _ h =>
        declareTemplate_runs h.safe a (h.isOpen h₁.safe.current) name).bind fun _ b₂ h₂ _ => ?_
      refine (keepComment_runs h₂.safe _ doc).bind fun _ b₃ h₃ _ => ?_
      exact pure_runs h₃.safe ⟨_, hwork, rfl⟩
    · refine .bind (keepComment_runs hb _ doc) fun _ b₁ h₁ _ => .stay (pure_runs h₁.safe ?_)
      rw [List.append_nil]
      exact hwork
  refine .get_bind ?_
  generalize DocComment.compile a (a.child (some n) 0) (a.child (some n) 1)
    (some b.analysis.diagnostics) = compiled
  obtain ⟨doc, sink⟩ := compiled
  have hsunk : Runs Leads b (modify fun b =>
      { b with analysis := { b.analysis with diagnostics := sink.getD b.analysis.diagnostics } } :
        Bind Unit) fun _ _ => True := by
    have hreaches : b.Reaches { b with analysis :=
        { b.analysis with diagnostics := sink.getD b.analysis.diagnostics } } :=
      ⟨.change hb.closed (.report _), .ofStore rfl rfl, .refl _⟩
    exact ⟨hreaches.leads hb rfl, trivial⟩
  refine .bind hsunk fun _ b₁ h₁ _ => ?_
  dsimp only
  split
  · exact .bind (reportAt_runs h₁.safe a _ _) fun _ _ h₂ _ => hopened h₂.safe doc
  · exact hopened h₁.safe doc

theorem visitExpressionStatement_runs (hb : b.Safe) (a : Arena) (n : Nat) :
    Runs Leads b (visitExpressionStatement a n) fun works _ => Plain works := by
  refine .get_bind ?_
  split
  · exact pure_runs hb (plain_visit? _)
  · next doc _ =>
    refine .ite (fun _ => pure_runs hb (plain_visit? _)) fun _ => ?_
    refine (visitPath_runs hb a _ true).bind fun found b₁ h₁ hfound => ?_
    obtain ⟨property?, works⟩ := found
    obtain ⟨hproperty, hworks⟩ := hfound
    dsimp only
    split
    · exact pure_runs h₁.safe hworks
    · next property =>
      have hknown := hproperty property rfl
      split
      · refine (declareClass_runs h₁.safe a _ _ _ _ _).discard.bind fun _ b₂ h₂ _ => ?_
        refine (addWrite_runs h₂.safe (h₂.valueKnown hknown) _).bind fun _ b₃ h₃ _ => ?_
        exact pure_runs h₃.safe hworks
      · split
        · refine (aliasFor_runs h₁.safe doc _).bind fun t b₂ h₂ ht => ?_
          refine (nameType_runs h₂.safe (h₂.valueKnown hknown) ht).bind fun _ b₃ h₃ _ => ?_
          exact pure_runs h₃.safe hworks
        · exact pure_runs h₁.safe hworks

/-! ## Expressions -/

theorem nameMemberType_runs (hb : b.Safe) (a : Arena) (n : Nat) {property : ValueId}
    (hproperty : b.analysis.store.ValueKnown property) :
    Runs Leads b (nameMemberType a n property) fun _ _ => True := by
  refine .ite (fun _ => pure_runs hb trivial) fun _ => .get_bind ?_
  split
  · next doc _ =>
    refine .ite (fun _ => ?_) fun _ => pure_runs hb trivial
    refine (aliasFor_runs hb doc _).bind fun t b₁ h₁ ht => ?_
    exact nameType_runs h₁.safe (h₁.valueKnown hproperty) ht
  · exact pure_runs hb trivial

/-- A value is noted among the writes of a slot, if there is one. -/
theorem addWriteIf_runs (hb : b.Safe) {v : ValueId} (hv : b.analysis.store.ValueKnown v)
    (value : NodeRef) {α : Type} {m : Bind α} {P : α → Binder → Prop}
    (hm : ∀ b', b.Leads b' → Runs Leads b' m P) :
    Runs Leads b (do
      if value.isSome then Analysis.modifyValues (·.addWrite v value)
      m) P := by
  dsimp only
  split
  · exact (addWrite_runs hb hv value).bind fun _ b' h _ => hm b' h
  · exact hm b (.refl hb)

theorem visitAssignment_runs (hb : b.Safe) (a : Arena) (n : Nat) :
    Runs Leads b (visitAssignment a n) fun works _ => Plain works := by
  have hvalue := plain_visit? (a.child (some n) 1)
  unfold visitAssignment
  dsimp only
  split
  · exact pure_runs hb hvalue
  · exact (visitIdentifier_runs hb a _ _).discard.bind fun _ _ h _ => pure_runs h.safe hvalue
  · refine (visitPath_runs hb a _ true).bind fun found b₁ h₁ hfound => ?_
    obtain ⟨property?, works⟩ := found
    obtain ⟨hproperty, hworks⟩ := hfound
    have hdone {b : Binder} (hb : b.Safe) : Runs Leads b
        (pure (works ++ Work.visit? (a.child (some n) 1))) fun works _ => Plain works :=
      pure_runs hb (plain_append hworks hvalue)
    cases property? with
    | none => exact hdone h₁.safe
    | some property =>
      have hknown := hproperty property rfl
      refine addWriteIf_runs h₁.safe hknown _ fun b₂ h₂ => ?_
      exact (nameMemberType_runs h₂.safe a n (h₂.valueKnown hknown)).bind
        fun _ _ h₃ _ => hdone h₃.safe
  · refine (visitPath_runs hb a _ false).bind fun found b₁ h₁ hfound => ?_
    obtain ⟨object?, works⟩ := found
    obtain ⟨hobject, hworks⟩ := hfound
    dsimp only
    split
    · next object _ =>
      refine .get_bind ?_
      have howner := h₁.closed.valueKnown_denote (hobject object rfl)
      refine (newProperty_runs h₁.safe howner _ _).bind fun property b₂ h₂ hproperty => ?_
      refine (setValue_runs h₂.safe _ hproperty).bind fun _ b₃ h₃ _ => ?_
      refine addWriteIf_runs h₃.safe (h₃.valueKnown hproperty) _ fun b₄ h₄ => ?_
      exact pure_runs h₄.safe (plain_append hworks hvalue)
    · exact pure_runs h₁.safe (plain_append (plain_append (plain_visit? _) hworks) hvalue)
  · exact pure_runs hb (plain_append (plain_visit? _) hvalue)

theorem visitProperty_runs (hb : b.Safe) (a : Arena) (n : Nat) :
    Runs Leads b (visitProperty a n) fun works _ => Plain works := by
  have hvalue := plain_visit? (a.child (some n) 1)
  refine .get_bind ?_
  dsimp only
  split
  · exact pure_runs hb hvalue
  · next object hobject =>
    split
    · have hknown := hb.closed.values _ object hobject
      refine (newProperty_runs hb hknown _ _).bind fun property b₁ h₁ hproperty => ?_
      refine (setValue_runs h₁.safe _ hproperty).bind fun _ b₂ h₂ _ => ?_
      exact addWriteIf_runs h₂.safe (h₂.valueKnown hproperty) _ fun b₃ h₃ =>
        pure_runs h₃.safe hvalue
    · refine .ite (fun _ => ?_) fun _ => pure_runs hb hvalue
      exact pure_runs hb (plain_append (plain_visit? _) hvalue)

/-! ## The walk -/

theorem visitBlock_visits (hb : b.Safe) (a : Arena) (n : Nat) : b.Visits (visitBlock a n) := by
  refine enterScope_visits hb .block (some n) fun b₁ h₁ => ?_
  refine (reserveAll_runs h₁.safe h₁.safe.current _).bind fun _ b₂ h₂ _ => ?_
  exact pure_runs h₂.safe ⟨_, plain_children a _, rfl⟩

theorem visitCatch_visits (hb : b.Safe) (a : Arena) (n : Nat) : b.Visits (visitCatch a n) := by
  refine enterScope_visits hb .catchClause (some n) fun b₁ h₁ => ?_
  have hdone {b : Binder} (hb : b.Safe) : Runs Leads b
      (pure (Work.visit? (a.child (some n) 1) ++ [.exitScope])) fun works _ =>
        ∃ rest, Plain rest ∧ works = rest ++ [.exitScope] :=
    pure_runs hb ⟨_, plain_visit? _, rfl⟩
  dsimp only
  split
  · exact (declareVariable_runs h₁.safe a h₁.safe.current _).discard.bind
      fun _ _ h₂ _ => hdone h₂.safe
  · exact hdone h₁.safe

theorem visitFor_visits (hb : b.Safe) (a : Arena) (n : Nat) : b.Visits (visitFor a n) := by
  unfold visitFor
  dsimp only
  split
  · refine enterScope_visits hb .forHead (some n) fun b₁ h₁ => ?_
    refine (reserveAll_runs h₁.safe h₁.safe.current _).bind fun _ b₂ h₂ _ => ?_
    exact pure_runs h₂.safe ⟨_, plain_children a _, rfl⟩
  · exact .stay (pure_runs hb (plain_children a _))

/-- The rule of a node stays in the current scope, or opens one that it closes. -/
theorem visit_visits (hb : b.Safe) (a : Arena) (n : Nat) : b.Visits (visit a n) := by
  have hchildren : b.Visits (pure (Work.children a (some n))) :=
    .stay (pure_runs hb (plain_children a _))
  have hnothing : b.Visits (pure []) := .stay (pure_runs hb plain_nil)
  unfold visit
  split
  · exact hnothing
  · split
    · exact visitAnnotated_visits hb a n
    · exact .stay (visitDeclarations_runs hb a n)
    · exact visitFunction_visits hb a n _
    · exact visitFunction_visits hb a n _
    · exact visitFunction_visits hb a n _
    · exact visitMethod_visits hb a n
    · exact visitClass_visits hb a n
    · exact visitClass_visits hb a n
    · exact visitBlock_visits hb a n
    · exact visitCatch_visits hb a n
    · exact visitFor_visits hb a n
    · exact visitFor_visits hb a n
    · exact visitFor_visits hb a n
    · exact .stay (visitExpressionStatement_runs hb a n)
    · exact .stay (visitAssignment_runs hb a n)
    · refine .bind (visitIdentifier_runs hb a _ none).discard fun _ _ h _ => ?_
      exact .stay (pure_runs h.safe plain_nil)
    · refine .stay ((visitPath_runs hb a _ false).bind fun found _ h hfound => ?_)
      exact pure_runs h.safe hfound.2
    · refine .bind (newObject_runs hb _) fun v b₁ h₁ hv => ?_
      refine .bind (setValue_runs h₁.safe _ hv) fun _ _ h₂ _ => ?_
      exact .stay (pure_runs h₂.safe (plain_children a _))
    · exact .stay (visitProperty_runs hb a n)
    all_goals first
      | exact hnothing
      | skip
    split
    · exact hnothing
    · exact hchildren

/-- Work that closes no scope, with all that follows from it, stays in the current scope. -/
theorem perform_runs (a : Arena) (reportUndefined : Bool) {work : Work} (hwork : work ≠ .exitScope)
    {b : Binder} (hb : b.Safe) :
    Runs Leads b (perform a reportUndefined work) fun _ _ => True := by
  match work with
  | .exitScope => exact absurd rfl hwork
  | .typeNames document =>
    rw [perform]
    exact visitTypeNames_runs hb a document
  | .visit n =>
    rw [perform]
    have hplain {works : List Work} (hworks : Plain works) {b : Binder} (hb : b.Safe) :
        Runs Leads b (works.forM fun next =>
          if _h : next.rank < n + 1 then perform a reportUndefined next else pure ())
          fun _ _ => True := by
      refine .forM (.refl hb) fun next hnext b' hb' => ?_
      split
      · refine perform_runs a reportUndefined ?_ hb'.safe
        rintro rfl
        exact hworks hnext
      · exact pure_runs hb'.safe trivial
    rcases visit_visits hb a n with ⟨hleads, hworks⟩ | ⟨henters, works, hworks, heq⟩
    · have hrest := hplain hworks hleads.safe
      exact ⟨hleads.trans hrest.1, trivial⟩
    · have hrest := hplain hworks henters.safe
      have hexit := (henters.leads hrest.1).exitScope hb a reportUndefined
      refine ⟨?_, trivial⟩
      have hrank : Work.exitScope.rank < n + 1 := Nat.succ_pos n
      have hlast (b : Binder) : ([Work.exitScope].forM (fun next =>
          if _h : next.rank < n + 1 then perform a reportUndefined next else pure ()) b).2
          = (exitScope a reportUndefined b).2 := by
        show ((if _h : Work.exitScope.rank < n + 1 then perform a reportUndefined .exitScope
          else pure ()) b).2 = _
        rw [dif_pos hrank, perform]
      rw [run_bind, heq, run_forM_append, hlast]
      exact hexit
termination_by work.rank
decreasing_by assumption

/-- From a safe state, binding the names of a unit leads to a closed one. -/
theorem run_leaves (hb : b.Safe) (a : Arena) (reportUndefined : Bool) (root : NodeRef) :
    ∃ b', b.Leads b' ∧ b'.Leaves (run a reportUndefined root b).2 := by
  have hopened := openBody_runs hb a hb.current (a.children root)
  have hplain := plain_children a root
  have hwork : Runs Leads (openBody a b.current (a.children root) b).2
      ((Work.children a root).forM (perform a reportUndefined)) fun _ _ => True :=
    .forM (.refl hopened.1.safe) fun work hmem _ h =>
      perform_runs a reportUndefined (fun heq => hplain (heq ▸ hmem)) h.safe
  have hleads := hopened.1.trans hwork.1
  refine ⟨_, hleads, ?_⟩
  have hexit := exitScope_leaves hleads.safe a reportUndefined
  have hrun : (run a reportUndefined root b).2 = (exitScope a reportUndefined
      ((Work.children a root).forM (perform a reportUndefined)
        (openBody a b.current (a.children root) b).2).2).2 := by
    unfold run
    rw [run_bind, run_get, run_bind, run_forM_append]
    show (perform a reportUndefined .exitScope _).2 = _
    rw [perform]
  rw [hrun]
  exact hexit

end Binder

namespace Analysis

/-- The state in which the scope of the unit is open. -/
def unit (x : Analysis) (root : NodeRef) : Binder :=
  let (current, scopes) := x.scopes.push { kind := .global, node := root, outer := none }
  { analysis := { x with scopes }, current }

theorem unit_safe {x : Analysis} (hx : x.Closed) (root : NodeRef) :
    x.Leads (x.unit root).analysis ∧ (x.unit root).Safe := by
  let scope : Scope := { kind := .global, node := root, outer := none }
  have hopened : x.Leads (x.unit root).analysis :=
    .change hx (.openScope .global root none fun o ho => nomatch ho)
  have hget : (x.unit root).analysis.scopes.get? (x.unit root).current = some scope := by
    show (x.scopes.push scope).2.get? (x.scopes.push scope).1 = some scope
    rw [ScopeTree.get?_push, if_pos rfl]
  refine ⟨hopened, hopened.closed, ?_⟩
  intro s hs
  rcases (ScopeTree.mem_chain_iff hopened.closed.nested s _).1 hs with rfl | ⟨o, ho, -⟩
  · exact ⟨scope, hget, rfl⟩
  · rw [ScopeTree.outer?, hget] at ho
    cases ho

/-- Binding the names of a tree leads to a closed state. -/
theorem bindNames_leads {x : Analysis} (hx : x.Closed) (a : Arena) (reportUndefined : Bool)
    (root : NodeRef) : x.Leads (bindNames a reportUndefined root x).2 := by
  obtain ⟨hopened, hsafe⟩ := unit_safe hx root
  obtain ⟨b', hleads, hleaves⟩ := Binder.run_leaves hsafe a reportUndefined root
  exact hopened.trans (hleads.analysis.trans hleaves.analysis)

theorem bindNames_prepares (a : Arena) (reportUndefined : Bool) (root : NodeRef) :
    (new a).Prepares (bindNames a reportUndefined root (new a)).2 := by
  obtain ⟨-, hsafe⟩ := unit_safe (closed_new a) root
  obtain ⟨b', hleads, hleaves⟩ := Binder.run_leaves hsafe a reportUndefined root
  have hprepares : (new a).Prepares ((new a).unit root).analysis := .ofStore rfl rfl
  exact hprepares.trans (hleads.prepares.trans hleaves.prepares)

/-- The state after the names of a tree are bound is ready for the classes to be put together. -/
theorem bindNames_ready (a : Arena) (reportUndefined : Bool) (root : NodeRef) :
    (bindNames a reportUndefined root (new a)).2.Ready :=
  (bindNames_prepares a reportUndefined root).ready (ready_new a)

/-- While names are bound, no ancestors are listed. -/
theorem bindNames_unlisted (a : Arena) (reportUndefined : Bool) (root : NodeRef) :
    (bindNames a reportUndefined root (new a)).2.store.Unlisted :=
  (bindNames_prepares a reportUndefined root).unlisted (unlisted_new a)

end Analysis

end DocTypes
