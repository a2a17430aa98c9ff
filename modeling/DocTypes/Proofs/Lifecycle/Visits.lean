import DocTypes.Proofs.Handles.Visits
import DocTypes.Proofs.Lifecycle.Trails

/-!
# What each visit does to the scopes

A visit stays in the current scope, or it opens one scope in it and asks for that to be closed
after everything else. Which kind of scope that would be is told by the kind of the node
(`NodeKind.scopeKind`). On the way names come into scopes on the chain alone.

## Main statements

* `Binder.visit_opens`: the dichotomy, for every node.
* `Binder.visitTypeNames_stays`: the type names of a comment.
-/

namespace DocTypes

/-- The kind of the scope that a node of a kind opens, if it opens one. -/
def NodeKind.scopeKind : NodeKind → ScopeKind
  | .functionDeclaration | .functionExpression | .arrowFunction | .method => .function
  | .annotated => .typeParameters
  | .catchClause => .catchClause
  | .forStatement | .forInStatement | .forOfStatement => .forHead
  | _ => .block

/-- The kind of the scope that a node opens, if it opens one. -/
def Arena.scopeKind (a : Arena) (n : Nat) : ScopeKind :=
  ((a.kind? (some n)).map NodeKind.scopeKind).getD .block

namespace Binder

variable {a : Arena} {c : ScopeId} {cs : List ScopeId} {id : ScopeId}

/-! ## Declarations -/

theorem reserveAll_stays (hid : id ∈ cs) (names : List (Namespace × Atom)) :
    Moves (Stays c cs) (reserveAll id names) :=
  .forM fun (space, name) _ => addEntry_stays hid (.reserved space name)

theorem declareVariable_stays (hid : id ∈ cs) (binding : NodeRef) :
    Moves (Stays c cs) (declareVariable a id binding) := by
  refine get_bind_stays fun b _ => ?_
  split
  · refine .bind (reportRelated_stays _ _ _) fun _ => ?_
    exact .bind (setValue_stays _ _) fun _ => .pure _
  · refine .bind (onValues_stays _) fun v => ?_
    refine .bind (addEntry_stays hid (.variable _ ⟨v, binding⟩)) fun _ => ?_
    exact .bind (setValue_stays _ _) fun _ => .pure _

theorem declareType_stays (hid : id ∈ cs) (nameNode : NodeRef) (t : TypeId) :
    Moves (Stays c cs) (declareType a id nameNode t) := by
  refine get_bind_stays fun b _ => ?_
  split
  · exact reportRelated_stays _ _ _
  · exact addEntry_stays hid (.type _ ⟨t, nameNode⟩)

theorem hoist_stays (hid : id ∈ cs) (h : Hoisted) : Moves (Stays c cs) (hoist a id h) := by
  cases h with
  | variableName binding => exact (declareVariable_stays hid _).discard
  | functionName function binding =>
    exact .bind (declareVariable_stays hid _) fun _ => modifyValues_stays _
  | typeName name => exact addEntry_stays hid (.reserved .type name)

theorem openBody_stays (hid : id ∈ cs) (statements : List NodeRef) :
    Moves (Stays c cs) (openBody a id statements) :=
  .bind (.forM fun h _ => hoist_stays hid h) fun _ => reserveAll_stays hid _

theorem declareClass_stays (site : NodeRef) (name : String) (doc : Option DocComment)
    (heritage reportNode : NodeRef) :
    Moves (Stays c cs) (declareClass a site name doc heritage reportNode) :=
  stays_apart (fun _ => rfl) fun _ => rfl

theorem instanceOf_stays (cls : ValueId) : Moves (Stays c cs) (instanceOf cls) :=
  stays_apart (fun _ => rfl) fun _ => rfl

theorem aliasFor_stays (doc : DocComment) (name : Atom) :
    Moves (Stays c cs) (aliasFor doc name) := stays_apart (fun _ => rfl) fun _ => rfl

theorem bindClassType_stays (node : NodeRef) (cls : ValueId) :
    Moves (Stays c cs) (bindClassType a node cls) := by
  have hdeclare (nameNode : NodeRef) (id : ScopeId) (hid : id ∈ cs) : Moves (Stays c cs) (do
      declareType a id nameNode (← instanceOf cls) : Bind Unit) :=
    .bind (instanceOf_stays cls) fun _ => declareType_stays hid _ _
  unfold bindClassType classBindingSite
  split
  · exact .pure _
  · exact functionScope_bind fun id hid => hdeclare _ id hid
  · exact lexicalScope_bind fun id hid => hdeclare _ id hid
  · dsimp only
    split
    · exact declarationScope_bind _ fun id hid => hdeclare _ id hid
    · exact .pure _

/-! ## References -/

theorem bindReference_stays (node : NodeRef) (target : ValueId) (assigned : NodeRef) :
    Moves (Stays c cs) (bindReference node target assigned) := by
  refine .bind (setValue_stays _ _) fun _ => .bind (modifyValues_stays _) fun _ => ?_
  exact .ite (fun _ => modifyValues_stays _) fun _ => .pure _

theorem park_stays (hid : id ∈ cs) (p : Parked) : Moves (Stays c cs) (park id p) :=
  addEntry_stays hid (.parked p)

theorem visitIdentifier_stays (node assigned : NodeRef) :
    Moves (Stays c cs) (visitIdentifier a node assigned) := by
  refine get_bind_stays fun b hb => ?_
  dsimp only
  split
  · exact .bind (bindReference_stays _ _ _) fun _ => .pure _
  · next id hlookup =>
    exact .bind (park_stays (hb.declaredVariable_mem hlookup) _) fun _ => .pure _
  · refine .ite (fun _ => .bind (setValue_stays _ _) fun _ => .pure _) fun _ => ?_
    refine .ite (fun _ => .pure _) fun _ => ?_
    exact .bind (park_stays (hb.current ▸ hb.mem_current) _) fun _ => .pure _

theorem visitMember_stays (n : Nat) (object : ValueId) (create : Bool) :
    Moves (Stays c cs) (visitMember a n object create) := by
  refine get_bind_stays fun b _ => ?_
  dsimp only
  refine .ite (fun _ => ?_) fun _ => ?_
  · refine .bind (onValues_stays _) fun _ => .bind (setValue_stays _ _) fun _ => ?_
    exact .bind (setValue_stays _ _) fun _ => .pure _
  · split
    · exact .pure _
    · refine .bind (setValue_stays _ _) fun _ => .bind (setValue_stays _ _) fun _ => ?_
      exact .bind (modifyValues_stays _) fun _ => .pure _

theorem visitPath_stays (r : NodeRef) (create : Bool) :
    Moves (Stays c cs) (visitPath a r create) := by
  fun_induction visitPath a r create with
  | case1 | case2 | case5 | case6 => exact .pure _
  | case3 => exact .bind (visitIdentifier_stays _ _) fun _ => .pure _
  | case4 create n _ ih =>
    refine .bind ih fun found => ?_
    obtain ⟨object?, works⟩ := found
    cases object? with
    | none => exact .pure _
    | some object => exact .bind (visitMember_stays _ _ _) fun _ => .pure _

theorem visitTypeName_stays (n : Nat) : Moves (Stays c cs) (visitTypeName a n) := by
  unfold visitTypeName
  dsimp only
  split
  · refine .ite (fun _ => .pure _) fun _ => get_bind_stays fun b hb => ?_
    split
    · exact setType_stays _ _
    · next id hlookup => exact park_stays (hb.declaredType_mem hlookup) _
    · exact park_stays (hb.current ▸ hb.mem_current) _
  · exact .ite (fun _ => (visitIdentifier_stays _ _).discard) fun _ => .pure _
  · exact .pure _

theorem visitTypeNames_stays (document : NodeRef) :
    Moves (Stays c cs) (visitTypeNames a document) := .forM fun n _ => visitTypeName_stays n

/-! ## Visits -/

/-- A visit of a node stays in the current scope, or opens a scope of a kind in it that is to be
closed after everything else that the visit asks for. -/
def StaysOrOpens (n : Nat) (kind : ScopeKind) (c : ScopeId) (cs : List ScopeId)
    (m : Bind (List Work)) : Prop :=
  ∀ b, b.On c cs → b.Writes (m b).2 ∧
    ((m b).2.On c cs ∧ b.analysis.scopes.SameSites (m b).2.analysis.scopes ∧ Below n (m b).1 ∨
      ∃ s, (m b).2.On s (s :: cs) ∧
        b.analysis.scopes.OpensAt s ⟨kind, some n⟩ (m b).2.analysis.scopes ∧
        ∃ works, Below n works ∧ (m b).1 = works ++ [.exitScope])

namespace StaysOrOpens

variable {n : Nat} {kind : ScopeKind}

theorem stay {m : Bind (List Work)} (hm : Moves (Stays c cs) m) (hworks : Yields (Below n) m) :
    StaysOrOpens n kind c cs m := by
  intro b hb
  obtain ⟨hb', hwrites, hsites⟩ := hm b hb
  exact ⟨hwrites, .inl ⟨hb', hsites, hworks b⟩⟩

/-- A step that stays, and a visit after it. -/
theorem bind {α : Type} {m : Bind α} {f : α → Bind (List Work)} (hm : Moves (Stays c cs) m)
    (hf : ∀ x, StaysOrOpens n kind c cs (f x)) : StaysOrOpens n kind c cs (m >>= f) := by
  intro b hb
  obtain ⟨hb', hwrites, hsites⟩ := hm b hb
  obtain ⟨hwrites', ⟨hon, hsites', hworks⟩ | ⟨s, hon, hopens, hworks⟩⟩ := hf (m b).1 (m b).2 hb'
  · exact ⟨hwrites.trans hwrites', .inl ⟨hon, hsites.trans hsites', hworks⟩⟩
  · exact ⟨hwrites.trans hwrites', .inr ⟨s, hon, hopens.after hsites, hworks⟩⟩

theorem get_bind {f : Binder → Bind (List Work)}
    (h : ∀ b, b.On c cs → StaysOrOpens n kind c cs (f b)) : StaysOrOpens n kind c cs (get >>= f) :=
  fun b hb => h b hb b hb

theorem ite {p : Prop} [Decidable p] {m m' : Bind (List Work)} (h : p → StaysOrOpens n kind c cs m)
    (h' : ¬p → StaysOrOpens n kind c cs m') : StaysOrOpens n kind c cs (if p then m else m') := by
  split
  · exact h ‹_›
  · exact h' ‹_›

theorem functionScope {f : ScopeId → Bind (List Work)}
    (h : ∀ id ∈ cs, StaysOrOpens n kind c cs (f id)) :
    StaysOrOpens n kind c cs (Binder.functionScope >>= f) := fun b hb => h _ (hb.nearest_mem _) b hb

theorem lexicalScope {f : ScopeId → Bind (List Work)}
    (h : ∀ id ∈ cs, StaysOrOpens n kind c cs (f id)) :
    StaysOrOpens n kind c cs (Binder.lexicalScope >>= f) := fun b hb => h _ (hb.nearest_mem _) b hb

/-- Opening a scope, and steps in it that ask for it to be closed in the end. -/
theorem enterScope {f : ScopeId → Bind (List Work)} (hstays : ∀ s, Moves (Stays s (s :: cs)) (f s))
    (hworks : ∀ s, Yields (fun works => ∃ rest, Below n rest ∧ works = rest ++
      [.exitScope]) (f s)) :
    StaysOrOpens n kind c cs (Binder.enterScope kind (some n) >>= f) := by
  intro b hb
  obtain ⟨s, hs, hopened⟩ := hb.enterScope kind (some n)
  obtain ⟨hb', hwrites, hsites⟩ := hstays s _ hopened
  have hopens : b.analysis.scopes.OpensAt s ⟨kind, some n⟩
      (Binder.enterScope kind (some n) b).2.analysis.scopes :=
    hs ▸ ScopeTree.opensAt_push _ { kind, node := some n, outer := some b.current }
  rw [run_bind, hs]
  exact ⟨(enterScope_writes kind (some n) b).trans hwrites,
    .inr ⟨s, hb', hopens.before hsites, hworks s _⟩⟩

end StaysOrOpens

/-- Work with the closing of a scope after it. -/
theorem ends_with_exit {n : Nat} {works : List Work} (h : Below n works) :
    ∃ rest, Below n rest ∧ works ++ [.exitScope] = rest ++ [.exitScope] := ⟨works, h, rfl⟩

/-! ### Functions -/

theorem declareParameter_stays (hid : id ∈ cs) (param : NodeRef) :
    Moves (Stays c cs) (declareParameter a id param) := by
  unfold declareParameter
  split
  · exact .bind (declareVariable_stays hid _).discard fun _ => .pure _
  · refine .bind (declareVariable_stays hid _) fun _ => ?_
    split
    · exact .pure _
    · exact .bind (modifyValues_stays _) fun _ => .pure _
  · exact .bind (declareVariable_stays hid _).discard fun _ => .pure _
  · exact .pure _

theorem enterBody_stays (params body : NodeRef) : Moves (Stays c cs) (enterBody a params body) := by
  refine get_bind_stays fun b hb => ?_
  have hid : b.current ∈ cs := hb.current ▸ hb.mem_current
  refine .bind (.mapM fun param _ => declareParameter_stays hid param) fun _ => ?_
  exact .ite (fun _ => .bind (openBody_stays hid _) fun _ => .pure _) fun _ => .pure _

theorem createFunction_stays (n : Nat) : Moves (Stays c cs) (createFunction a n) := by
  have hplain : Moves (Stays c cs) (do
      Analysis.setValue (some n) (← Analysis.onValues (·.newFunction (some n))) : Bind Unit) :=
    .bind (onValues_stays _) fun _ => setValue_stays _ _
  refine get_bind_stays fun b _ => ?_
  split
  · refine .ite (fun _ => ?_) fun _ => hplain
    exact .bind (declareClass_stays _ _ _ _ _) fun _ => bindClassType_stays _ _
  · exact hplain

theorem finishFunction_opens (n : Nat) (kind : NodeKind) :
    StaysOrOpens n .function c cs (finishFunction a n kind) := by
  have hparts (i j : Nat) := enterBody_asks (a := a) (a.rank_child_lt n i) (a.rank_child_lt n j)
  have hbody {s : ScopeId} {cs : List ScopeId} : Moves (Stays s cs) (do
      let works ←
        if kind = .arrowFunction then enterBody a (a.child (some n) 0) (a.child (some n) 1)
        else enterBody a (a.child (some n) 1) (a.child (some n) 2)
      return works ++ [Work.exitScope]) := by
    split
    · exact .bind (enterBody_stays _ _) fun _ => .pure _
    · exact .bind (enterBody_stays _ _) fun _ => .pure _
  have hworks : Yields (fun works => ∃ rest, Below n rest ∧ works = rest ++ [.exitScope]) (do
      let works ←
        if kind = .arrowFunction then enterBody a (a.child (some n) 0) (a.child (some n) 1)
        else enterBody a (a.child (some n) 1) (a.child (some n) 2)
      return works ++ [Work.exitScope]) := by
    split
    · exact .bind (hparts 0 1) fun _ hworks => .pure (ends_with_exit hworks)
    · exact .bind (hparts 1 2) fun _ hworks => .pure (ends_with_exit hworks)
  refine .enterScope (fun s => .ite (fun _ => ?_) fun _ => hbody) fun s =>
    .ite (fun _ => ?_) fun _ => hworks
  · refine .bind (declareVariable_stays List.mem_cons_self _) fun _ => ?_
    exact .bind (modifyValues_stays _) fun _ => hbody
  · exact .after fun _ => .after fun _ => hworks

theorem visitFunction_opens (n : Nat) (kind : NodeKind) :
    StaysOrOpens n .function c cs (visitFunction a n kind) := by
  have hname : StaysOrOpens n .function c cs (do
      let name := a.child (some n) 0
      if kind = .functionDeclaration && name.isSome then
        if ((← get).analysis.valueOf? name).isNone then
          let variableId ← declareVariable a (← functionScope) name
          Analysis.modifyValues (·.addWrite variableId (some n))
      finishFunction a n kind) := by
    have hrest : StaysOrOpens n .function c cs (finishFunction a n kind) :=
      finishFunction_opens n kind
    refine .ite (fun _ => .get_bind fun b hb => .ite (fun _ => ?_) fun _ => hrest) fun _ => hrest
    refine .functionScope fun id hid => .bind (declareVariable_stays hid _) fun _ => ?_
    exact .bind (modifyValues_stays _) fun _ => hrest
  refine .get_bind fun b _ => .ite (fun _ => ?_) fun _ => hname
  exact .bind (createFunction_stays n) fun _ => hname

theorem finishMethod_opens (n : Nat) : StaysOrOpens n .function c cs (finishMethod a n) := by
  show StaysOrOpens n .function c cs (enterScope .function (some n) >>= fun _ => do
    return (← enterBody a (a.child (some n) 1) (a.child (some n) 2)) ++ [.exitScope])
  refine .enterScope (fun s => .bind (enterBody_stays _ _) fun _ => .pure _) fun s => ?_
  refine .bind (enterBody_asks (a.rank_child_lt n 1) (a.rank_child_lt n 2)) fun works hworks => ?_
  exact .pure (ends_with_exit hworks)

theorem visitMethod_opens (n : Nat) : StaysOrOpens n .function c cs (visitMethod a n) := by
  have hrest : StaysOrOpens n .function c cs (finishMethod a n) := finishMethod_opens n
  refine .bind (onValues_stays _) fun _ => .bind (setValue_stays _ _) fun _ =>
    .get_bind fun b _ => ?_
  dsimp only
  split
  · exact hrest
  · split
    · exact hrest
    · refine .bind (onValues_stays _) fun _ => .bind (setValue_stays _ _) fun _ => ?_
      exact .bind (modifyValues_stays _) fun _ => hrest

/-! ### Classes -/

theorem declareClassName_stays (hid : id ∈ cs) (n : Nat) (name : NodeRef) (cls : ValueId) :
    Moves (Stays c cs) (declareClassName a id n name cls) := by
  refine .bind (declareVariable_stays hid _) fun _ => .bind (modifyValues_stays _) fun _ => ?_
  exact .bind (instanceOf_stays cls) fun _ => declareType_stays hid _ _

theorem visitClass_opens (n : Nat) : StaysOrOpens n .block c cs (visitClass a n) := by
  have hinner : Below n (Work.visit? (a.child (some n) 1) ++
    Work.children a (a.child (some n) 2)) :=
    below_append (below_visit?_child 1) (below_children_child 2)
  have hstay {m : Bind Unit} (hm : Moves (Stays c cs) m) : StaysOrOpens n .block c cs (do
      m
      return Work.visit? (a.child (some n) 1) ++ Work.children a (a.child (some n) 2)) :=
    .stay (.bind hm fun _ => .pure _) (.after fun _ => .pure hinner)
  refine .get_bind fun b _ => .bind (declareClass_stays _ _ _ _ _) fun cls => ?_
  refine .ite (fun _ => .ite (fun _ => ?_) fun _ => hstay (.pure ())) fun _ => ?_
  · exact .lexicalScope fun id hid => hstay (declareClassName_stays hid _ _ _)
  · refine .bind (bindClassType_stays _ _) fun _ => .ite (fun _ => ?_) fun _ => hstay (.pure ())
    refine .enterScope (fun s => ?_) fun s => .after fun _ => .pure (ends_with_exit hinner)
    exact .bind (declareClassName_stays List.mem_cons_self _ _ _) fun _ => .pure _

/-! ### Statements -/

theorem declareAnnotated_stays (hid : id ∈ cs) (doc : DocComment) (declaration : NodeRef)
    (v : ValueId) : Moves (Stays c cs) (declareAnnotated a doc id declaration v) := by
  refine .ite (fun _ => .ite (fun _ => ?_) fun _ => .pure _) fun _ =>
    .ite (fun _ => ?_) fun _ => .pure _
  · refine .bind (declareClass_stays _ _ _ _ _) fun _ => .bind (modifyValues_stays _) fun _ => ?_
    exact .bind (instanceOf_stays _) fun _ => declareType_stays hid _ _
  · exact .bind (aliasFor_stays _ _) fun _ => declareType_stays hid _ _

theorem annotatedVariable_stays (hid : id ∈ cs) (doc : Option DocComment) (declaration : NodeRef)
    (v : ValueId) : Moves (Stays c cs) (do
      match doc with
      | some x => declareAnnotated a x id declaration v
      | none => pure ()
      let init := a.child declaration 1
      if init.isSome then Analysis.modifyValues (·.addWrite v init)
      return (Work.visit? init, ([] : List Work)) : Bind (List Work × List Work)) := by
  have hwritten : Moves (Stays c cs) (do
      let init := a.child declaration 1
      if init.isSome then Analysis.modifyValues (·.addWrite v init)
      return (Work.visit? init, ([] : List Work)) : Bind (List Work × List Work)) :=
    .ite (fun _ => .bind (modifyValues_stays _) fun _ => .pure _) fun _ => .pure _
  cases doc with
  | none => exact hwritten
  | some doc => exact .bind (declareAnnotated_stays hid _ _ _) fun _ => hwritten

theorem visitDeclaration_stays (hid : id ∈ cs) (doc : Option DocComment) (declaration : NodeRef) :
    Moves (Stays c cs) (visitDeclaration a id doc declaration) := by
  have hannotated := annotatedVariable_stays (a := a) (c := c) hid doc declaration
  refine .ite (fun _ => .pure _) fun _ => get_bind_stays fun b _ => ?_
  dsimp only
  split
  · exact hannotated _
  · exact .bind (declareVariable_stays hid _) fun _ => hannotated _

theorem visitDeclarations_stays (n : Nat) : Moves (Stays c cs) (visitDeclarations a n) := by
  refine declarationScope_bind _ fun id hid => get_bind_stays fun b _ => ?_
  exact .bind (.mapM fun declaration _ => visitDeclaration_stays hid _ declaration) fun _ => .pure _

theorem keepComment_stays (target : NodeRef) (doc : DocComment) :
    Moves (Stays c cs) (modify fun b => { b with comments := b.comments.insert target doc } :
      Bind Unit) := stays_apart (fun _ => rfl) fun _ => rfl

/-- The names of `@template` tags are bound in the scope around a statement. -/
theorem declareTemplate_stays (hid : id ∈ cs) (name : Nat) : Moves (Stays c cs) (do
    let t ← Analysis.onTypes (·.parameter (a.atom (some name)) (some name))
    Analysis.setType (some name) t
    declareType a id (some name) t : Bind Unit) := by
  refine .bind (onTypes_stays _) fun _ => .bind (setType_stays _ _) fun _ => ?_
  exact declareType_stays hid _ _

theorem visitAnnotated_opens (n : Nat) :
    StaysOrOpens n .typeParameters c cs (visitAnnotated a n) := by
  have hwork : Below n (.typeNames (a.child (some n) 0) :: Work.visit? (a.child (some n) 1)) := by
    refine List.forall_mem_cons.2 ⟨⟨nofun, Nat.succ_pos n⟩, below_visit?_child 1⟩
  have hopened (doc : DocComment) : StaysOrOpens n .typeParameters c cs (do
      let generic := !doc.typeParameters.isEmpty
      if generic then
        let id ← enterScope .typeParameters (some n)
        doc.typeParameters.forM fun name => do
          let t ← Analysis.onTypes (·.parameter (a.atom (some name)) (some name))
          Analysis.setType (some name) t
          declareType a id (some name) t
      modify fun b => { b with comments := b.comments.insert (a.child (some n) 1) doc }
      return .typeNames (a.child (some n) 0) ::
        (Work.visit? (a.child (some n) 1) ++ if generic then [.exitScope] else [])) := by
    dsimp only
    split
    · refine .enterScope (fun s => ?_) fun s => ?_
      · refine .bind (.forM fun name _ => declareTemplate_stays List.mem_cons_self name) fun _ => ?_
        exact .bind (keepComment_stays _ _) fun _ => .pure _
      · exact .after fun _ => .after fun _ => .pure ⟨_, hwork, rfl⟩
    · refine .stay (.bind (keepComment_stays _ _) fun _ => .pure _) (.after fun _ => .pure ?_)
      rw [List.append_nil]
      exact hwork
  refine .get_bind fun b _ => ?_
  generalize DocComment.compile a (a.child (some n) 0) (a.child (some n) 1)
    (some b.analysis.diagnostics) = compiled
  obtain ⟨doc, sink⟩ := compiled
  refine .bind (stays_apart (fun _ => rfl) fun _ => rfl) fun _ => ?_
  refine .ite (fun _ => ?_) fun _ => hopened doc
  exact .bind (reportAt_stays _ _) fun _ => hopened doc

theorem visitExpressionStatement_stays (n : Nat) :
    Moves (Stays c cs) (visitExpressionStatement a n) := by
  refine get_bind_stays fun b _ => ?_
  dsimp only
  split
  · exact .pure _
  · refine .ite (fun _ => .pure _) fun _ => .bind (visitPath_stays _ _) fun found => ?_
    obtain ⟨property?, works⟩ := found
    dsimp only
    split
    · exact .pure _
    · refine .ite (fun _ => ?_) fun _ => .ite (fun _ => ?_) fun _ => .pure _
      · exact .bind (declareClass_stays _ _ _ _ _).discard fun _ =>
          .bind (modifyValues_stays _) fun _ => .pure _
      · exact .bind (aliasFor_stays _ _) fun _ => .bind (nameType_stays _ _) fun _ => .pure _

/-! ### Expressions -/

theorem nameMemberType_stays (n : Nat) (property : ValueId) :
    Moves (Stays c cs) (nameMemberType a n property) := by
  refine .ite (fun _ => .pure _) fun _ => get_bind_stays fun b _ => ?_
  split
  · refine .ite (fun _ => ?_) fun _ => .pure _
    exact .bind (aliasFor_stays _ _) fun _ => nameType_stays _ _
  · exact .pure _

theorem visitAssignment_stays (n : Nat) : Moves (Stays c cs) (visitAssignment a n) := by
  unfold visitAssignment
  dsimp only
  split
  · exact .pure _
  · exact .bind (visitIdentifier_stays _ _).discard fun _ => .pure _
  · refine .bind (visitPath_stays _ _) fun found => ?_
    obtain ⟨property?, works⟩ := found
    cases property? with
    | none => exact .pure _
    | some property =>
      have hlast : Moves (Stays c cs) (do
          nameMemberType a n property
          return works ++ Work.visit? (a.child (some n) 1)) :=
        .bind (nameMemberType_stays _ _) fun _ => .pure _
      exact .ite (fun _ => .bind (modifyValues_stays _) fun _ => hlast) fun _ => hlast
  · refine .bind (visitPath_stays _ _) fun found => ?_
    obtain ⟨object?, works⟩ := found
    dsimp only
    split
    · refine get_bind_stays fun b _ => ?_
      refine .bind (onValues_stays _) fun _ => .bind (setValue_stays _ _) fun _ => ?_
      exact .ite (fun _ => .bind (modifyValues_stays _) fun _ => .pure _) fun _ => .pure _
    · exact .pure _
  · exact .pure _

theorem visitProperty_stays (n : Nat) : Moves (Stays c cs) (visitProperty a n) := by
  refine get_bind_stays fun b _ => ?_
  dsimp only
  split
  · exact .pure _
  · split
    · refine .bind (onValues_stays _) fun _ => .bind (setValue_stays _ _) fun _ => ?_
      exact .ite (fun _ => .bind (modifyValues_stays _) fun _ => .pure _) fun _ => .pure _
    · exact .ite (fun _ => .pure _) fun _ => .pure _

/-! ### Blocks and loops -/

theorem visitBlock_opens (n : Nat) : StaysOrOpens n .block c cs (visitBlock a n) := by
  refine .enterScope (fun s => ?_) fun s => .after fun _ =>
    .pure (ends_with_exit below_children_self)
  exact .bind (reserveAll_stays List.mem_cons_self _) fun _ => .pure _

theorem visitCatch_opens (n : Nat) : StaysOrOpens n .catchClause c cs (visitCatch a n) := by
  have hexit := ends_with_exit (below_visit?_child (a := a) (n := n) 1)
  refine .enterScope (fun s => .ite (fun _ => ?_) fun _ => .pure _) fun s =>
    .ite (fun _ => .after fun _ => .pure hexit) fun _ => .pure hexit
  exact .bind (declareVariable_stays List.mem_cons_self _).discard fun _ => .pure _

theorem visitFor_opens (n : Nat) : StaysOrOpens n .forHead c cs (visitFor a n) := by
  refine .ite (fun _ => ?_) fun _ => .stay (.pure _) (.pure below_children_self)
  refine .enterScope (fun s => ?_) fun s => .after fun _ =>
    .pure (ends_with_exit below_children_self)
  exact .bind (reserveAll_stays List.mem_cons_self _) fun _ => .pure _

/-- **One visit.** It stays in the current scope, or opens one scope in it and asks for that to
be closed after everything else; all its entries go to scopes on the chain. -/
theorem visit_opens (n : Nat) : StaysOrOpens n (a.scopeKind n) c cs (visit a n) := by
  have hchildren {kind : ScopeKind} : StaysOrOpens n kind c cs (pure (Work.children a (some n))) :=
    .stay (.pure _) (.pure below_children_self)
  have hnothing {kind : ScopeKind} : StaysOrOpens n kind c cs (pure []) :=
    .stay (.pure _) (.pure below_nil)
  unfold visit Arena.scopeKind
  split
  · exact hnothing
  · next kind hkind =>
    rw [hkind, Option.map_some, Option.getD_some]
    split
    · exact visitAnnotated_opens n
    · exact .stay (visitDeclarations_stays n) (visitDeclarations_asks n)
    · exact visitFunction_opens n _
    · exact visitFunction_opens n _
    · exact visitFunction_opens n _
    · exact visitMethod_opens n
    · exact visitClass_opens n
    · exact visitClass_opens n
    · exact visitBlock_opens n
    · exact visitCatch_opens n
    · exact visitFor_opens n
    · exact visitFor_opens n
    · exact visitFor_opens n
    · exact .stay (visitExpressionStatement_stays n) (visitExpressionStatement_asks n)
    · exact .stay (visitAssignment_stays n) (visitAssignment_asks n)
    · exact .bind (visitIdentifier_stays _ _).discard fun _ => hnothing
    · refine .stay (.bind (visitPath_stays _ _) fun _ => .pure _) ?_
      exact .bind (visitPath_asks_self hkind false) fun _ hfound => .pure hfound
    · exact .bind (onValues_stays _) fun _ => .bind (setValue_stays _ _) fun _ => hchildren
    · exact .stay (visitProperty_stays n) (visitProperty_asks n)
    all_goals first
      | exact hnothing
      | exact .ite (fun _ => hnothing) fun _ => hchildren

end Binder

end DocTypes
