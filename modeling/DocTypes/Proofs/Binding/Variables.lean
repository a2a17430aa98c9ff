import DocTypes.Proofs.Binding.Hoists
import DocTypes.Proofs.Lifecycle.Visits
import DocTypes.Proofs.Nodes.Types

/-!
# Names that have variables

When a body opens, the names that its statements hoist get variables in the scope of the body, and
no other name gets one, no other scope, no other node (`Binder.openBody_introduces`). From then on
these names have their variables, whatever the walk does (`Analysis.HasVariable.of_changes`). So a
visit that declares a name only if it has none leaves the scopes that are there as they are
(`Binder.visit_sameVars`).

## Main statements

* `Binder.openBody_introduces`: what is declared when a body opens.
* `Binder.visit_opensBody`: a visit of a function.
* `Binder.visit_sameVars`: a visit of a declaration whose names have variables.
-/

namespace DocTypes

open Relation

/-! ## Variables of an analysis -/

namespace Analysis

/-- What a name stands for in a scope. -/
def boundIn? (x : Analysis) (s : ScopeId) (name : Atom) : Option (Binding ValueId) :=
  (x.scopes.get? s).bind (·.boundVariable? name)

/-- A name has a variable, and a scope binds it. -/
structure HasVariable (a : Arena) (s : ScopeId) (n : Nat) (x : Analysis) : Prop where
  entered : (x.valueOf? (some n)).isSome
  bound : (x.boundIn? s (a.atom (some n))).isSome

variable {a : Arena} {x y : Analysis} {s id : ScopeId} {name : Atom} {n : Nat}

/-- A change of a scope in which its bindings stay. -/
theorem boundIn?_withScope {f : Scope → Scope} (hf : ∀ scope, (f scope).vars = scope.vars) :
    (x.withScope id f).boundIn? s name = x.boundIn? s name := by
  have hget : (x.withScope id f).scopes.get? s = _ := ScopeTree.get?_update _ _ _ _
  rw [boundIn?, boundIn?, hget]
  split
  · cases x.scopes.get? s with
    | none => rfl
    | some scope => exact congrArg (List.lookup name) (hf scope)
  · rfl

/-- One more name is bound in a scope that is there. -/
theorem boundIn?_insertVariable {other : Atom} {binding : Binding ValueId}
    (hid : (x.scopes.get? id).isSome) :
    (x.withScope id (Scope.insertVariable other binding)).boundIn? s name =
      if s = id ∧ name = other then (x.boundIn? id other).or (some binding)
      else x.boundIn? s name := by
  obtain ⟨scope, hscope⟩ := Option.isSome_iff_exists.1 hid
  have hget : (x.withScope id (Scope.insertVariable other binding)).scopes.get? s = _ :=
    ScopeTree.get?_update _ _ _ _
  by_cases hs : s = id
  · subst hs
    rw [boundIn?, boundIn?, boundIn?, hget, if_pos rfl, hscope]
    show (scope.vars.insert other binding).lookup name = _
    rw [Bindings.lookup_insert]
    simp only [true_and]
    rfl
  · rw [boundIn?, hget, if_neg (Ne.symm hs), if_neg fun h => hs h.1]
    rfl

/-! ### What is bound stays bound -/

theorem Change.boundIn (h : Change x y) (hs : (x.boundIn? s name).isSome) :
    (y.boundIn? s name).isSome := by
  have hkeep (id : ScopeId) (f : Scope → Scope) (hf : ∀ scope, (f scope).vars = scope.vars) :
      ((x.withScope id f).boundIn? s name).isSome := by
    rw [boundIn?_withScope hf]
    exact hs
  cases h with
  | openScope kind node outer _ =>
    obtain ⟨binding, hbinding⟩ := Option.isSome_iff_exists.1 hs
    obtain ⟨scope, hscope, hbound⟩ := Option.bind_eq_some_iff.1 hbinding
    rw [boundIn?, ScopeTree.get?_push_of_some _ hscope, Option.bind_some, hbound]
    rfl
  | reserve id space other _ =>
    refine hkeep id (Scope.reserve space other) fun scope => ?_
    unfold Scope.reserve
    split <;> rfl
  | bindVariable id other binding hid _ =>
    rw [boundIn?_insertVariable hid.isSome]
    split
    · rw [Option.isSome_or]
      exact Bool.or_true _
    · exact hs
  | bindType id other binding _ _ => exact hkeep id (Scope.insertType other binding) fun _ => rfl
  | park id p _ => exact hkeep id (Scope.park p) fun _ => rfl
  | suspend id _ => exact hkeep id _ fun _ => rfl
  | close id _ => exact hkeep id _ fun _ => rfl
  | _ => exact hs

/-- A name that has a variable keeps it. -/
theorem HasVariable.of_changes (hx : HasVariable a s n x) (h : ReflTransGen Change x y) :
    HasVariable a s n y := by
  refine ⟨bound_of_changes h hx.entered, ?_⟩
  induction h with
  | refl => exact hx.bound
  | tail _ hstep ih => exact hstep.boundIn ih

end Analysis

namespace Binder

open Analysis

variable {a : Arena} {root : NodeRef} {id : ScopeId} {names names' : List Nat} {b b' b'' : Binder}

/-! ## What a body introduces -/

/-- Names get variables in a scope, and nothing else does. -/
structure Introduces (a : Arena) (id : ScopeId) (names : List Nat) (b b' : Binder) : Prop where
  sites : b.analysis.scopes.SameSites b'.analysis.scopes
  /-- The scope binds what it bound, and the names. -/
  bound : ∀ name, (b'.analysis.boundIn? id name).isSome ↔
    (b.analysis.boundIn? id name).isSome ∨ ∃ n ∈ names, a.atom (some n) = name
  /-- What was bound stands for the same variable. -/
  kept : ∀ name binding, b.analysis.boundIn? id name = some binding →
    b'.analysis.boundIn? id name = some binding
  /-- The other scopes bind what they bound. -/
  apart : ∀ s name, s ≠ id → b'.analysis.boundIn? s name = b.analysis.boundIn? s name
  /-- A name is entered with the variable that it stands for. -/
  entered : ∀ n ∈ names, ∃ binding, b'.analysis.boundIn? id (a.atom (some n)) = some binding ∧
    b'.analysis.valueOf? (some n) = some binding.target
  /-- No other node is entered. -/
  others : ∀ r, (∀ n ∈ names, r ≠ some n) → b'.analysis.valueOf? r = b.analysis.valueOf? r

namespace Introduces

/-- A step that binds no name and enters no node. -/
theorem nothing (hsites : b.analysis.scopes.SameSites b'.analysis.scopes)
    (hbound : ∀ s name, b'.analysis.boundIn? s name = b.analysis.boundIn? s name)
    (hvalues : ∀ r, b'.analysis.valueOf? r = b.analysis.valueOf? r) : Introduces a id [] b b' where
  sites := hsites
  bound name := by
    rw [hbound]
    simp
  kept name binding h := (hbound id name).trans h
  apart s name _ := hbound s name
  entered n hn := (List.not_mem_nil hn).elim
  others r _ := hvalues r

theorem trans (h : Introduces a id names b b') (h' : Introduces a id names' b' b'') :
    Introduces a id (names ++ names') b b'' where
  sites := h.sites.trans h'.sites
  bound name := by
    rw [h'.bound, h.bound, or_assoc]
    simp only [List.mem_append, or_and_right, exists_or]
  kept name binding hbinding := h'.kept name binding (h.kept name binding hbinding)
  apart s name hs := (h'.apart s name hs).trans (h.apart s name hs)
  entered n hn := by
    by_cases hlater : n ∈ names'
    · exact h'.entered n hlater
    · obtain ⟨binding, hbinding, hvalue⟩ :=
        h.entered n ((List.mem_append.1 hn).resolve_right hlater)
      refine ⟨binding, h'.kept _ _ hbinding, (h'.others _ fun m hm heq => ?_).trans hvalue⟩
      cases heq
      exact hlater hm
  others r hr := by
    refine (h'.others r fun n hn => ?_).trans (h.others r fun n hn => ?_)
    · exact hr n (List.mem_append_right _ hn)
    · exact hr n (List.mem_append_left _ hn)

theorem hasVariable (h : Introduces a id names b b') {n : Nat} (hn : n ∈ names) :
    HasVariable a id n b'.analysis := by
  obtain ⟨binding, hbinding, hvalue⟩ := h.entered n hn
  exact ⟨Option.isSome_of_eq_some hvalue, Option.isSome_of_eq_some hbinding⟩

end Introduces

theorem addWrite_introduces (v : ValueId) (node : NodeRef) (b : Binder) :
    Introduces a id [] b (Bind.onAnalysis (Analysis.modifyValues (·.addWrite v node)) b).2 :=
  .nothing (.refl _) (fun _ _ => rfl) fun _ => rfl

theorem reserve_introduces (other : ScopeId) (space : Namespace) (name : Atom) (b : Binder) :
    Introduces a id [] b (updateScope other (Scope.reserve space name) b).2 := by
  have hreserve : ∀ scope, (Scope.reserve space name scope).site = scope.site ∧
      (Scope.reserve space name scope).vars = scope.vars := by
    intro scope
    unfold Scope.reserve
    split <;> exact ⟨rfl, rfl⟩
  refine .nothing (ScopeTree.sameSites_update _ _ fun scope => (hreserve scope).1) ?_ fun _ => rfl
  exact fun s name => boundIn?_withScope fun scope => (hreserve scope).2

theorem reserveAll_introduces (reserved : List (Namespace × Atom)) (b : Binder) :
    Introduces a id [] b (reserveAll id reserved b).2 := by
  induction reserved generalizing b with
  | nil => exact .nothing (.refl _) (fun _ _ => rfl) fun _ => rfl
  | cons first rest ih => exact (reserve_introduces id first.1 first.2 b).trans (ih _)

/-- A name is declared: it stands for a new variable, or for the one that its scope binds. -/
theorem declareVariable_introduces (hid : (b.analysis.scopes.get? id).isSome) (n : Nat) :
    Introduces a id [n] b (declareVariable a id (some n) b).2 := by
  have hothers (x : Analysis) (v : ValueId) (hx : x.valueTable =
    b.analysis.valueTable) (r : NodeRef)
      (hr : ∀ m ∈ [n], r ≠ some m) :
      (x.valueTable.insert (some n) v).get? r = b.analysis.valueOf? r := by
    rw [NodeTable.get?_insert, if_neg (hr n (List.mem_singleton_self n)).symm, hx]
    rfl
  have hself (table : NodeTable ValueId) (v : ValueId) :
      (table.insert (some n) v).get? (some n) = some v := by
    rw [NodeTable.get?_insert, if_pos rfl]
  unfold declareVariable
  rw [run_bind, run_get]
  cases hbound : (b.analysis.scopes.get? id).bind (·.boundVariable? (a.atom (some n))) with
  | some existing =>
    have hexisting : b.analysis.boundIn? id (a.atom (some n)) = some existing := hbound
    refine
      { sites := .refl _
        bound := fun name => ⟨.inl, fun h => h.elim (fun h => h) fun ⟨m, hm, hname⟩ => ?_⟩
        kept := fun name binding h => h
        apart := fun s name _ => rfl
        entered := fun m hm => ?_
        others := fun r hr => hothers _ existing.target rfl r hr }
    · cases List.mem_singleton.1 hm
      exact Option.isSome_of_eq_some (hname ▸ hexisting)
    · cases List.mem_singleton.1 hm
      exact ⟨existing, hexisting, hself _ _⟩
  | none =>
    have hnone : b.analysis.boundIn? id (a.atom (some n)) = none := hbound
    let v := (b.analysis.store.values.newVariable (some n) (a.atom (some n))).1
    let made := (Bind.onAnalysis (Analysis.onValues (·.newVariable (some n) (a.atom (some n)))) b).2
    have hmade (s : ScopeId) (name : Atom) :
        (made.analysis.withScope id
          (Scope.insertVariable (a.atom (some n)) ⟨v, some n⟩)).boundIn? s name
          = if s = id ∧ name = a.atom (some n) then some ⟨v, some n⟩
            else b.analysis.boundIn? s name := by
      refine (boundIn?_insertVariable (x := made.analysis) hid).trans ?_
      have hsame : made.analysis.boundIn? id (a.atom (some n)) = none := hnone
      rw [hsame]
      rfl
    refine
      { sites := ScopeTree.sameSites_update _ _ fun _ => rfl
        bound := fun name => ?_
        kept := fun name binding h => ?_
        apart := fun s name hs => ?_
        entered := fun m hm => ?_
        others := fun r hr => hothers made.analysis v rfl r hr }
    · refine (iff_of_eq (congrArg (fun binding => binding.isSome = true) (hmade id name))).trans ?_
      by_cases hname : name = a.atom (some n)
      · simp [hname]
      · simp [hname, Ne.symm hname]
    · refine (hmade id name).trans ?_
      rw [if_neg, h]
      rintro ⟨-, rfl⟩
      rw [hnone] at h
      cases h
    · exact (hmade s name).trans (if_neg fun h => hs h.1)
    · cases List.mem_singleton.1 hm
      exact ⟨⟨v, some n⟩, (hmade id _).trans (if_pos ⟨rfl, rfl⟩), hself _ _⟩

theorem hoist_introduces (hid : (b.analysis.scopes.get? id).isSome) (h : Hoisted) :
    Introduces a id h.name?.toList b (hoist a id h b).2 := by
  cases h with
  | variableName n => exact declareVariable_introduces hid n
  | functionName f n =>
    exact (declareVariable_introduces hid n).trans (addWrite_introduces _ _ _)
  | typeName name => exact reserve_introduces id .type name b

/-- **What a body declares when it opens.** The names that its statements hoist get variables in its
scope. No other scope and no other node is concerned. -/
theorem openBody_introduces (hid : (b.analysis.scopes.get? id).isSome) (statements : List NodeRef) :
    Introduces a id (statements.flatMap a.hoistedNames) b (openBody a id statements b).2 := by
  have hhoisted (xs : List Hoisted) {b : Binder} (hid : (b.analysis.scopes.get? id).isSome) :
      Introduces a id (xs.filterMap Hoisted.name?) b (xs.forM (hoist a id) b).2 := by
    induction xs generalizing b with
    | nil => exact .nothing (.refl _) (fun _ _ => rfl) fun _ => rfl
    | cons x xs ih =>
      have hfirst := hoist_introduces (a := a) hid x
      have hknown := congrArg Option.isSome (hfirst.sites id)
      rw [Option.isSome_map, Option.isSome_map] at hknown
      have hnames : (x :: xs).filterMap Hoisted.name? = x.name?.toList ++
          xs.filterMap Hoisted.name? := by
        cases hname : x.name? <;> simp [hname]
      rw [hnames]
      exact hfirst.trans (ih (hknown.trans hid))
  have hnames : statements.flatMap a.hoistedNames =
      (statements.flatMap a.hoisted).filterMap Hoisted.name? := List.filterMap_flatMap.symm
  rw [hnames, ← List.append_nil (List.filterMap ..)]
  exact (hhoisted _ hid).trans (reserveAll_introduces _ _)

/-! ## Bodies that open -/

/-- A body has just opened: what its statements hoist was declared in a scope. -/
def BodyOpened (a : Arena) (s : ScopeId) (statements : List NodeRef) (b : Binder) : Prop :=
  ∃ before, b = (openBody a s statements before).2 ∧
    Introduces a s (statements.flatMap a.hoistedNames) before b

theorem bodyOpened_openBody (hid : (b.analysis.scopes.get? id).isSome) (statements : List NodeRef) :
    BodyOpened a id statements (openBody a id statements b).2 :=
  ⟨b, rfl, openBody_introduces hid statements⟩

/-- A visit ends with the opening of a body in the scope that the walk is in then. -/
def OpensBody (a : Arena) (statements : List NodeRef) (c : ScopeId) (cs : List ScopeId)
    (m : Bind (List Work)) : Prop :=
  ∀ b, b.On c cs → BodyOpened a (m b).2.current statements (m b).2

namespace OpensBody

variable {c : ScopeId} {cs : List ScopeId} {statements : List NodeRef}

/-- A step that stays in the current scope, and a visit after it. -/
theorem bind {α : Type} {m : Bind α} {f : α → Bind (List Work)} (hm : Moves (Stays c cs) m)
    (hf : ∀ x, OpensBody a statements c cs (f x)) : OpensBody a statements c cs (m >>= f) :=
  fun b hb => hf (m b).1 (m b).2 (hm b hb).1

theorem get_bind {f : Binder → Bind (List Work)}
    (h : ∀ b, b.On c cs → OpensBody a statements c cs (f b)) :
    OpensBody a statements c cs (get >>= f) := fun b hb => h b hb b hb

theorem ite {p : Prop} [Decidable p] {m m' : Bind (List Work)}
    (h : p → OpensBody a statements c cs m) (h' : ¬p → OpensBody a statements c cs m') :
    OpensBody a statements c cs (if p then m else m') := by
  split
  · exact h ‹_›
  · exact h' ‹_›

theorem functionScope {f : ScopeId → Bind (List Work)}
    (h : ∀ id ∈ cs, OpensBody a statements c cs (f id)) :
    OpensBody a statements c cs (Binder.functionScope >>= f) :=
      fun b hb => h _ (hb.nearest_mem _) b hb

theorem andReturn {m : Bind (List Work)} (hm : OpensBody a statements c cs m)
    (f : List Work → List Work) : OpensBody a statements c cs (do return f (← m)) := hm

/-- A scope opens, and the body opens in it. -/
theorem enterScope {kind : ScopeKind} {node : NodeRef} {f : ScopeId → Bind (List Work)}
    (h : ∀ s, OpensBody a statements s (s :: cs) (f s)) :
    OpensBody a statements c cs (Binder.enterScope kind node >>= f) := by
  intro b hb
  obtain ⟨s, hs, hopened⟩ := hb.enterScope kind node
  rw [run_bind, hs]
  exact h s _ hopened

end OpensBody

section Function

variable {c : ScopeId} {cs : List ScopeId} {n : Nat} {kind : NodeKind}

theorem openBody_opensBody (hid : id = c) (statements : List NodeRef) (works : List Work) :
    OpensBody a statements c cs (do
      openBody a id statements
      return works) := by
  intro b hb
  subst hid
  have hafter := (openBody_stays (a := a) hb.mem_current statements b hb).1
  show BodyOpened a (openBody a id statements b).2.current statements (openBody a id statements b).2
  rw [hafter.current]
  exact bodyOpened_openBody (hb.known id hb.mem_current) statements

/-- The body of a function opens after its parameters are declared. -/
theorem enterBody_opensBody (params body : NodeRef) :
    OpensBody a (a.blockStatements body) c cs (enterBody a params body) := by
  refine .get_bind fun b hb => ?_
  have hid : b.current ∈ cs := hb.current ▸ hb.mem_current
  refine .bind (.mapM fun param _ => declareParameter_stays hid param) fun defaults => ?_
  unfold Arena.blockStatements
  split
  · exact openBody_opensBody hb.current _ _
  · exact openBody_opensBody hb.current [] _

theorem finishFunction_opensBody (hkind : a.kind? (some n) = some kind)
    (hfunction : kind.isFunctionLike = true) (hmethod : kind ≠ .method) :
    OpensBody a (a.scopeStatements (some n)) c cs (finishFunction a n kind) := by
  have hbody {s : ScopeId} {cs : List ScopeId} : OpensBody a (a.scopeStatements (some n)) s cs (do
      let works ←
        if kind = .arrowFunction then enterBody a (a.child (some n) 0) (a.child (some n) 1)
        else enterBody a (a.child (some n) 1) (a.child (some n) 2)
      return works ++ [Work.exitScope]) := by
    unfold Arena.scopeStatements
    rw [hkind]
    cases kind with
    | functionDeclaration | functionExpression | arrowFunction =>
      exact .andReturn (enterBody_opensBody _ _) (· ++ [Work.exitScope])
    | method => exact absurd rfl hmethod
    | _ => cases hfunction
  refine .enterScope fun s => .ite (fun _ => ?_) fun _ => hbody
  refine .bind (declareVariable_stays List.mem_cons_self _) fun _ => ?_
  exact .bind (modifyValues_stays _) fun _ => hbody

theorem visitFunction_opensBody (hkind : a.kind? (some n) = some kind)
    (hfunction : kind.isFunctionLike = true) (hmethod : kind ≠ .method) :
    OpensBody a (a.scopeStatements (some n)) c cs (visitFunction a n kind) := by
  have hname : OpensBody a (a.scopeStatements (some n)) c cs (do
      let name := a.child (some n) 0
      if kind = .functionDeclaration && name.isSome then
        if ((← get).analysis.valueOf? name).isNone then
          let variableId ← declareVariable a (← functionScope) name
          Analysis.modifyValues (·.addWrite variableId (some n))
      finishFunction a n kind) := by
    have hrest : OpensBody a (a.scopeStatements (some n)) c cs (finishFunction a n kind) :=
      finishFunction_opensBody hkind hfunction hmethod
    refine .ite (fun _ => .get_bind fun b hb => .ite (fun _ => ?_) fun _ => hrest) fun _ => hrest
    refine .functionScope fun id hid => .bind (declareVariable_stays hid _) fun _ => ?_
    exact .bind (modifyValues_stays _) fun _ => hrest
  refine .get_bind fun b _ => .ite (fun _ => ?_) fun _ => hname
  exact .bind (createFunction_stays n) fun _ => hname

theorem visitMethod_opensBody (hkind : a.kind? (some n) = some .method) :
    OpensBody a (a.scopeStatements (some n)) c cs (visitMethod a n) := by
  have hrest : OpensBody a (a.scopeStatements (some n)) c cs (finishMethod a n) := by
    show OpensBody a (a.scopeStatements (some n)) c cs
      (enterScope .function (some n) >>= fun _ => do
      return (← enterBody a (a.child (some n) 1) (a.child (some n) 2)) ++ [.exitScope])
    unfold Arena.scopeStatements
    rw [hkind]
    exact .enterScope fun s => .andReturn (enterBody_opensBody _ _) (· ++ [Work.exitScope])
  refine .bind (onValues_stays _) fun _ => .bind (setValue_stays _ _) fun _ =>
    .get_bind fun b _ => ?_
  dsimp only
  split
  · exact hrest
  · split
    · exact hrest
    · refine .bind (onValues_stays _) fun _ => .bind (setValue_stays _ _) fun _ => ?_
      exact .bind (modifyValues_stays _) fun _ => hrest

/-- **A visit of a function.** It ends with the opening of the body in the scope that it opens. -/
theorem visit_opensBody (hkind : a.kind? (some n) = some kind)
    (hfunction : kind.isFunctionLike = true) :
    OpensBody a (a.scopeStatements (some n)) c cs (visit a n) := by
  unfold visit
  rw [hkind]
  cases kind with
  | functionDeclaration | functionExpression | arrowFunction =>
    exact visitFunction_opensBody hkind rfl (by decide)
  | method => exact visitMethod_opensBody hkind
  | _ => cases hfunction

end Function

/-! ## What a declaration leaves alone -/

/-- Variables are bound in scopes from a number on alone, and what is entered stays entered. -/
structure BindsFrom (k : Nat) (b b' : Binder) : Prop where
  size : b.analysis.scopes.size ≤ b'.analysis.scopes.size
  current : b'.current = b.current
  vars : ∀ s : ScopeId, s.index < k →
    (b'.analysis.scopes.get? s).map Scope.vars = (b.analysis.scopes.get? s).map Scope.vars
  entered : ∀ r, (b.analysis.valueOf? r).isSome → (b'.analysis.valueOf? r).isSome

section BindsFrom

variable {k : Nat}

theorem BindsFrom.refl (b : Binder) : BindsFrom k b b :=
  ⟨Nat.le_refl _, rfl, fun _ _ => rfl, fun _ h => h⟩

theorem BindsFrom.trans (h : BindsFrom k b b') (h' : BindsFrom k b' b'') : BindsFrom k b b'' where
  size := Nat.le_trans h.size h'.size
  current := h'.current.trans h.current
  vars s hs := (h'.vars s hs).trans (h.vars s hs)
  entered r hr := h'.entered r (h.entered r hr)

instance : Std.Refl (BindsFrom k) := ⟨.refl⟩

instance : IsTrans Binder (BindsFrom k) := ⟨fun _ _ _ => BindsFrom.trans⟩

theorem BindsFrom.of_same (hscopes : b'.analysis.scopes = b.analysis.scopes)
    (hcurrent : b'.current = b.current)
    (hentered : ∀ r, (b.analysis.valueOf? r).isSome → (b'.analysis.valueOf? r).isSome) :
    BindsFrom k b b' := by
  refine ⟨?_, hcurrent, fun s _ => ?_, hentered⟩
  · rw [hscopes]
  · rw [hscopes]

theorem modifyValues_bindsFrom (f : ValueStore → ValueStore) :
    Moves (BindsFrom k) (Bind.onAnalysis (Analysis.modifyValues f)) :=
  fun _ => .of_same rfl rfl fun _ h => h

theorem onValues_bindsFrom {α : Type} (f : ValueStore → α × ValueStore) :
    Moves (BindsFrom k) (Bind.onAnalysis (Analysis.onValues f)) :=
  fun _ => .of_same rfl rfl fun _ h => h

theorem onTypes_bindsFrom {α : Type} (f : TypeStore → α × TypeStore) :
    Moves (BindsFrom k) (Bind.onAnalysis (Analysis.onTypes f)) :=
  fun _ => .of_same rfl rfl fun _ h => h

theorem reportRelated_bindsFrom (problem : Problem) (node related : NodeRef) :
    Moves (BindsFrom k) (Bind.onAnalysis (Analysis.reportRelated a problem node related)) :=
  fun _ => .of_same rfl rfl fun _ h => h

theorem setValue_bindsFrom (r : NodeRef) (v : ValueId) :
    Moves (BindsFrom k) (Bind.onAnalysis (Analysis.setValue r v)) := by
  refine fun b => .of_same rfl rfl fun q hq => ?_
  show ((b.analysis.valueTable.insert r v).get? q).isSome
  rw [NodeTable.get?_insert]
  split
  · rfl
  · exact hq

/-- A change of a scope that binds no variable, or of one that is late enough. -/
theorem updateScope_bindsFrom (id : ScopeId) {f : Scope → Scope}
    (hf : id.index < k → ∀ scope, (f scope).vars = scope.vars) :
    Moves (BindsFrom k) (updateScope id f) := by
  refine fun b => ⟨?_, rfl, fun s hs => ?_, fun _ h => h⟩
  · exact Nat.le_of_eq (b.analysis.scopes.size_update id f).symm
  · have hget : (updateScope id f b).2.analysis.scopes.get? s = _ := ScopeTree.get?_update _ _ _ _
    rw [hget]
    split
    · next heq =>
      rw [Option.map_map]
      exact Option.map_congr fun scope _ => hf (heq ▸ hs) scope
    · rfl

theorem reserveAll_bindsFrom (id : ScopeId) (reserved : List (Namespace × Atom)) :
    Moves (BindsFrom k) (reserveAll id reserved) := by
  refine .forM fun (space, name) _ => updateScope_bindsFrom id fun _ scope => ?_
  unfold Scope.reserve
  split <;> rfl

theorem declareVariable_bindsFrom (hid : k ≤ id.index) (binding : NodeRef) :
    Moves (BindsFrom k) (declareVariable a id binding) := by
  refine .bind .get fun b => ?_
  split
  · refine .bind (reportRelated_bindsFrom _ _ _) fun _ => ?_
    exact .bind (setValue_bindsFrom _ _) fun _ => .pure _
  · refine .bind (onValues_bindsFrom _) fun v => ?_
    refine .bind (updateScope_bindsFrom id fun hlt => absurd hlt (Nat.not_lt.2 hid)) fun _ => ?_
    exact .bind (setValue_bindsFrom _ _) fun _ => .pure _

theorem declareType_bindsFrom (id : ScopeId) (nameNode : NodeRef) (t : TypeId) :
    Moves (BindsFrom k) (declareType a id nameNode t) := by
  refine .bind .get fun b => ?_
  split
  · exact reportRelated_bindsFrom _ _ _
  · exact updateScope_bindsFrom id fun _ _ => rfl

theorem openBody_bindsFrom (hid : k ≤ id.index) (statements : List NodeRef) :
    Moves (BindsFrom k) (openBody a id statements) := by
  refine .bind (.forM fun h _ => ?_) fun _ => reserveAll_bindsFrom id _
  cases h with
  | variableName n => exact (declareVariable_bindsFrom hid _).discard
  | functionName f n =>
    exact .bind (declareVariable_bindsFrom hid _) fun v => modifyValues_bindsFrom _
  | typeName name =>
    refine updateScope_bindsFrom id fun _ scope => ?_
    unfold Scope.reserve
    split <;> rfl

theorem declareClass_bindsFrom (site : NodeRef) (name : String) (doc : Option DocComment)
    (heritage reportNode : NodeRef) :
    Moves (BindsFrom k) (declareClass a site name doc heritage reportNode) := by
  refine .bind .get fun b => .bind (onValues_bindsFrom _) fun cls => ?_
  refine .bind (setValue_bindsFrom _ _) fun _ => .bind (fun _ => ?_) fun _ => .pure _
  exact .of_same rfl rfl fun _ h => h

theorem bindClassType_bindsFrom (node : NodeRef) (cls : ValueId) :
    Moves (BindsFrom k) (bindClassType a node cls) := by
  have hscope {m : Bind ScopeId} (hm : Moves (BindsFrom k) m) (nameNode : NodeRef) :
      Moves (BindsFrom k) (do return some (nameNode, ← m) : Bind (Option (NodeRef × ScopeId))) :=
    .bind hm fun _ => .pure _
  have hfunction : Moves (BindsFrom k) functionScope := .bind .get fun _ => .pure _
  have hlexical : Moves (BindsFrom k) lexicalScope := .bind .get fun _ => .pure _
  have hsite : Moves (BindsFrom k) (classBindingSite a node) := by
    unfold classBindingSite
    split
    · exact .pure _
    · exact hscope hfunction _
    · exact hscope hlexical _
    · refine .ite (fun _ => hscope ?_ _) fun _ => .pure _
      exact .ite (fun _ => hlexical) fun _ => hfunction
  refine .bind hsite fun site => ?_
  split
  · exact .pure _
  · exact .bind (onTypes_bindsFrom _) fun t => declareType_bindsFrom _ _ _

theorem createFunction_bindsFrom (n : Nat) : Moves (BindsFrom k) (createFunction a n) := by
  have hplain : Moves (BindsFrom k) (do
      Analysis.setValue (some n) (← Analysis.onValues (·.newFunction (some n))) : Bind Unit) :=
    .bind (onValues_bindsFrom _) fun _ => setValue_bindsFrom _ _
  refine .bind (.bind .get fun _ => .pure _) fun doc => ?_
  split
  · refine .ite (fun _ => ?_) fun _ => hplain
    exact .bind (declareClass_bindsFrom _ _ _ _ _) fun _ => bindClassType_bindsFrom _ _
  · exact hplain

theorem declareAnnotated_bindsFrom (doc : DocComment) (id : ScopeId) (declaration : NodeRef)
    (v : ValueId) : Moves (BindsFrom k) (declareAnnotated a doc id declaration v) := by
  refine .ite (fun _ => .ite (fun _ => ?_) fun _ => .pure _) fun _ =>
    .ite (fun _ => ?_) fun _ => .pure _
  · refine .bind (declareClass_bindsFrom _ _ _ _ _) fun cls =>
      .bind (modifyValues_bindsFrom _) fun _ => ?_
    exact .bind (onTypes_bindsFrom _) fun t => declareType_bindsFrom _ _ _
  · exact .bind (onTypes_bindsFrom _) fun t => declareType_bindsFrom _ _ _

/-- The scopes that are there bind the variables that they bound. -/
def SameVars (b b' : Binder) : Prop :=
  ∀ s scope, b.analysis.scopes.get? s = some scope →
    ∃ scope', b'.analysis.scopes.get? s = some scope' ∧ scope'.vars = scope.vars

theorem SameVars.trans (h : SameVars b b') (h' : SameVars b' b'') : SameVars b b'' := by
  intro s scope hscope
  obtain ⟨scope', hscope', hvars⟩ := h s scope hscope
  obtain ⟨scope'', hscope'', hvars'⟩ := h' s scope' hscope'
  exact ⟨scope'', hscope'', hvars'.trans hvars⟩

theorem BindsFrom.sameVars (h : BindsFrom b.analysis.scopes.size b b') : SameVars b b' := by
  intro s scope hscope
  have hvars := h.vars s (ScopeTree.lt_size_of_get? hscope)
  rw [hscope, Option.map_some] at hvars
  exact Option.map_eq_some_iff.1 hvars

/-! ### Declaration lists -/

/-- Where names have values, nothing is bound but in scopes from a number on. -/
def Knowing (names : List Nat) (k : Nat) (b b' : Binder) : Prop :=
  (∀ n ∈ names, (b.analysis.valueOf? (some n)).isSome) → BindsFrom k b b'

instance : Std.Refl (Knowing names k) := ⟨fun b _ => .refl b⟩

instance : IsTrans Binder (Knowing names k) :=
  ⟨fun _ _ _ h h' hb => (h hb).trans (h' fun n hn => (h hb).entered _ (hb n hn))⟩

theorem knowing {α : Type} {m : Bind α} (hm : Moves (BindsFrom k) m) : Moves (Knowing names k) m :=
  fun b _ => hm b

/-- The comment's type and the first value of a variable bind nothing. -/
theorem annotatedVariable_knowing (id : ScopeId) (doc : Option DocComment)
    (declaration init : NodeRef)
    (v : ValueId) : Moves (Knowing names k) (do
      match doc with
      | some x => declareAnnotated a x id declaration v
      | none => pure ()
      if init.isSome then Analysis.modifyValues (·.addWrite v init)
      return (Work.visit? init, ([] : List Work)) : Bind (List Work × List Work)) := by
  have hwrite : Moves (Knowing names k) (do
      if init.isSome then Analysis.modifyValues (·.addWrite v init)
      return (Work.visit? init, ([] : List Work)) : Bind (List Work × List Work)) :=
    .ite (fun _ => .bind (knowing (modifyValues_bindsFrom _)) fun _ => .pure _) fun _ => .pure _
  cases doc with
  | some x => exact .bind (knowing (declareAnnotated_bindsFrom x id declaration v)) fun _ => hwrite
  | none => exact hwrite

/-- A declaration whose name has a variable binds none. -/
theorem visitDeclaration_knowing (id : ScopeId) (doc : Option DocComment) {declaration : NodeRef}
    (hnames : ∀ n, a.child declaration 0 = some n → a.isKind (some n) .bindingName =
      true → n ∈ names) :
    Moves (Knowing names k) (visitDeclaration a id doc declaration) := by
  refine .ite (fun _ => .pure _) fun hkind => .get_bind fun b hb => ?_
  have hbinding : a.isKind (a.child declaration 0) .bindingName = true := by simpa using hkind
  obtain ⟨n, hn⟩ := Arena.exists_of_kind? (Arena.isKind_iff.1 hbinding)
  obtain ⟨v, hv⟩ := Option.isSome_iff_exists.1 (hb n (hnames n hn (hn ▸ hbinding)))
  rw [hn, hv]
  exact annotatedVariable_knowing id doc declaration (a.child declaration 1) v b hb

/-- A list whose names have variables binds none. -/
theorem visitDeclarations_bindsFrom {n : Nat}
    (hb : ∀ name ∈ a.bindingNames (some n), (b.analysis.valueOf? (some name)).isSome) :
    BindsFrom k b (visitDeclarations a n b).2 := by
  have hscope : Moves (BindsFrom k) (declarationScope a (some n)) :=
    .ite (fun _ => .bind .get fun _ => .pure _) fun _ => .bind .get fun _ => .pure _
  have hlist : Moves (Knowing (a.bindingNames (some n)) k) (visitDeclarations a n) := by
    refine .bind (knowing hscope) fun id => .bind .get fun b => ?_
    refine .bind (.mapM fun declaration hmem => ?_) fun works => .pure _
    refine visitDeclaration_knowing id _ fun name hname hkind => ?_
    refine List.mem_filterMap.2 ⟨declaration, hmem, ?_⟩
    rw [hname, Option.filter_some, if_pos hkind]
  exact hlist b hb

/-! ### Function declarations -/

theorem declareParameter_bindsFrom (hid : k ≤ id.index) (param : NodeRef) :
    Moves (BindsFrom k) (declareParameter a id param) := by
  unfold declareParameter
  split
  · exact .bind (declareVariable_bindsFrom hid _).discard fun _ => .pure _
  · refine .bind (declareVariable_bindsFrom hid _) fun _ => ?_
    split
    · exact .pure _
    · exact .bind (modifyValues_bindsFrom _) fun _ => .pure _
  · exact .bind (declareVariable_bindsFrom hid _).discard fun _ => .pure _
  · exact .pure _

theorem enterBody_bindsFrom (params body : NodeRef) (hb : k ≤ b.current.index) :
    BindsFrom k b (enterBody a params body b).2 := by
  suffices hbody : Moves (BindsFrom k) (do
      let defaults ← (a.children params).mapM (declareParameter a b.current)
      if a.isKind body .block then
        openBody a b.current (a.children body)
        return defaults.flatten ++ Work.children a body
      else return defaults.flatten ++ Work.visit? body) from hbody b
  refine .bind (.mapM fun param _ => declareParameter_bindsFrom hb param) fun defaults => ?_
  exact .ite (fun _ => .bind (openBody_bindsFrom hb _) fun _ => .pure _) fun _ => .pure _

/-- The scope that a function opens is a new one, and what the function declares is bound there. -/
theorem finishFunction_sameVars (n : Nat) (b : Binder) :
    SameVars b (finishFunction a n .functionDeclaration b).2 := by
  intro s scope hscope
  let opened := (enterScope .function (some n) b).2
  have hbody : BindsFrom b.analysis.scopes.size opened
      (finishFunction a n .functionDeclaration b).2 :=
    enterBody_bindsFrom (a.child (some n) 1) (a.child (some n) 2) (Nat.le_refl _)
  have hopened : opened.analysis.scopes.get? s = some scope := ScopeTree.get?_push_of_some _ hscope
  have hvars := hbody.vars s (ScopeTree.lt_size_of_get? hscope)
  rw [hopened, Option.map_some] at hvars
  exact Option.map_eq_some_iff.1 hvars

/-- A function declaration whose name has a variable binds none in the scopes around it. -/
theorem visitFunction_sameVars {n : Nat}
    (hb : ∀ name, a.child (some n) 0 = some name → (b.analysis.valueOf? (some name)).isSome) :
    SameVars b (visitFunction a n .functionDeclaration b).2 := by
  -- the name is looked at after the function has its value
  have hname {b' : Binder} (hb' : BindsFrom b.analysis.scopes.size b b') : SameVars b ((do
      let name := a.child (some n) 0
      if name.isSome then
        if ((← get).analysis.valueOf? name).isNone then
          let variableId ← declareVariable a (← functionScope) name
          Analysis.modifyValues (·.addWrite variableId (some n))
      finishFunction a n .functionDeclaration : Bind (List Work)) b').2 := by
    have hfinish := hb'.sameVars.trans (finishFunction_sameVars (a := a) n b')
    cases hc : a.child (some n) 0 with
    | none => exact hfinish
    | some name =>
      obtain ⟨v, hv⟩ := Option.isSome_iff_exists.1 (hb'.entered _ (hb name hc))
      dsimp only [Option.isSome_some]
      rw [if_pos rfl, run_bind, run_get]
      dsimp only
      rw [hv]
      exact hfinish
  unfold visitFunction
  rw [run_bind, run_get]
  dsimp only
  split
  · exact hname (createFunction_bindsFrom n b)
  · exact hname (.refl b)

/-- **A visit of a declaration.** If the names that it declares in the scope of the function around
it have variables, no scope that is there binds another one. -/
theorem visit_sameVars {n : Nat}
    (hkind : a.kind? (some n) = some .varStatement ∧ (a.flags (some n)).isBlockScoped = false ∨
      a.kind? (some n) = some .functionDeclaration)
    (hb : ∀ name ∈ a.ownNames n, (b.analysis.valueOf? (some name)).isSome) :
    SameVars b (visit a n b).2 := by
  unfold Arena.ownNames at hb
  rcases hkind with ⟨hkind, hvar⟩ | hkind
  · rw [hkind] at hb
    dsimp only at hb
    rw [hvar] at hb
    have hrun : visit a n b = visitDeclarations a n b := by
      rw [visit, hkind]
    rw [hrun]
    exact (visitDeclarations_bindsFrom hb).sameVars
  · rw [hkind] at hb
    have hrun : visit a n b = visitFunction a n .functionDeclaration b := by
      rw [visit, hkind]
    rw [hrun]
    exact visitFunction_sameVars fun name hname =>
      hb name (by rw [hname]; exact List.mem_singleton_self _)

end BindsFrom

end Binder

end DocTypes
