import DocTypes.Proofs.Binding.Visiting

/-!
# Visits of functions and classes

A function opens a scope for its parameters and its body, and a class expression with a
name one for that name. The type name of a class is bound where the class is known, in a
scope that was told of it.

## Main statements

* `visitFunction_follows`, `visitMethod_follows`, `visitClass_follows`.
-/

namespace DocTypes

open Binder

section Follows

variable {a : Arena} {root : NodeRef} {reportUndefined : Bool} {n : Nat} {mentions : List Parked}
  {b b' : Binder} {works works' : List Work} {kind : NodeKind}

/-! ## Functions -/

namespace Arena.Shaped

variable (hshape : a.Shaped root) (hn : n ∈ a.code root) {t d s : Nat}
include hshape hn

/-- A function declaration is governed by the comment on it alone. -/
theorem target_of_functionDeclaration (hkind : a.kind? (some n) = some .functionDeclaration)
    (hgoverns : a.governingTarget n = some t) : n = t := by
  obtain ⟨p, hp, ⟨-, -, heq⟩ | ⟨hpasses, -⟩⟩ := governingTarget_cases hgoverns
  · exact heq
  · obtain ⟨q, hq, hchild, hparent, -⟩ := hshape.exists_parent_code hn hkind rfl
    cases hp.symm.trans hparent
    rcases hshape.kind_of_passesOn (mem_listing_of_mem_code hq) hchild hpasses hkind
      (by decide) with
      ⟨-, hother⟩ | ⟨-, hother⟩ <;> cases hother

/-- The value of a variable is governed by the comment on the list. -/
theorem target_of_initializer {kind : NodeKind} (hkind : a.kind? (some n) = some kind)
    (hunit : kind.isCompilationUnit = false) (hparent : a.parent (some n) = some d)
    (hdkind : a.kind? (some d) = some .varDeclaration) (hchild : a.child (some d) 1 = some n)
    (hs : a.parent (some d) = some s) (hgoverns : a.governingTarget n = some t) :
    s = t ∧ a.kind? (some s) = some .varStatement := by
  obtain ⟨d', hd, -, hd', -⟩ := hshape.exists_parent_code hn hkind hunit
  cases hparent.symm.trans hd'
  have hpasses : a.passesOn d n = true := by
    rw [passesOn, hdkind]
    simpa using hchild
  rw [governingTarget_of_passesOn hparent hpasses] at hgoverns
  have htarget := hshape.target_of_varDeclaration hd hdkind hgoverns
  obtain ⟨p, hp, ⟨-, -, rfl⟩ | ⟨hpasses, hgoverns⟩⟩ := governingTarget_cases hgoverns
  · rw [hdkind] at htarget
    cases htarget
  · cases hs.symm.trans hp
    obtain ⟨s', hs', hmem, hparent', -⟩ := hshape.exists_parent_code hd hdkind rfl
    cases hs.symm.trans hparent'
    rcases hshape.kind_of_passesOn (mem_listing_of_mem_code hs') hmem hpasses hdkind
      (by decide) with
      ⟨hlist, -⟩ | ⟨-, hother⟩
    · exact ⟨hshape.target_of_varStatement hs' hlist hgoverns, hlist⟩
    · cases hother

end Arena.Shaped

/-- A comment that was compiled is the one on its target. -/
theorem Binder.Annotated.commentOn {t : Nat} {doc : DocComment} (hb : b.Annotated a)
    (h : b.comments.get? (some t) = some doc) : a.IsTarget t ∧ a.commentOn t = doc := by
  obtain ⟨p, hp, hkind, hchild, hdoc⟩ := hb t doc h
  refine ⟨⟨p, hp, Arena.isKind_iff.1 hkind, hchild⟩, ?_⟩
  rw [Arena.commentOn, hp, hdoc]

/-- A scope takes the names that it was told of. -/
theorem Told.takes {c : ScopeId} {s : Nat} {name : Atom} (h : Told a b.scopes c s)
    (htarget : a.IsTarget s) (hname : name ∈ a.commentTypes s) {scope : Scope}
    (hscope : b.scopes.get? (b.scopes.declaring c (a.isScoped (some s))) = some scope) :
    scope.takes .type name = true := by
  obtain ⟨other, hother, hmem⟩ := h htarget name hname
  cases hother.symm.trans hscope
  simp [Scope.takes, Scope.reserves, hmem]

/-- A visit that only declares leaves what was told. -/
theorem Told.extended {plan : Plan} {k s : Nat} (h : Told a b.scopes b.current s) (hb : b.Sound)
    (hstep : Extends a plan k b b') : Told a b'.scopes b'.current s := by
  have hnearest (accept : ScopeKind → Bool) :
      b'.scopes.nearest b'.current accept = b.scopes.nearest b.current accept := by
    rw [hstep.current]
    exact hstep.nearest hb accept
  exact h.move hstep.keeps (hnearest _) (hnearest _)

theorem declaring_mem_chain (hb : b.Sound) (lexical : Bool) :
    b.scopes.declaring b.current lexical ∈ b.scopes.chain b.current := by
  unfold ScopeTree.declaring
  split <;> exact ScopeTree.nearest_mem_chain hb.nested b.current _

/-- The type name of a class is bound in the scope where the class is known. -/
theorem declareClassType_declares (plan : Plan) {k : Nat} (hb : b.Sound) {id : ScopeId}
    (hid : id ∈ b.scopes.chain b.current) (name : NodeRef) (cls : ValueId)
    (htakes : id.index < k → ∀ scope, b.scopes.get? id = some scope →
      scope.takes .type (a.atom name) = true ∨ plan.late (a.atom name)) :
    Runs (Declares a plan k) b (do declareType a id name (← instanceOf cls)) fun _ _ => True := by
  have hinstance : Declares a plan k b (instanceOf cls b).2 := .instanceOf cls
  refine Runs.bind (P := fun _ b₁ => b₁.scopes = b.scopes ∧ b₁.current = b.current)
    ⟨hinstance, rfl, rfl⟩ fun t b₁ hb₁ ⟨hscopes, hcurrent⟩ => ?_
  refine ⟨.declareType (hb₁.sound hb) ?_ t ?_, trivial⟩
  · rwa [hscopes, hcurrent]
  · rwa [hscopes]

/-- A class that is a function or the value of a variable binds its type name, which was foreseen
or is late. -/
theorem bindClassType_declares {plan : Plan} {k : Nat} (hb : b.Sound)
    (hkind : a.kind? (some n) = some kind) (hbody : kind ≠ .classDeclaration) (cls : ValueId)
    (hfunction : kind = .functionDeclaration → ∀ scope,
      b.scopes.get? (b.scopes.declaring b.current false) = some scope →
        scope.takes .type (a.atom (a.child (some n) 0)) = true ∨
          plan.late (a.atom (a.child (some n) 0)))
    (hvalue : ∀ d, a.parent (some n) = some d → a.kind? (some d) = some .varDeclaration →
      a.child (some d) 1 = some n → ∀ scope, b.scopes.get? (b.scopes.declaring b.current
        (a.flags (a.parent (some d))).isBlockScoped) = some scope →
          scope.takes .type (a.atom (a.child (some d) 0)) = true ∨
            plan.late (a.atom (a.child (some d) 0))) :
    Runs (Declares a plan k) b (bindClassType a (some n) cls) fun _ _ => True := by
  unfold bindClassType classBindingSite
  rw [hkind]
  split
  · next hnone => cases hnone
  · next heq =>
    exact declareClassType_declares _ hb (declaring_mem_chain hb false) _ cls fun _ =>
      hfunction (Option.some.inj heq)
  · next hclass => exact absurd (Option.some.inj hclass) hbody
  · dsimp only
    split
    · next hinitial =>
      rw [Bool.and_eq_true, decide_eq_true_eq] at hinitial
      obtain ⟨d, hd⟩ := Arena.exists_of_kind? (Arena.isKind_iff.1 hinitial.1)
      rw [hd] at hinitial ⊢
      have htakes := hvalue d hd (Arena.isKind_iff.1 hinitial.1) hinitial.2
      have hmem := declaring_mem_chain hb (a.flags (a.parent (some d))).isBlockScoped
      unfold declarationScope
      unfold ScopeTree.declaring at hmem htakes
      split
      · next hlexical =>
        rw [if_pos hlexical] at hmem htakes
        exact declareClassType_declares _ hb hmem _ cls fun _ => htakes
      · next hlexical =>
        rw [if_neg hlexical] at hmem htakes
        exact declareClassType_declares _ hb hmem _ cls fun _ => htakes
    · exact .pure (.refl _) trivial

/-- The names of a declaration list that has a single place for them. -/
theorem Arena.Shaped.mem_bindingNames (hshape : a.Shaped root) {d s m : Nat}
    (hd : d ∈ a.listing root)
    (hdkind : a.kind? (some d) = some .varDeclaration) (hmem : some d ∈ a.children (some s))
    (hm : a.child (some d) 0 = some m) : m ∈ a.bindingNames (some s) := by
  refine List.mem_filterMap.2 ⟨some d, hmem, ?_⟩
  have hname : a.kind? (some m) = some .bindingName := hshape.kind?_child hd hdkind rfl hm
  rw [hm, Option.filter_some, if_pos (isKind_iff.2 hname)]

/-- A function gets its value. -/
theorem setFunction_declares {plan : Plan} {k : Nat} (hkind : a.kind? (some n) = some kind)
    (hidentifier : kind ≠ .identifier) (hname : kind ≠ .bindingName) :
    Runs (Declares a plan k) b (do
      Analysis.setValue (some n)
        (← Analysis.onValues (·.newFunction (some n)))) fun _ _ => True := by
  have hnew : Runs (Declares a plan k) b (Bind.onAnalysis
      (Analysis.onValues (·.newFunction (some n)))) fun _ _ => True :=
    ⟨.onValues (.alloc _ fun slot hslot => by cases hslot), trivial⟩
  refine hnew.bind fun v b₁ _ _ => setOther_declares _ (fun m hm => ?_) hidentifier hname v
  cases hm
  exact hkind

/-- A function gets its value. If it is a class, its type name was foreseen. -/
theorem createFunction_declares (hshape : a.Shaped root) (h : Ready a root b n) (hb : b.Sound)
    (hannotated : b.Annotated a) (hkind : a.kind? (some n) = some kind)
    (hfunction : kind = .functionDeclaration ∨ kind = .functionExpression ∨ kind = .arrowFunction) :
    Runs (Declares a (a.idlePlan root n) b.scopes.size) b (createFunction a n) fun _ _ => True := by
  have hunit : kind.isCompilationUnit = false := by rcases hfunction with rfl | rfl | rfl <;> rfl
  have hsite : a.isKind (some n) .identifier = false ∧ a.isKind (some n) .bindingName = false := by
    rcases hfunction with rfl | rfl | rfl <;> simp [Arena.isKind, hkind]
  have hnew : Runs (Declares a (a.idlePlan root n) b.scopes.size) b (do
      Analysis.setValue (some n)
        (← Analysis.onValues (·.newFunction (some n)))) fun _ _ => True := by
    rcases hfunction with rfl | rfl | rfl <;> exact setFunction_declares hkind
      (by decide) (by decide)
  refine .get_bind ?_
  dsimp only
  split
  · next doc hdoc =>
    split
    · next hclass =>
      obtain ⟨t, ht, hcomment⟩ := Option.bind_eq_some_iff.1 hdoc
      obtain ⟨htarget, hon⟩ := hannotated.commentOn hcomment
      have hdeclares : doc.kind.declaresType = true := by
        cases hk : doc.kind <;> first
          | rfl
          | (rw [hk] at hclass; cases hclass)
      refine (declareClass_declares hsite.1 hsite.2 _ _ _ _).bind fun cls b₁ hb₁ _ => ?_
      refine bindClassType_declares (hb₁.sound hb) hkind ?_ cls (fun heq scope hscope => ?_)
        fun d hd hdkind hchild scope hscope => ?_
      · rcases hfunction with rfl | rfl | rfl <;> decide
      · subst heq
        cases hname : a.child (some n) 0 with
        | none => exact .inr (.inl rfl)
        | some m =>
          obtain rfl := hshape.target_of_functionDeclaration h.coded hkind ht
          have hscoped : a.isScoped (some n) = false := by
            rw [Arena.isScoped, Arena.isKind, hkind]
            rfl
          refine .inl ((h.told.extended hb hb₁.toExtends).takes htarget ?_ (hscoped ▸ hscope))
          rw [Arena.commentTypes, hkind]
          simp [hon, hclass, hname]
      · obtain ⟨d', hd', hmem, hparent, -⟩ := hshape.exists_parent_code h.coded hkind hunit
        cases hd.symm.trans hparent
        obtain ⟨s, hs, hsmem, hsparent, -⟩ := hshape.exists_parent_code hd' hdkind rfl
        obtain ⟨rfl, hlist⟩ :=
          hshape.target_of_initializer h.coded hkind hunit hd hdkind hchild hsparent ht
        cases hname : a.child (some d) 0 with
        | none => exact .inr (.inl rfl)
        | some m =>
          have hscoped : a.isScoped (some s) = (a.flags (a.parent (some d))).isBlockScoped := by
            rw [Arena.isScoped, Arena.isKind_iff.2 hlist, hsparent, Bool.true_and]
          refine .inl
            (((h.initial d s hd hdkind hsparent).extended hb hb₁.toExtends).takes htarget ?_
            (hscoped ▸ hscope))
          rw [Arena.commentTypes, hlist]
          simp only [hon, hdeclares, if_true]
          exact List.mem_map_of_mem (hshape.mem_bindingNames
            (Arena.mem_listing_of_mem_code hd') hdkind
            hsmem hname)
    · exact hnew
  · exact hnew

/-! ## Bodies -/

/-- What is known of a result whatever the state is known of it here. -/
theorem Runs.yields {σ α : Type} {R : σ → σ → Prop} {s : σ} {m : StateM σ α} {P : α → σ → Prop}
    {Q : α → Prop} (hm : Runs R s m P) (hy : Yields Q m) : Runs R s m fun x t => P x t ∧ Q x :=
  ⟨hm.1, hm.2, hy s⟩

/-- Steps that declare, one after another, each from a sound state. -/
theorem Declares.mapM {plan : Plan} {k : Nat} {ι α : Type} {f : ι → Bind α} {xs : List ι}
    (hb : b.Sound)
    (step : ∀ x ∈ xs, ∀ b₁, Declares a plan k b b₁ → Declares a plan k b₁ (f x b₁).2) :
    Declares a plan k b (xs.mapM f b).2 := by
  induction xs generalizing b with
  | nil => exact .refl b
  | cons x xs ih =>
    rw [List.mapM_cons]
    have hx := step x List.mem_cons_self b (.refl b)
    exact hx.trans (ih (hx.sound hb) fun y hy b₁ hb₁ =>
      step y (List.mem_cons_of_mem _ hy) b₁ (hx.trans hb₁))

section Bodies

variable {owed : Atom → Prop} {k p : Nat}

/-- A name below a node that is no declaration gets a variable in the scope that has opened. -/
theorem declareName_declares (hshape : a.Shaped root) (hb : b.Sound) (hk : k ≤ b.current.index)
    (hp : p ∈ a.listing root) (hpkind : a.kind? (some p) = some kind)
    (hdeclaration : kind ≠ .varDeclaration)
    {binding : NodeRef} (hname : ∀ m, binding = some m → a.kind? (some m) = some .bindingName)
    (hchild : ∀ m, binding = some m → some m ∈ a.children (some p)) :
    Runs (Declares a (a.visitPlan root n owed) k) b
      (declareVariable a b.current binding) fun v b' =>
      ∃ scope, b'.scopes.get? b.current = some scope ∧
        scope.target? .value (a.atom binding) = some (.inl v) := by
  refine declareVariable_declares hb (ScopeTree.mem_chain_self hb.nested _) hname
    (fun m hm hlexical => ?_)
    fun hlt => absurd hlt (Nat.not_lt.2 hk)
  rw [hshape.not_isLexicalName_child hp hpkind hdeclaration (hchild m hm)] at hlexical
  cases hlexical

/-- A parameter is declared in the scope of its function. -/
theorem declareParameter_declares (owed : Atom → Prop) (hshape : a.Shaped root) (hb : b.Sound)
    (hk : k ≤ b.current.index)
    (hp : p ∈ a.listing root) (hpkind : a.kind? (some p) = some .parameterList) {param : NodeRef}
    (hparam : param ∈ a.children (some p)) :
    Runs (Declares a (a.visitPlan root n owed) k) b (declareParameter a b.current param)
      fun _ _ => True := by
  have hlisted : ∀ m, param = some m → m ∈ a.listing root := by
    rintro m rfl
    exact Arena.mem_listing_child hp hparam
  unfold declareParameter
  split
  · next hkind =>
    refine (declareName_declares hshape hb hk hp hpkind (by decide) ?_ ?_).discard.bind
      fun _ _ _ _ => .pure (.refl _) trivial
    · rintro m rfl
      exact hkind
    · rintro m rfl
      exact hparam
  · next hkind =>
    obtain ⟨m, rfl⟩ := Arena.exists_of_kind? hkind
    refine (declareName_declares hshape hb hk (hlisted m rfl) hkind (by decide)
      (fun c hc => hshape.kind?_child (hlisted m rfl) hkind rfl hc)
      fun c hc => Arena.mem_children_of_child_eq_some hc).bind fun v b₁ _ _ => ?_
    split
    · exact .pure (.refl _) trivial
    · next hinit =>
      refine (addOther_declares (fun c hc => ?_) v).bind fun _ _ _ _ => .pure (.refl _) trivial
      rw [Arena.isAssigned, hshape.parent_child (hlisted m rfl)
        (Arena.mem_children_of_child_eq_some hc),
        Arena.isKind, hkind]
      rfl
  · next hkind =>
    obtain ⟨m, rfl⟩ := Arena.exists_of_kind? hkind
    exact (declareName_declares hshape hb hk (hlisted m rfl) hkind (by decide)
      (fun c hc => hshape.kind?_child (hlisted m rfl) hkind rfl hc)
      fun c hc =>
        Arena.mem_children_of_child_eq_some hc).discard.bind fun _ _ _ _ => .pure (.refl _) trivial
  · exact .pure (.refl _) trivial

/-- The names that the statements of a block reserve. -/
def Arena.bodyOwes (a : Arena) (body : NodeRef) (name : Atom) : Prop :=
  (.value, name) ∈ (a.blockStatements body).flatMap a.reservations

/-- What is left to be done in the scope of a function before it is closed. -/
structure LeavesBody (a : Arena) (root : NodeRef) (n : Nat) (body : NodeRef) (works : List Work)
    (b : Binder) : Prop where
  owed : ∀ name, a.bodyOwes body name → IsOwed a works name
  asks : Doable a root b works
  promises : Promises a n b works

/-- The parameters of a function, in the scope that it opens. Their default values are to
be visited. -/
theorem declareParameters_inside (hshape : a.Shaped root) {e : Binder} (he : e.Sound)
    (hk : k ≤ e.current.index) {params : NodeRef}
    (hparams : ∀ p, params = some p → p ∈ a.listing root ∧ a.kind? (some p) = some .parameterList) :
    Runs (Declares a (a.visitPlan root n owed) k) e
      ((a.children params).mapM (declareParameter a e.current)) fun defaults _ =>
        Work.OnlyVisits (fun c => ∃ p, params = some p ∧ a.Holds p c) defaults.flatten := by
  cases params with
  | none => exact ⟨.refl e, .nil⟩
  | some p =>
    obtain ⟨hlisted, hkind⟩ := hparams p rfl
    refine ⟨.mapM he fun param hparam b₁ hb₁ => ?_, ?_⟩
    · have hstep := (declareParameter_declares (n := n) owed hshape (hb₁.sound he)
        (hb₁.current ▸ hk) hlisted hkind hparam).1
      rwa [hb₁.current] at hstep
    · have hall := Yields.mapM (fun param hparam =>
        declareParameter_parts (a := a) (n := p) e.current param fun m hm =>
          .child hkind rfl (hm ▸ hparam)) e
      exact (Work.OnlyVisits.flatten hall).imp fun c hc => ⟨p, rfl, hc⟩

/-- The parameters and the body of a function, in the scope that it opens. -/
theorem enterBody_inside (hshape : a.Shaped root) (h : Reached a root b n) (hb : b.Sound)
    (hkind : a.kind? (some n) = some kind) (hfunction : kind.isFunctionLike = true) {i j : Nat}
    (hparams : kind.place i = .only [.parameterList])
    (hbody : kind.place j = .only [.block] ∨ kind.place j = .body)
    (hself : a.reservations (some n) = []) {e : Binder}
    (hinside : Declares a (a.visitPlan root n (a.bodyOwes (a.child (some n) j))) b.scopes.size
      (b.entered .function (some n)) e) :
    Runs (Declares a (a.visitPlan root n (a.bodyOwes (a.child (some n) j))) b.scopes.size) e
      (enterBody a (a.child (some n) i) (a.child (some n) j))
      (LeavesBody a root n (a.child (some n) j)) := by
  have hentered := sound_entered b .function (some n) hb
  have he := hinside.sound hentered
  have hk : b.scopes.size ≤ e.current.index := by
    rw [hinside.current]
    exact Nat.le_refl _
  have hother : kind ≠ .varStatement ∧ kind ≠ .jsDocDocument ∧ kind ≠ .annotated ∧
      kind ≠ .varDeclaration ∧ kind.isCode = true := by
    cases kind <;> first
      | (refine ⟨?_, ?_, ?_, ?_, rfl⟩ <;> decide)
      | cases hfunction
  have hreached {b' : Binder} {c l : Nat} (hc : a.child (some n) l = some c)
      (hstep : Declares a (a.visitPlan root n (a.bodyOwes (a.child (some n) j))) b.scopes.size
        (b.entered .function (some n)) b') : Reached a root b' c :=
    h.inside hb hkind hother.1 hother.2.1 hstep.toExtends (Arena.mem_children_of_child_eq_some hc)
  have hdefault {b' : Binder} {c : Nat}
      (hstep : Declares a (a.visitPlan root n (a.bodyOwes (a.child (some n) j))) b.scopes.size
        (b.entered .function (some n)) b') (hc : ∃ p, a.child (some n) i = some p ∧ a.Holds p c) :
      Ready a root b' c := by
    obtain ⟨p, hp, hholds⟩ := hc
    have hpkind : a.kind? (some p) = some .parameterList :=
      hshape.kind?_child h.listed hkind hparams hp
    exact hholds.ready hshape (Arena.mem_listing_of_child h.listed hp) fun d hd =>
      (hreached hp hstep).child hpkind (by decide) hd
  refine .get_bind ?_
  dsimp only
  refine (declareParameters_inside (n := n) hshape he hk fun p hp =>
    ⟨Arena.mem_listing_of_child h.listed hp, hshape.kind?_child h.listed hkind hparams hp⟩).bind
      fun defaults b₁ hb₁ hdefaults => ?_
  have hb₁' := hinside.trans hb₁
  split
  · next hblock =>
    obtain ⟨m, hm⟩ := Arena.exists_of_kind? (Arena.isKind_iff.1 hblock)
    have hmlisted := Arena.mem_listing_of_child h.listed hm
    have hmkind : a.kind? (some m) = some .block := Arena.isKind_iff.1 (hm ▸ hblock)
    have hstatements : a.blockStatements (a.child (some n) j) = a.children (a.child (some n) j) :=
      if_pos hblock
    have hmem {c : Nat} (hc : some c ∈ a.children (a.child (some n) j)) :
        some c ∈ a.children (some m) :=
      hm ▸ hc
    have hopen := Declares.openBody (k := b.scopes.size)
      (a.visitPlan root n (a.bodyOwes (a.child (some n) j))) hshape (hb₁.sound he)
        (hb₁.current ▸ hk)
      (((hb₁'.currentKind? hentered).trans (currentKind?_entered b .function (some n)))) rfl
      (fun c hc => Arena.mem_listing_child hmlisted (hmem hc)) fun r hr name hname => by
        show _ ∈ List.flatMap _ _
        rw [hstatements]
        exact List.mem_flatMap.2 ⟨r, hr, hname⟩
    refine Runs.bind (P := fun _ b' => ∀ r ∈ a.children (a.child (some n) j),
      Covered a b' b'.current r)
      ?_ fun _ b₂ hb₂ hcovered =>
        .pure (.refl _) ⟨fun name hname => ?_, ?_, promises_of_nil hself _ _⟩
    · rw [← hb₁.current]
      refine ⟨hopen.1, fun r hr => ?_⟩
      rw [hopen.1.current]
      exact hopen.2 r hr
    · rw [Arena.bodyOwes, hstatements] at hname
      obtain ⟨c, hc, hreserved⟩ := isOwed_children hname
      exact ⟨c, List.mem_append_right _ hc, hreserved⟩
    · refine (hdefaults.asks fun c hc => hdefault (hb₁'.trans hb₂) hc).append
        (doable_children fun c hc => ?_)
      exact .of_parent ((hreached hm (hb₁'.trans hb₂)).child hmkind (by decide) (hmem hc))
        (hshape.parent_child hmlisted (hmem hc)) hmkind (by decide) (by decide)
        (hshape.isWalked_child hmlisted hmkind rfl (by decide) (by decide) (hmem hc))
          (hcovered _ hc)
  · next hblock =>
    refine .pure (.refl _) ⟨fun name hname => ?_, ?_, promises_of_nil hself _ _⟩
    · rw [Arena.bodyOwes, Arena.blockStatements, if_neg hblock] at hname
      cases hname
    · refine (hdefaults.asks fun c hc => hdefault hb₁' hc).append (doable_visit? fun c hc => ?_)
      have hexpression : a.admits (some c) .expression = true := by
        have hadmits := hshape.admits_child h.listed hkind hc
        rw [hc] at hblock
        rcases hbody with hplace | hplace
        · exact absurd (Arena.isKind_iff.2 (hshape.kind?_child h.listed hkind hplace hc)) hblock
        · rw [hplace, Arena.admits, Bool.or_eq_true] at hadmits
          exact hadmits.resolve_left hblock
      have hmem := Arena.mem_children_of_child_eq_some hc
      exact .of_parent (hreached hc hb₁') (hshape.parent_child h.listed hmem) hkind hother.2.2.1
        hother.2.2.2.1 (Arena.isWalked_of_admits rfl hexpression)
        ((Arena.isInert_of_admits rfl hexpression).covered _ _)

/-- The own name of what opens a scope is bound in that scope, and stands for it. -/
theorem declareOwnName_inside (owed : Atom → Prop) (hshape : a.Shaped root) (h : Reached a root b n)
    (hb : b.Sound)
    (hkind : a.kind? (some n) = some kind) (hdeclaration : kind ≠ .varDeclaration)
    (hplace : kind.place 0 = .only [.bindingName]) (scopeKind : ScopeKind) :
    Runs (Declares a (a.visitPlan root n owed) b.scopes.size) (b.entered scopeKind (some n)) (do
      let variableId ← declareVariable a (b.entered scopeKind (some n)).current (a.child (some n) 0)
      Analysis.modifyValues (·.addWrite variableId (some n))) fun _ _ => True := by
  refine (declareName_declares hshape (sound_entered b scopeKind (some n) hb) (Nat.le_refl _)
    h.listed hkind hdeclaration (fun m hm => hshape.kind?_child h.listed hkind hplace hm)
    fun m hm => Arena.mem_children_of_child_eq_some hm).bind
      fun v b₁ hb₁ ⟨scope, hscope, hbinds⟩ => ?_
  refine addWrite_declares fun m hm _ => ?_
  cases hm
  have hnew := get?_entered b scopeKind (some n) (b.entered scopeKind (some n)).current
  rw [if_pos rfl] at hnew
  obtain ⟨other, hother, hdeclares⟩ := hb₁.scopes _ _ hnew
  cases hother.symm.trans hscope
  exact ⟨_, scope, _, hscope, hdeclares.node, hbinds⟩

/-- The scope of a function, in which its body opens. -/
theorem enterFunction_follows (reportUndefined : Bool) (hshape : a.Shaped root)
    (h : Reached a root b n) (hb : b.Sound)
    (hkind : a.kind? (some n) = some kind) (hfunction : kind.isFunctionLike = true) {i j : Nat}
    (hparams : kind.place i = .only [.parameterList])
    (hbody : kind.place j = .only [.block] ∨ kind.place j = .body)
    {m : ScopeId → Bind PUnit}
    (hm : Runs (Declares a (a.visitPlan root n (a.bodyOwes (a.child (some n) j))) b.scopes.size)
      (b.entered .function (some n)) (m (b.entered .function (some n)).current) fun _ _ => True) :
    Follows a root reportUndefined n [] b ((do
      let id ← enterScope .function (some n)
      m id
      let works ← enterBody a (a.child (some n) i) (a.child (some n) j)
      return works ++ [.exitScope] : Bind (List Work)) b) := by
  have hself : a.reservations (some n) = [] := by
    refine Arena.reservations_of_kind hkind ?_ ?_ ?_ <;>
      · rintro rfl
        cases hfunction
  refine .enter (a.bodyOwes (a.child (some n) j)) (fun _ => hself) ?_
  refine hm.bind fun _ e hinside _ => ?_
  refine (enterBody_inside hshape h hb hkind hfunction hparams hbody hself hinside).bind
    fun works b' _ hleaves => .pure (.refl _) ?_
  exact ⟨works, rfl, fun name hname => ⟨rfl, hleaves.owed name hname⟩, hleaves.asks,
    hleaves.promises⟩

end Bodies

theorem finishFunction_follows (hshape : a.Shaped root) (h : Reached a root b n) (hb : b.Sound)
    (hkind : a.kind? (some n) = some kind)
    (hfunction : kind = .functionDeclaration ∨ kind = .functionExpression ∨ kind = .arrowFunction) :
    Follows a root reportUndefined n [] b (finishFunction a n kind b) := by
  have hnothing {owed : Atom → Prop} : Runs (Declares a (a.visitPlan root n owed) b.scopes.size)
      (b.entered .function (some n)) (pure PUnit.unit) fun _ _ => True := .pure (.refl _) trivial
  rcases hfunction with rfl | rfl | rfl
  · exact enterFunction_follows reportUndefined hshape h hb hkind rfl (i := 1)
      (j := 2) rfl (.inl rfl)
      (m := fun _ => pure PUnit.unit) hnothing
  · by_cases hname : (a.child (some n) 0).isSome = true
    · have hown := declareOwnName_inside (a.bodyOwes (a.child (some n) 2)) hshape h hb hkind
        (by decide) rfl .function
      have hfollows := enterFunction_follows reportUndefined hshape h hb hkind rfl
        (i := 1) (j := 2) rfl (.inl rfl) (m := fun id => do
          let variableId ← declareVariable a id (a.child (some n) 0)
          Analysis.modifyValues (·.addWrite variableId (some n))) hown
      unfold finishFunction
      simp only [hname, decide_true, Bool.and_self, if_true, reduceCtorEq, if_false]
      exact hfollows
    · have hfollows := enterFunction_follows reportUndefined hshape h hb hkind rfl
        (i := 1) (j := 2) rfl (.inl rfl) (m := fun _ => pure PUnit.unit) hnothing
      unfold finishFunction
      simp only [hname, Bool.and_false, Bool.false_eq_true, reduceCtorEq, if_false]
      exact hfollows
  · exact enterFunction_follows reportUndefined hshape h hb hkind rfl (i := 0)
      (j := 1) rfl (.inr rfl)
      (m := fun _ => pure PUnit.unit) hnothing

/-- A function declaration, function expression or arrow function. -/
theorem visitFunction_follows (hshape : a.Shaped root) (h : Ready a root b n) (hb : b.Sound)
    (hannotated : b.Annotated a) (hkind : a.kind? (some n) = some kind)
    (hfunction : kind = .functionDeclaration ∨ kind = .functionExpression ∨ kind = .arrowFunction) :
    Follows a root reportUndefined n [] b (visitFunction a n kind b) := by
  have hvar : a.kind? (some n) ≠ some .varStatement := by
    rw [hkind]
    rcases hfunction with rfl | rfl | rfl <;> decide
  have hfinish (b₁ : Binder) (hb₁ : Declares a (a.idlePlan root n) b.scopes.size b b₁) :
      Follows a root reportUndefined n [] b₁ (finishFunction a n kind b₁) :=
    finishFunction_follows hshape (h.toReached.extended hb hvar hb₁.toExtends)
      (hb₁.sound hb) hkind hfunction
  -- the name of a function declaration has its variable since the body around it opened
  have hrest (b₁ : Binder) (hb₁ : Declares a (a.idlePlan root n) b.scopes.size b b₁) :
      Follows a root reportUndefined n [] b₁ ((do
        let name := a.child (some n) 0
        if kind = .functionDeclaration && name.isSome then
          if ((← get).analysis.valueOf? name).isNone then
            let variableId ← declareVariable a (← functionScope) name
            Analysis.modifyValues (·.addWrite variableId (some n))
        finishFunction a n kind : Bind (List Work)) b₁) := by
    dsimp only
    split
    · next hdeclares =>
      rw [Bool.and_eq_true, decide_eq_true_eq] at hdeclares
      obtain ⟨rfl, hname⟩ := hdeclares
      obtain ⟨m, hm⟩ := Option.isSome_iff_exists.1 hname
      have hvalue : (b₁.analysis.valueOf? (a.child (some n) 0)).isSome := by
        rw [hm]
        refine hb₁.valued _ (h.covered.hoisted (.functionName n m) ?_)
        rw [Arena.hoisted_functionDeclaration hkind, hm]
        exact List.mem_singleton_self _
      have hsome : ¬(b₁.analysis.valueOf? (a.child (some n) 0)).isNone = true := by
        simpa using Option.isSome_iff_ne_none.1 hvalue
      show Follows a root reportUndefined n [] b₁
        ((if (b₁.analysis.valueOf? (a.child (some n) 0)).isNone =
        true then _ else _ : Bind (List Work)) b₁)
      rw [if_neg hsome]
      exact hfinish b₁ hb₁
    · exact hfinish b₁ hb₁
  have hrefl : Declares a (a.idlePlan root n) b.scopes.size b b := .refl b
  unfold visitFunction
  show Follows a root reportUndefined n [] b
    ((if (b.analysis.valueOf? (some n)).isNone = true then _
    else _ : Bind (List Work)) b)
  split
  · exact .declare (createFunction_declares hshape h hb hannotated hkind hfunction)
      fun _ b₁ hb₁ _ =>
      hrest b₁ hb₁
  · exact hrest b hrefl

/-- A method, which becomes a member of its class. -/
theorem visitMethod_follows (hshape : a.Shaped root) (h : Ready a root b n) (hb : b.Sound)
    (hkind : a.kind? (some n) = some .method) :
    Follows a root reportUndefined n [] b (visitMethod a n b) := by
  have hvar : a.kind? (some n) ≠ some .varStatement := by simp [hkind]
  have hfinish (b₁ : Binder) (hb₁ : Declares a (a.idlePlan root n) b.scopes.size b b₁) :
      Follows a root reportUndefined n [] b₁ (finishMethod a n b₁) :=
    enterFunction_follows reportUndefined hshape (h.toReached.extended hb hvar hb₁.toExtends)
      (hb₁.sound hb) hkind rfl
      (i := 1) (j := 2) rfl (.inl rfl) (m := fun _ => pure PUnit.unit) (.pure (.refl _) trivial)
  have hname : ∀ m, a.child (some n) 0 = some m → a.kind? (some m) =
      some .propertyName := fun m hm =>
    hshape.kind?_child h.listed hkind rfl hm
  have hassigned : ∀ m, some n = some m → a.isAssigned m = false := by
    rintro m ⟨⟩
    exact hshape.not_isAssigned h.listed hkind rfl rfl (by decide)
  refine .declare (P := fun _ _ => True)
    ⟨.onValues (.alloc _ fun slot hslot => by cases hslot), trivial⟩
    fun v b₁ hb₁ _ => ?_
  have hself : ∀ m, some n = some m → a.kind? (some m) = some .method := by
    rintro m ⟨⟩
    exact hkind
  refine .declare (setOther_declares _ hself (by decide) (by decide) v) fun _ b₂ hb₂ _ => ?_
  rw [hb₁.size] at hb₂
  have hb₂' := hb₁.trans hb₂
  rw [run_bind, run_get]
  dsimp only
  cases b₂.analysis.valueOf? (a.enclosingClass (some n)) with
  | none => exact hfinish b₂ hb₂'
  | some cls =>
    dsimp only
    cases b₂.analysis.store.values.class? cls with
    | none => exact hfinish b₂ hb₂'
    | some data =>
      dsimp only
      refine .declare (newProperty_declares _ _ _) fun property b₃ hb₃ _ => ?_
      rw [hb₂'.size] at hb₃
      have hb₃' := hb₂'.trans hb₃
      refine .declare (setOther_declares _ hname (by decide) (by decide) property)
        fun _ b₄ hb₄ _ => ?_
      rw [hb₃'.size] at hb₄
      have hb₄' := hb₃'.trans hb₄
      refine .declare (addOther_declares hassigned property) fun _ b₅ hb₅ _ => ?_
      rw [hb₄'.size] at hb₅
      exact hfinish b₅ (hb₄'.trans hb₅)

/-! ## Classes -/

theorem Declares.binds {plan : Plan} {k : Nat} {id : ScopeId} {name : Atom}
    (hstep : Declares a plan k b b') (h : b.Binds id name) : b'.Binds id name := by
  obtain ⟨scope, hscope, htarget⟩ := h
  obtain ⟨x, hx⟩ := Option.isSome_iff_exists.1 htarget
  obtain ⟨scope', hscope', hstill⟩ := hstep.spares.scopes id scope hscope
  exact ⟨scope', hscope', Option.isSome_iff_exists.2 ⟨x, hstill.binds _ _ _ hx⟩⟩

/-- A scope that takes a name still takes it after more declarations. -/
theorem Declares.takes {plan : Plan} {k : Nat} {id : ScopeId} {space : Namespace} {name : Atom}
    (hstep : Declares a plan k b b') (hid : id.index < b.scopes.size)
    (h : ∀ scope, b.scopes.get? id = some scope → scope.takes space name = true) :
    ∀ scope, b'.scopes.get? id = some scope → scope.takes space name = true := by
  intro scope' hscope'
  obtain ⟨scope, hscope⟩ := ScopeTree.exists_get?_of_lt hid
  obtain ⟨other, hother, hstill⟩ := hstep.spares.scopes id scope hscope
  obtain ⟨same, hsame, hdeclares⟩ := hstep.scopes id scope hscope
  cases hother.symm.trans hscope'
  cases hsame.symm.trans hscope'
  have htakes := h scope hscope
  rw [Scope.takes, Bool.or_eq_true] at htakes ⊢
  rcases htakes with hbound | hreserved
  · obtain ⟨x, hx⟩ := Option.isSome_iff_exists.1 hbound
    exact .inl (Option.isSome_iff_exists.2 ⟨x, hstill.binds _ _ _ hx⟩)
  · rw [Scope.reserves, List.contains_iff_mem] at hreserved ⊢
    exact .inr (hdeclares.reserved _ hreserved)

/-- The name of a class is bound as a variable and as a type in a scope that takes it. -/
theorem declareClassName_declares (plan : Plan) {k : Nat} (hb : b.Sound) {id : ScopeId}
    (hid : id ∈ b.scopes.chain b.current) (name : NodeRef)
    (hname : ∀ m, name = some m → a.kind? (some m) = some .bindingName ∧ a.isLexicalName m = false)
    (htakes : id.index < k → ∀ space scope, b.scopes.get? id = some scope →
      scope.takes space (a.atom name) = true)
    (howns : ∀ b₁ v, Declares a plan k b b₁ → (∃ scope, b₁.scopes.get? id = some scope ∧
      scope.target? .value (a.atom name) = some (.inl v)) → a.isAssigned n = true → b₁.Owns n v)
    (cls : ValueId) :
    Runs (Declares a plan k) b (declareClassName a id n name cls) fun _ b' =>
      b'.Binds id (a.atom name) := by
  refine (declareVariable_declares hb hid (fun m hm => (hname m hm).1) (fun m hm hlexical => ?_)
    fun hlt => htakes hlt .value).bind fun v b₁ hb₁ hbound => ?_
  · rw [(hname m hm).2] at hlexical
    cases hlexical
  refine (addWrite_declares fun m hm hassigned => ?_).bind fun _ b₂ hb₂ _ => ?_
  · cases hm
    exact howns b₁ v hb₁ hbound hassigned
  have hb₂' := hb₁.trans hb₂
  have hbinds : b₂.Binds id (a.atom name) := by
    obtain ⟨scope, hscope, htarget⟩ := hbound
    exact hb₂.binds ⟨scope, hscope, Option.isSome_iff_exists.2 ⟨_, htarget⟩⟩
  have hid₂ : id ∈ b₂.scopes.chain b₂.current := by
    rwa [hb₂'.chain hb]
  have htype := declareClassType_declares (a := a) (k := k) plan (hb₂'.sound hb) hid₂ name cls
    fun hlt scope hscope => .inl (hb₂'.takes (hb.lt_size hid) (htakes hlt .type) scope hscope)
  exact ⟨htype.1, htype.1.binds hbinds⟩

/-- What a class declaration reserves. -/
theorem Arena.reservations_classDeclaration (hkind : a.kind? (some n) = some .classDeclaration) :
    a.reservations (some n) = ((a.child (some n) 0).map fun m =>
      [(.value, a.atom (some m)), (.type, a.atom (some m))]).getD [] := by
  unfold reservations
  have hannotated : a.isKind (some n) .annotated = false := by simp [isKind, hkind]
  rw [hannotated]
  simp only [Bool.false_eq_true, if_false, hkind]
  cases a.child (some n) 0 <;> rfl

/-- A class declaration binds its name in the nearest block, which has reserved it. -/
theorem classDeclaration_follows (hshape : a.Shaped root) (h : Ready a root b n) (hb : b.Sound)
    (hkind : a.kind? (some n) = some .classDeclaration) (cls : ValueId) {b₁ : Binder}
    (hb₁ : Declares a (a.idlePlan root n) b.scopes.size b b₁) :
    Follows a root reportUndefined n [] b₁ ((do
      if (a.child (some n) 0).isSome then
        declareClassName a (← lexicalScope) n (a.child (some n) 0) cls
      return Work.visit? (a.child (some n) 1) ++ Work.children a (a.child (some n) 2) :
        Bind (List Work)) b₁) := by
  have hsound := hb₁.sound hb
  have hreached := h.toReached.extended hb (by simp [hkind]) hb₁.toExtends
  have hreserved := Arena.reservations_classDeclaration hkind
  have hparts := classParts hshape h.listed hkind rfl
  cases hname : a.child (some n) 0 with
  | none =>
    rw [hname] at hreserved
    refine .stay (.refl b₁) (hparts.asks fun c hc => hc.ready hshape h.listed fun _ hchild =>
      hreached.child hkind (by decide) hchild) (promises_of_nil hreserved _ _)
  | some m =>
    rw [hname] at hreserved
    have hmem := Arena.mem_children_of_child_eq_some hname
    have htakes : ∀ space scope, b₁.scopes.get? (b₁.scopes.nearestLexical b₁.current) = some scope →
        scope.takes space (a.atom (some m)) = true := by
      intro space scope hscope
      have hmem : (space, a.atom (some m)) ∈ a.reservations (some n) := by
        rw [hreserved]
        cases space <;> simp
      obtain ⟨other, hother, hp⟩ := (hb₁.covered hb h.covered).reserved _ hmem
      rw [hb₁.current] at hscope
      cases hother.symm.trans hscope
      simp [Scope.takes, Scope.reserves, hp]
    have hdeclare := declareClassName_declares (n := n) (k := b₁.scopes.size) (a.idlePlan root n)
      hsound (declaring_mem_chain hsound true) (some m)
      (fun c hc => ?_) (fun _ => htakes) (fun _ _ _ _ hassigned => ?_) cls
    · refine .ofRefersTo (.ofDeclares (@Runs.of_eq _ _ _ _ _ _ (do
        declareClassName a (b₁.scopes.nearestLexical b₁.current) n (some m) cls
        return Work.visit? (a.child (some n) 1) ++ Work.children a (a.child (some n) 2)) rfl ?_))
      refine hdeclare.bind fun _ b₂ hb₂ hbinds => .pure (.refl _)
        ⟨hparts.asks fun c hc => ?_, fun name hmem => .inl ?_⟩
      · exact hc.ready hshape h.listed fun _ hchild =>
          (hreached.extended hsound (by simp [hkind]) hb₂.toExtends).child hkind (by decide) hchild
      · rw [hreserved] at hmem
        obtain rfl : name = a.atom (some m) := by simpa using hmem
        rw [hb₂.current, ScopeTree.nearestLexical, hb₂.nearest hsound]
        exact hbinds
    · cases hc
      exact ⟨hshape.kind?_child h.listed hkind rfl hname,
        hshape.not_isLexicalName_child h.listed hkind (by decide) hmem⟩
    · rw [hshape.not_isAssigned h.listed hkind rfl rfl (by decide)] at hassigned
      cases hassigned

/-- The name of a class expression is bound in a scope of its own. -/
theorem classExpression_follows (hshape : a.Shaped root) (h : Reached a root b n) (hb : b.Sound)
    (hkind : a.kind? (some n) = some .classExpression) (cls : ValueId) :
    Follows a root reportUndefined n [] b ((do
      let inner := Work.visit? (a.child (some n) 1) ++ Work.children a (a.child (some n) 2)
      if (a.child (some n) 0).isSome then
        let id ← enterScope .block (some n)
        declareClassName a id n (a.child (some n) 0) cls
        return inner ++ [.exitScope]
      else return inner : Bind (List Work)) b) := by
  have hself := Arena.reservations_of_kind hkind (by decide) (by decide) (by decide)
  have hparts := classParts hshape h.listed hkind rfl
  dsimp only
  split
  · have hsound := sound_entered b .block (some n) hb
    refine .enter (fun _ => False) (fun _ => hself) ?_
    refine (declareClassName_declares (n := n) _ hsound (ScopeTree.mem_chain_self hsound.nested _) _
      (fun c hc => ?_) (fun hlt => (Nat.lt_irrefl _ hlt).elim)
        (fun b₁ v hb₁ hbound _ => ?_) cls).bind
        fun _ b' hinside _ => .pure (.refl _) ?_
    · have hmem := Arena.mem_children_of_child_eq_some hc
      exact ⟨hshape.kind?_child h.listed hkind rfl hc,
        hshape.not_isLexicalName_child h.listed hkind (by decide) hmem⟩
    · obtain ⟨scope, hscope, hbinds⟩ := hbound
      have hnew := get?_entered b .block (some n) (b.entered .block (some n)).current
      rw [if_pos rfl] at hnew
      obtain ⟨other, hother, hdeclares⟩ := hb₁.scopes _ _ hnew
      cases hother.symm.trans hscope
      exact ⟨_, scope, _, hscope, hdeclares.node, hbinds⟩
    · refine ⟨_, rfl, fun _ hfalse => hfalse.elim, hparts.asks fun c hc =>
        ?_, promises_of_nil hself _ _⟩
      exact hc.ready hshape h.listed fun _ hchild =>
        h.inside hb hkind (by decide) (by decide) hinside.toExtends hchild
  · refine .stay (.refl b) (hparts.asks fun c hc => ?_) (promises_of_nil hself _ _)
    exact hc.ready hshape h.listed fun _ hchild => h.child hkind (by decide) hchild

/-- A class declaration or class expression. -/
theorem visitClass_follows (hshape : a.Shaped root) (h : Ready a root b n) (hb : b.Sound)
    (hkind : a.kind? (some n) = some kind)
    (hclass : kind = .classDeclaration ∨ kind = .classExpression) :
    Follows a root reportUndefined n [] b (visitClass a n b) := by
  have hsite : a.isKind (some n) .identifier = false ∧ a.isKind (some n) .bindingName = false := by
    rcases hclass with rfl | rfl <;> simp [Arena.isKind, hkind]
  refine .declare (m := governingComment a n) (P := fun _ _ => True) ⟨.refl b, trivial⟩
    fun doc b₁ hb₁ _ => ?_
  refine .declare (declareClass_declares hsite.1 hsite.2 _ _ _ _) fun cls b₂ hb₂ _ => ?_
  rw [hb₁.size] at hb₂
  have hb₂' := hb₁.trans hb₂
  rcases hclass with rfl | rfl
  · dsimp only
    rw [if_pos (Arena.isKind_iff.2 hkind)]
    exact classDeclaration_follows hshape h hb hkind cls hb₂'
  · have hother : ¬a.isKind (some n) .classDeclaration = true := by simp [Arena.isKind, hkind]
    dsimp only
    rw [if_neg hother]
    refine .declare (bindClassType_declares (hb₂'.sound hb) hkind (by decide) cls
      (fun heq => by cases heq)
      fun d hd hdkind hchild scope _ => .inr (.inr ⟨d, ?_, hdkind, ?_, rfl⟩)) fun _ b₃ hb₃ _ => ?_
    · obtain ⟨d', hd', -, hparent⟩ := hshape.exists_parent h.listed hkind rfl
      cases hd.symm.trans hparent
      exact hd'
    · rw [hchild, Arena.isKind_iff]
      exact hkind
    · rw [hb₂'.size] at hb₃
      have hb₃' := hb₂'.trans hb₃
      exact classExpression_follows hshape
        (h.toReached.extended hb (by simp [hkind]) hb₃'.toExtends)
        (hb₃'.sound hb) hkind cls

end Follows

end DocTypes
