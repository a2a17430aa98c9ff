import DocTypes.Proofs.Handles.Visits
import DocTypes.Proofs.Nodes.Names

/-!
# What stands at the nodes that are visited

In a complete tree the rule of every node enters values at nodes that are there, and classes at the
nodes that make them. A rule asks for nodes of the program, and the comment that governs one of them
is compiled before it is visited (`Binder.Compiled`): the visit of a commented node compiles it, and
other visits ask for nodes that the same comment governs, or none.

## Main statements

* `Binder.visit_settles`: the rule of one node.
* `Binder.perform_settles`: a piece of work, with all that follows from it.
* `Analysis.bindNames_sited`: the whole pass.
-/

namespace DocTypes

namespace Arena

variable {a : Arena} {root : NodeRef} {n : Nat} {kind : NodeKind}

theorem isKind_eq_false {r : NodeRef} {other : NodeKind} (h : a.kind? r = some kind)
    (hne : kind ≠ other) : a.isKind r other = false := by
  rw [isKind, h]
  simpa using hne

/-- A child at a place for other kinds is not of a kind. -/
theorem Shaped.isKind_child (h : a.Shaped root) (hn : n ∈ a.listing root)
    (hkind : a.kind? (some n) = some kind) {i : Nat} {kinds : List NodeKind}
    (hplace : kind.place i = .only kinds) {other : NodeKind} (hother : other ∉ kinds) :
    a.isKind (a.child (some n) i) other = false := by
  cases hc : a.child (some n) i with
  | none => rfl
  | some c =>
    have hadmits := h.admits_child hn hkind hc
    rw [hplace] at hadmits
    obtain ⟨only, honly, hmem⟩ : ∃ k, a.kind? (some c) = some k ∧ kinds.contains k = true :=
      kind?_of_isOf hadmits
    refine isKind_eq_false honly ?_
    rintro rfl
    exact hother (List.contains_iff_mem.1 hmem)

/-! ## Nodes that make classes -/

theorem makesClass_function (hn : n ∈ a.code root) (hkind : a.kind? (some n) = some kind)
    (hfunction : kind = .functionDeclaration ∨ kind = .functionExpression ∨ kind = .arrowFunction)
    {doc : DocComment} (hdoc : a.governingDoc n = some doc) (hclass : doc.kind.isClass = true) :
    a.MakesClass root n (Binder.classKind (some doc)) := by
  refine ⟨hn, ?_⟩
  rw [hkind]
  rcases hfunction with rfl | rfl | rfl <;> exact ⟨doc, hdoc, hclass, rfl⟩

theorem makesClass_body (hn : n ∈ a.code root) (hkind : a.kind? (some n) = some kind)
    (hbody : kind = .classDeclaration ∨ kind = .classExpression) :
    a.MakesClass root n (Binder.classKind (a.governingDoc n)) := by
  refine ⟨hn, ?_⟩
  rw [hkind]
  rcases hbody with rfl | rfl <;> rfl

theorem makesClass_declaration (hn : n ∈ a.code root)
    (hkind : a.kind? (some n) = some .varDeclaration)
    (hplain : a.isOf (fun kind => kind.isFunctionLike || kind.isClassLike)
      (a.child (some n) 1) = false)
    (classKind : ClassKind) : a.MakesClass root n classKind := by
  refine ⟨hn, ?_⟩
  rw [hkind]
  exact hplain

theorem makesClass_statement (hn : n ∈ a.code root)
    (hkind : a.kind? (some n) = some .expressionStatement)
    (hmember : a.isKind (a.child (some n) 0) .memberExpression = true) (classKind : ClassKind) :
    a.MakesClass root n classKind := by
  refine ⟨hn, ?_⟩
  rw [hkind]
  exact hmember

end Arena

/-! ## Work -/

/-- Work that asks for nodes under a node. -/
def Asks (a : Arena) (root r : NodeRef) (works : List Work) : Prop :=
  ∀ m, Work.visit m ∈ works → a.Under root r (some m)

section Asking

variable {a : Arena} {root r q : NodeRef} {works works' : List Work}

theorem asks_nil : Asks a root r [] := fun _ h => (List.not_mem_nil h).elim

theorem asks_append (h : Asks a root r works) (h' : Asks a root r works') :
    Asks a root r (works ++ works') := fun m hm => (List.mem_append.1 hm).elim (h m) (h' m)

theorem asks_exitScope (h : Asks a root r works) : Asks a root r (works ++ [.exitScope]) :=
  asks_append h fun m hm => by simp at hm

theorem asks_flatten {lists : List (List Work)} (h : ∀ works ∈ lists, Asks a root r works) :
    Asks a root r lists.flatten := by
  intro m hm
  obtain ⟨works, hworks, hmem⟩ := List.mem_flatten.1 hm
  exact h works hworks m hmem

theorem asks_visit? (h : a.Under root r q) : Asks a root r (Work.visit? q) := by
  intro m hm
  cases q with
  | none => cases hm
  | some k =>
    cases List.mem_singleton.1 hm
    exact h

theorem asks_children (h : ∀ s ∈ a.children q, a.Under root r s) :
    Asks a root r (Work.children a q) := by
  intro m hm
  obtain ⟨c, hc, heq⟩ := List.mem_map.1 hm
  cases heq
  exact h _ (Arena.mem_presentChildren.1 hc)

end Asking

namespace Binder

open Analysis Arena

/-- The comment that governs a node is compiled. -/
def Compiled (a : Arena) (b : Binder) (n : Nat) : Prop :=
  ∀ t, a.governingTarget n = some t → (b.comments.get? (some t)).isSome

section Rules

variable {a : Arena} {root : NodeRef} (h : a.Shaped root) (hc : a.Complete root) {b : Binder}

/-! ## Functions -/

include h hc in
theorem declareParameter_settles (hb : b.Sited a root) (id : ScopeId) {r param : NodeRef}
    (hparam : a.Under root r param) :
    Runs (Settles a root) b (declareParameter a id param) fun works _ => Asks a root r works := by
  unfold declareParameter
  split
  · next hkind =>
    obtain ⟨n, rfl⟩ := exists_of_kind? hkind
    exact (declareVariable_settles hb id rfl).discard.bind fun _ _ h₁ _ =>
      pure_settles h₁.sited asks_nil
  · next hkind =>
    obtain ⟨n, rfl⟩ := exists_of_kind? hkind
    have hbinding := hc.isSome_child (mem_listing_of_mem_code hparam.mem_code) hkind
        rfl (i := 0) rfl
    have hinit := h.under_child hparam (isKind_eq_false hkind (by decide))
      (isKind_eq_false hkind (by decide)) 1
    refine (declareVariable_settles hb id hbinding).bind fun v b₁ h₁ _ => ?_
    split
    · exact pure_settles h₁.sited asks_nil
    · exact (addWrite_settles h₁.sited v _).bind fun _ _ h₂ _ =>
        pure_settles h₂.sited (asks_visit? hinit)
  · next hkind =>
    obtain ⟨n, rfl⟩ := exists_of_kind? hkind
    have hbinding := hc.isSome_child (mem_listing_of_mem_code hparam.mem_code) hkind
        rfl (i := 0) rfl
    exact (declareVariable_settles hb id hbinding).discard.bind fun _ _ h₁ _ => pure_settles
      h₁.sited asks_nil
  · exact pure_settles hb asks_nil

include h hc in
/-- The parameters and the body of a function are under its node. -/
theorem enterBody_settles (hb : b.Sited a root) {r params body : NodeRef}
    (hparams : a.Under root r params) (hlist : ∀ kind, kind ≠ .parameterList → a.isKind params kind
    = false)
    (hbody : a.Under root r body) :
    Runs (Settles a root) b (do return (← enterBody a params body) ++ [.exitScope]) fun works _ =>
      Asks a root r works := by
  have hparam {param : NodeRef} (hmem : param ∈ a.children params) : a.Under root r param :=
    h.under_of_mem_children hparams (hlist _ (by decide)) (hlist _ (by decide)) hmem
  have hentered : Runs (Settles a root) b (enterBody a params body) fun works _ => Asks a root r
    works := by
    refine .get_bind ((Runs.mapM (Q := fun works _ => Asks a root r works) (.refl hb)
      (fun _ _ _ _ hworks => hworks) fun param hmem _ hkeeps =>
        declareParameter_settles h hc hkeeps.sited _ (hparam hmem)).bind ?_)
    intro defaults b₁ h₁ hdefaults
    have hasks := asks_flatten hdefaults
    refine .ite (fun hblock => ?_) fun _ =>
      pure_settles h₁.sited (asks_append hasks (asks_visit? hbody))
    refine (openBody_settles h₁.sited _ _).bind fun _ _ h₂ _ => pure_settles h₂.sited
      (asks_append hasks ?_)
    have hkind := isKind_iff.1 hblock
    exact asks_children fun s hs => h.under_of_mem_children hbody
      (isKind_eq_false hkind (by decide)) (isKind_eq_false hkind (by decide)) hs
  exact hentered.bind fun works _ h₁ hworks => pure_settles h₁.sited (asks_exitScope hworks)

/-- The comment that is compiled for a node is the one that governs it. -/
theorem Sited.governingDoc_eq (hb : b.Sited a root) {n : Nat} {doc : DocComment}
    (hdoc : ((a.governingTarget n).bind fun target => b.comments.get? (some target)) = some doc) :
    a.governingDoc n = some doc := by
  obtain ⟨t, ht, hcomment⟩ := Option.bind_eq_some_iff.1 hdoc
  rw [governingDoc, ht, Option.map_some, hb.comments t doc hcomment]

theorem createFunction_settles (hb : b.Sited a root) {n : Nat} (hn : n ∈ a.code root)
    {kind : NodeKind}
    (hkind : a.kind? (some n) = some kind)
    (hfunction : kind = .functionDeclaration ∨ kind = .functionExpression ∨ kind = .arrowFunction) :
    Runs (Settles a root) b (createFunction a n) fun _ _ => True := by
  have hplain : Runs (Settles a root) b
      (do Analysis.setValue (some n) (← Analysis.onValues (·.newFunction (some n))) : Bind Unit)
      fun _ _ => True :=
    (newFunction_settles hb n).bind fun v _ h₁ hv => setValue_settles h₁.sited hv
  refine .get_bind ?_
  dsimp only
  split
  · next doc hdoc =>
    refine .ite (fun hclass => ?_) fun _ => hplain
    have hmakes := makesClass_function hn hkind hfunction (hb.governingDoc_eq hdoc) hclass
    exact (declareClass_settles hb _ _ _ hmakes).bind fun cls _ h₁ _ => bindClassType_settles
      h₁.sited _ cls
  · exact hplain

include h hc in
theorem finishFunction_settles (hb : b.Sited a root) {n : Nat} (hn : n ∈ a.code root)
    {kind : NodeKind}
    (hkind : a.kind? (some n) = some kind)
    (hfunction : kind = .functionDeclaration ∨ kind = .functionExpression ∨ kind = .arrowFunction) :
    Runs (Settles a root) b (finishFunction a n kind) fun works _ =>
      Asks a root (some n) works := by
  have hlisting := mem_listing_of_mem_code hn
  have hchild (i : Nat) : a.Under root (some n) (a.child (some n) i) :=
    h.under_child (under_self hn) (isKind_eq_false hkind (by rcases hfunction with rfl | rfl | rfl
      <;> decide))
      (isKind_eq_false hkind (by rcases hfunction with rfl | rfl | rfl <;> decide)) i
  have hbody {b : Binder} (hb : b.Sited a root) : Runs (Settles a root) b (do
      let works ←
        if kind = .arrowFunction then enterBody a (a.child (some n) 0) (a.child (some n) 1)
        else enterBody a (a.child (some n) 1) (a.child (some n) 2)
      return works ++ [.exitScope]) fun works _ => Asks a root (some n) works := by
    rcases hfunction with rfl | rfl | rfl
    · exact enterBody_settles h hc hb (hchild 1)
        (fun other hne => h.isKind_child hlisting hkind rfl (by simpa using hne)) (hchild 2)
    · exact enterBody_settles h hc hb (hchild 1)
        (fun other hne => h.isKind_child hlisting hkind rfl (by simpa using hne)) (hchild 2)
    · exact enterBody_settles h hc hb (hchild 0)
        (fun other hne => h.isKind_child hlisting hkind rfl (by simpa using hne)) (hchild 1)
  refine (enterScope_settles hb .function (some n)).bind fun id b₁ h₁ _ => ?_
  dsimp only
  split
  · next hnamed =>
    have hname := (Bool.and_eq_true _ _ ▸ hnamed).2
    refine (declareVariable_settles h₁.sited id hname).bind fun v _ h₂ _ => ?_
    exact (addWrite_settles h₂.sited v _).bind fun _ _ h₃ _ => hbody h₃.sited
  · exact hbody h₁.sited

include h hc in
theorem visitFunction_settles (hb : b.Sited a root) {n : Nat} (hn : n ∈ a.code root)
    {kind : NodeKind}
    (hkind : a.kind? (some n) = some kind)
    (hfunction : kind = .functionDeclaration ∨ kind = .functionExpression ∨ kind = .arrowFunction) :
    Runs (Settles a root) b (visitFunction a n kind) fun works _ => Asks a root (some n) works := by
  have hfinish {b : Binder} (hb : b.Sited a root) :=
    finishFunction_settles h hc hb hn hkind hfunction
  have hname {b : Binder} (hb : b.Sited a root) : Runs (Settles a root) b (do
      let name := a.child (some n) 0
      if kind = .functionDeclaration && name.isSome then
        if ((← get).analysis.valueOf? name).isNone then
          let variableId ← declareVariable a (← functionScope) name
          Analysis.modifyValues (·.addWrite variableId (some n))
      finishFunction a n kind) fun works _ => Asks a root (some n) works := by
    dsimp only
    split
    · next hnamed =>
      have hname := (Bool.and_eq_true _ _ ▸ hnamed).2
      refine .get_bind ?_
      split
      · refine .bind (P := fun _ _ => True) (.get_bind (pure_settles hb trivial))
          fun id b₁ h₁ _ => ?_
        refine (declareVariable_settles h₁.sited id hname).bind fun v _ h₂ _ => ?_
        exact (addWrite_settles h₂.sited v _).bind fun _ _ h₃ _ => hfinish h₃.sited
      · exact hfinish hb
    · exact hfinish hb
  refine .get_bind ?_
  dsimp only
  split
  · exact (createFunction_settles hb hn hkind hfunction).bind fun _ _ h₁ _ => hname h₁.sited
  · exact hname hb

include h hc in
theorem visitMethod_settles (hb : b.Sited a root) {n : Nat} (hn : n ∈ a.code root)
    (hkind : a.kind? (some n) = some .method) :
    Runs (Settles a root) b (visitMethod a n) fun works _ => Asks a root (some n) works := by
  have hlisting := mem_listing_of_mem_code hn
  have hname := hc.isSome_child hlisting hkind rfl (i := 0) rfl
  have hchild (i : Nat) : a.Under root (some n) (a.child (some n) i) :=
    h.under_child (under_self hn) (isKind_eq_false hkind (by decide))
      (isKind_eq_false hkind (by decide)) i
  have hfinish {b : Binder} (hb : b.Sited a root) :
      Runs (Settles a root) b (finishMethod a n) fun works _ => Asks a root (some n) works := by
    refine (enterScope_settles hb .function (some n)).discard.bind fun _ _ h₁ _ => ?_
    exact enterBody_settles h hc h₁.sited (hchild 1)
      (fun other hne => h.isKind_child hlisting hkind rfl (by simpa using hne)) (hchild 2)
  refine (newFunction_settles hb n).bind fun v _ h₀ hv => ?_
  refine (setValue_settles h₀.sited hv).bind fun _ b₁ h₁ _ => .get_bind ?_
  dsimp only
  split
  · exact hfinish h₁.sited
  · split
    · exact hfinish h₁.sited
    · refine (newProperty_settles h₁.sited _ _ _).bind fun property _ h₂ hslot => ?_
      refine (setValue_settles h₂.sited (.ofSlot hname hslot)).bind fun _ _ h₃ _ => ?_
      exact (addWrite_settles h₃.sited property _).bind fun _ _ h₄ _ => hfinish h₄.sited

/-! ## Classes -/

theorem declareClassName_settles (hb : b.Sited a root) (id : ScopeId) (n : Nat) {name : NodeRef}
    (hname : name.isSome) (cls : ValueId) :
    Runs (Settles a root) b (declareClassName a id n name cls) fun _ _ => True := by
  refine (declareVariable_settles hb id hname).bind fun v b₁ h₁ _ => ?_
  refine (addWrite_settles h₁.sited v _).bind fun _ b₂ h₂ _ => ?_
  exact (instanceOf_settles h₂.sited cls).bind fun t _ h₃ _ =>
    declareType_settles h₃.sited id name t

/-- Once the comment that governs a node is compiled, it is what is compiled for the node. -/
theorem Compiled.governingDoc_eq {n : Nat} (hcompiled : b.Compiled a n) (hb : b.Sited a root) :
    ((a.governingTarget n).bind fun target => b.comments.get? (some target)) =
      a.governingDoc n := by
  cases ht : a.governingTarget n with
  | none => rw [governingDoc, ht, Option.bind_none, Option.map_none]
  | some t =>
    obtain ⟨doc, hdoc⟩ := Option.isSome_iff_exists.1 (hcompiled t ht)
    rw [governingDoc, ht, Option.bind_some, Option.map_some, hdoc, hb.comments t doc hdoc]

include h in
theorem visitClass_settles (hb : b.Sited a root) {n : Nat} (hn : n ∈ a.code root)
    (hcompiled : b.Compiled a n) {kind : NodeKind} (hkind : a.kind? (some n) = some kind)
    (hbody : kind = .classDeclaration ∨ kind = .classExpression) :
    Runs (Settles a root) b (visitClass a n) fun works _ => Asks a root (some n) works := by
  have hlisting := mem_listing_of_mem_code hn
  have hchild (i : Nat) : a.Under root (some n) (a.child (some n) i) :=
    h.under_child (under_self hn)
      (isKind_eq_false hkind (by rcases hbody with rfl | rfl <;> decide))
      (isKind_eq_false hkind (by rcases hbody with rfl | rfl <;> decide)) i
  have hmember {other : NodeKind} (hother : other ≠ .classBody) :
      a.isKind (a.child (some n) 2) other = false := by
    rcases hbody with rfl | rfl <;>
      exact h.isKind_child hlisting hkind rfl (by simpa using hother)
  have hinner : Asks a root (some n)
      (Work.visit? (a.child (some n) 1) ++ Work.children a (a.child (some n) 2)) :=
    asks_append (asks_visit? (hchild 1)) (asks_children fun s hs =>
      h.under_of_mem_children (hchild 2) (hmember (by decide)) (hmember (by decide)) hs)
  have hmakes := makesClass_body hn hkind hbody
  rw [← hcompiled.governingDoc_eq hb] at hmakes
  refine .get_bind ((declareClass_settles hb _ _ _ hmakes).bind fun cls b₁ h₁ _ => ?_)
  dsimp only
  split
  · split
    · next hname =>
      refine .bind (P := fun _ _ => True) (.get_bind (pure_settles h₁.sited trivial))
        fun id _ h₂ _ => ?_
      refine (declareClassName_settles h₂.sited id n hname cls).bind fun _ _ h₃ _ => ?_
      exact pure_settles h₃.sited hinner
    · exact pure_settles h₁.sited hinner
  · refine (bindClassType_settles h₁.sited _ cls).bind fun _ b₂ h₂ _ => ?_
    split
    · next hname =>
      refine (enterScope_settles h₂.sited .block (some n)).bind fun id _ h₃ _ => ?_
      refine (declareClassName_settles h₃.sited id n hname cls).bind fun _ _ h₄ _ => ?_
      exact pure_settles h₄.sited (asks_exitScope hinner)
    · exact pure_settles h₂.sited hinner

/-! ## Statements -/

/-- A declaration without a function or class in it may be made a class by its comment. -/
theorem declareAnnotated_settles (hb : b.Sited a root) {doc : DocComment}
    (hdoc : doc.Belongs a root)
    (id : ScopeId) {n : Nat} (hn : n ∈ a.code root)
    (hkind : a.kind? (some n) = some .varDeclaration) (v : ValueId) :
    Runs (Settles a root) b (declareAnnotated a doc id (some n) v) fun _ _ => True := by
  refine .ite (fun _ => .ite (fun hplain => ?_) fun _ => pure_settles hb trivial) fun _ =>
    .ite (fun _ => ?_) fun _ => pure_settles hb trivial
  · have hmakes := makesClass_declaration hn hkind (by simpa [isOf] using hplain)
      (classKind (some doc))
    refine (declareClass_settles hb _ _ _ hmakes).bind fun cls b₁ h₁ _ => ?_
    refine (addWrite_settles h₁.sited v _).bind fun _ b₂ h₂ _ => ?_
    exact (instanceOf_settles h₂.sited cls).bind fun t _ h₃ _ => declareType_settles h₃.sited id _ t
  · exact (aliasFor_settles hb hdoc _).bind fun t _ h₁ _ => declareType_settles h₁.sited id _ t

/-- The work that a declaration leaves is under its list. -/
def AsksPair (a : Arena) (root r : NodeRef) (works : List Work × List Work) : Prop :=
  Asks a root r works.1 ∧ Asks a root r works.2

/-- What is done for a variable once it is declared. -/
theorem annotatedVariable_settles (hb : b.Sited a root) (id : ScopeId) {doc : Option DocComment}
    (hdoc : ∀ x, doc = some x → x.Belongs a root) {r declaration : NodeRef}
    (hdeclaration : a.Under root r declaration)
    (hkind : ∀ d, declaration = some d → a.kind? (some d) = some .varDeclaration)
    (hinit : a.Under root r (a.child declaration 1)) {d : Nat} (hd : declaration = some d)
    (v : ValueId) :
    Runs (Settles a root) b (do
      match doc with
      | some x => declareAnnotated a x id declaration v
      | none => pure ()
      let init := a.child declaration 1
      if init.isSome then Analysis.modifyValues (·.addWrite v init)
      return (Work.visit? init, ([] : List Work)) : Bind (List Work × List Work)) fun works _ =>
      AsksPair a root r works := by
  have hwritten {b : Binder} (hb : b.Sited a root) :
      Runs (Settles a root) b (do
        let init := a.child declaration 1
        if init.isSome then Analysis.modifyValues (·.addWrite v init)
        return (Work.visit? init, ([] : List Work)) : Bind (List Work × List Work)) fun works _ =>
        AsksPair a root r works := by
    have hpair : AsksPair a root r (Work.visit? (a.child declaration 1), []) :=
      And.intro (asks_visit? hinit) asks_nil
    dsimp only
    split
    · exact (addWrite_settles hb v _).bind fun _ _ h₁ _ => pure_settles h₁.sited hpair
    · exact pure_settles hb hpair
  cases doc with
  | none => exact hwritten hb
  | some doc =>
    have hmade : Runs (Settles a root) b (declareAnnotated a doc id declaration v)
        fun _ _ => True := by
      subst hd
      exact declareAnnotated_settles hb (hdoc doc rfl) id hdeclaration.mem_code (hkind d rfl) v
    exact hmade.bind fun _ _ h₁ _ => hwritten h₁.sited

include h in
theorem visitDeclaration_settles (hb : b.Sited a root) (id : ScopeId) {doc : Option DocComment}
    (hdoc : ∀ x, doc = some x → x.Belongs a root) {r declaration : NodeRef}
    (hdeclaration : a.Under root r declaration)
    (hkind : ∀ d, declaration = some d → a.kind? (some d) = some .varDeclaration) :
    Runs (Settles a root) b (visitDeclaration a id doc declaration) fun works _ =>
      AsksPair a root r works := by
  have hother {other : NodeKind} (hne : .varDeclaration ≠ other) : a.isKind declaration other =
    false := by
    cases declaration with
    | none => rfl
    | some d => exact isKind_eq_false (hkind d rfl) hne
  have hchild (i : Nat) := h.under_child hdeclaration (hother (by decide)) (hother (by decide)) i
  have hannotated {b : Binder} (hb : b.Sited a root) {d : Nat} (hd : declaration = some d)
      (v : ValueId) :=
    annotatedVariable_settles hb id hdoc hdeclaration hkind (hchild 1) hd v
  unfold visitDeclaration
  dsimp only
  split
  · exact pure_settles hb ⟨asks_nil, asks_visit? (hchild 0)⟩
  · next hbinding =>
    obtain ⟨c, hc⟩ := exists_of_kind? (isKind_iff.1 (by simpa using hbinding))
    obtain ⟨d, -, hd, -⟩ := kind?_of_child hc
    refine .get_bind ?_
    split
    · next v _ => exact hannotated hb hd v
    · refine (declareVariable_settles hb id (Option.isSome_of_eq_some hc)).bind fun v _ h₁ _ => ?_
      exact hannotated h₁.sited hd v

include h in
theorem visitDeclarations_settles (hb : b.Sited a root) {n : Nat} (hn : n ∈ a.code root)
    (hkind : a.kind? (some n) = some .varStatement) :
    Runs (Settles a root) b (visitDeclarations a n) fun works _ => Asks a root (some n) works := by
  have hunder {d : NodeRef} (hd : d ∈ a.children (some n)) : a.Under root (some n) d :=
    h.under_of_mem_children (under_self hn) (isKind_eq_false hkind (by decide))
      (isKind_eq_false hkind (by decide)) hd
  have hdeclaration {d : Nat} (hd : some d ∈ a.children (some n)) :
      a.kind? (some d) = some .varDeclaration := by
    obtain ⟨i, -, hi⟩ := exists_child_of_mem_children hd
    exact h.kind?_child (mem_listing_of_mem_code hn) hkind rfl hi
  refine (declarationScope_settles hb _).bind fun id b₁ h₁ _ => .get_bind ?_
  refine (Runs.mapM (Q := fun works _ => AsksPair a root (some n) works) (.refl h₁.sited)
    (fun _ _ _ _ hworks => hworks) fun declaration hmem _ hkeeps =>
      visitDeclaration_settles h hkeeps.sited id (h₁.sited.belong _) (hunder hmem)
        fun d hd => hdeclaration (hd ▸ hmem)).bind ?_
  intro works b₂ h₂ hworks
  refine pure_settles h₂.sited fun m hm => ?_
  rcases List.mem_append.1 hm with hm | hm
  · obtain ⟨pair, hpair, hmem⟩ := List.mem_flatMap.1 hm
    exact (hworks pair hpair).1 m hmem
  · obtain ⟨pair, hpair, hmem⟩ := List.mem_flatMap.1 (List.mem_reverse.1 hm)
    exact (hworks pair hpair).2 m hmem

/-- The compiled comment of a node is kept. -/
theorem keepComment_settles (hb : b.Sited a root) {t : Nat} {doc : DocComment}
    (hdoc : doc = a.commentOn t ∧ doc.Belongs a root) :
    Runs (Settles a root) b
      (modify fun b => { b with comments := b.comments.insert (some t) doc } : Bind Unit)
      fun _ b' => (b'.comments.get? (some t)).isSome := by
  have hget (r : NodeRef) (other : DocComment)
      (hother : (b.comments.insert (some t) doc).get? r = some other) :
      some t = r ∧ other = doc ∨ b.comments.get? r = some other := by
    rw [NodeTable.get?_insert] at hother
    split at hother
    · next heq => exact .inl ⟨heq, (Option.some.inj hother).symm⟩
    · exact .inr hother
  refine ⟨⟨⟨hb.analysis, fun s other hother => ?_, fun r other hother => ?_⟩,
    ⟨.refl _, fun r hr => ?_⟩⟩, ?_⟩
  · rcases hget (some s) other hother with ⟨heq, rfl⟩ | hother
    · cases heq
      exact hdoc.1
    · exact hb.comments s other hother
  · rcases hget r other hother with ⟨-, rfl⟩ | hother
    · exact hdoc.2
    · exact hb.belong r other hother
  · show ((b.comments.insert (some t) doc).get? r).isSome
    rw [NodeTable.get?_insert]
    split
    · rfl
    · exact hr
  · show ((b.comments.insert (some t) doc).get? (some t)).isSome
    rw [NodeTable.get?_insert, if_pos rfl]
    rfl

/-- The names of `@template` tags get their types in the scope around a statement. -/
theorem declareTemplate_settles (hb : b.Sited a root) (id : ScopeId) {name : Nat}
    (hname : a.kind? (some name) = some .jsDocName) :
    Runs (Settles a root) b (do
      let t ← Analysis.onTypes (·.parameter (a.atom (some name)) (some name))
      Analysis.setType (some name) t
      declareType a id (some name) t) fun _ _ => True := by
  have hmade : Runs (Settles a root) b
      (Bind.onAnalysis (Analysis.onTypes (·.parameter (a.atom (some name)) (some name))))
      fun _ _ => True := intern_settles hb (by simp)
  refine hmade.bind fun t b₁ h₁ _ => ?_
  exact (setType_settles h₁.sited (.inr hname) t).bind fun _ _ h₂ _ =>
    declareType_settles h₂.sited id _ t

/-- A work list whose visits are of nodes of the program whose comments are compiled. -/
def Ready (a : Arena) (root : NodeRef) (works : List Work) (b : Binder) : Prop :=
  ∀ m, Work.visit m ∈ works → m ∈ a.code root ∧ b.Compiled a m

include h hc in
theorem visitAnnotated_settles (hb : b.Sited a root) {n : Nat} (hn : n ∈ a.code root)
    (hkind : a.kind? (some n) = some .annotated) :
    Runs (Settles a root) b (visitAnnotated a n) (Ready a root) := by
  have hlisting := mem_listing_of_mem_code hn
  obtain ⟨t, ht⟩ := hc.child hlisting hkind rfl (i := 1) rfl
  have hparent := h.parent_child hlisting (mem_children_of_child_eq_some ht)
  have hself := governingTarget_self hparent hkind ht
  have htarget : t ∈ a.code root := mem_code_of_child hn hkind (by decide) ht
  have hready {b : Binder} (hkept : (b.comments.get? (some t)).isSome) (last : List Work)
      (hlast : last = [.exitScope] ∨ last = []) :
      Ready a root (.typeNames (a.child (some n) 0) :: (Work.visit? (some t) ++ last)) b := by
    intro m hm
    have heq : m = t := by rcases hlast with rfl | rfl <;> simpa [Work.visit?] using hm
    subst heq
    exact ⟨htarget, fun s hs => by rwa [Option.some.inj (hself.symm.trans hs)] at hkept⟩
  have hopened {b : Binder} (hb : b.Sited a root) {doc : DocComment}
      (hdoc : doc = a.commentOn t ∧ doc.Belongs a root) :
      Runs (Settles a root) b (do
        let generic := !doc.typeParameters.isEmpty
        if generic then
          let id ← enterScope .typeParameters (some n)
          doc.typeParameters.forM fun name => do
            let t ← Analysis.onTypes (·.parameter (a.atom (some name)) (some name))
            Analysis.setType (some name) t
            declareType a id (some name) t
        modify fun b => { b with comments := b.comments.insert (some t) doc }
        return .typeNames (a.child (some n) 0) ::
          (Work.visit? (some t) ++ if generic then [.exitScope] else [])) (Ready a root) := by
    have hparameters : ∀ name ∈ doc.typeParameters, a.kind? (some name) = some .jsDocName := by
      rw [hdoc.1]
      exact fun _ => DocComment.kind?_of_mem_typeParameters
    dsimp only
    split
    · refine (enterScope_settles hb .typeParameters (some n)).bind fun id b₁ h₁ _ => ?_
      refine (Runs.forM (.refl h₁.sited) fun name hname _ hkeeps =>
        declareTemplate_settles hkeeps.sited id (hparameters name hname)).bind fun _ b₂ h₂ _ => ?_
      refine (keepComment_settles h₂.sited hdoc).bind fun _ b₃ h₃ hkept => ?_
      exact pure_settles h₃.sited (hready hkept _ (.inl rfl))
    · refine (keepComment_settles hb hdoc).bind fun _ b₁ h₁ hkept => ?_
      exact pure_settles h₁.sited (hready hkept _ (.inr rfl))
  refine .get_bind ?_
  rw [ht]
  have hdoc := DocComment.compile_fst (a := a) (a.child (some n) 0) (some t)
    (some b.analysis.diagnostics)
  have hreports : ∀ d ∈ ((DocComment.compile a (a.child (some n) 0) (some t)
      (some b.analysis.diagnostics)).2.getD b.analysis.diagnostics).toList,
      d ∈ b.analysis.diagnostics.toList ∨ d.problem ≠ .cyclicTypedef := fun d hd =>
    (DocComment.mem_compile hd).imp_right fun hcategory hproblem => by
      rw [hproblem] at hcategory
      cases hcategory
  generalize DocComment.compile a (a.child (some n) 0) (some t)
    (some b.analysis.diagnostics) = compiled
    at hdoc hreports
  obtain ⟨doc, sink⟩ := compiled
  have hcomment : doc = a.commentOn t ∧ doc.Belongs a root := by
    obtain rfl : doc = DocComment.silent a (a.child (some n) 0) (some t) := hdoc
    rw [commentOn, hparent]
    exact ⟨rfl, DocComment.belongs_silent hn hkind _⟩
  have hsunk : Runs (Settles a root) b (modify fun b =>
      { b with analysis := { b.analysis with diagnostics := sink.getD b.analysis.diagnostics } } :
        Bind Unit) fun _ _ => True :=
    ⟨⟨⟨hb.analysis.withNotes _ _ (hb.analysis.pending.withReports hreports),
      hb.comments, hb.belong⟩,
      ⟨.refl _, fun _ hr => hr⟩⟩, trivial⟩
  refine hsunk.bind fun _ b₁ h₁ _ => ?_
  dsimp only
  split
  · exact (reportAt_settles h₁.sited (by decide) _).bind fun _ _ h₂ _ => hopened h₂.sited hcomment
  · exact hopened h₁.sited hcomment

/-! ## Expressions -/

include h hc in
theorem visitPath_settles (hb : b.Sited a root) {r q : NodeRef} (hq : a.Under root r q)
    (create : Bool) :
    Runs (Settles a root) b (visitPath a q create) fun found _ => Asks a root r found.2 := by
  fun_induction visitPath a q create generalizing b with
  | case1 | case2 | case5 => exact pure_settles hb asks_nil
  | case3 create n hkind =>
    exact (visitIdentifier_settles hb hkind none).bind fun _ _ h₁ _ =>
      pure_settles h₁.sited asks_nil
  | case4 create n hkind ih =>
    have hobject := h.under_child hq (isKind_eq_false hkind (by decide))
      (isKind_eq_false hkind (by decide)) 0
    refine (ih hb hobject).bind fun found b₁ h₁ hfound => ?_
    obtain ⟨object?, works⟩ := found
    cases object? with
    | none => exact pure_settles h₁.sited hfound
    | some object =>
      have hname := hc.isSome_child (mem_listing_of_mem_code hq.mem_code) hkind rfl (i := 1) rfl
      exact (visitMember_settles h₁.sited hname object create).bind fun _ _ h₂ _ =>
        pure_settles h₂.sited hfound
  | case6 => exact pure_settles hb (asks_visit? hq)

include h hc in
theorem visitExpressionStatement_settles (hb : b.Sited a root) {n : Nat} (hn : n ∈ a.code root)
    (hkind : a.kind? (some n) = some .expressionStatement) :
    Runs (Settles a root) b (visitExpressionStatement a n) fun works _ =>
      Asks a root (some n) works := by
  have hchild : a.Under root (some n) (a.child (some n) 0) :=
    h.under_child (under_self hn) (isKind_eq_false hkind (by decide))
      (isKind_eq_false hkind (by decide)) 0
  refine .get_bind ?_
  split
  · exact pure_settles hb (asks_visit? hchild)
  · next doc hdoc =>
    dsimp only
    split
    · exact pure_settles hb (asks_visit? hchild)
    · next hmember =>
      refine (visitPath_settles h hc hb hchild true).bind fun found b₁ h₁ hworks => ?_
      obtain ⟨property?, works⟩ := found
      dsimp only
      split
      · exact pure_settles h₁.sited hworks
      · next property =>
        split
        · have hmakes := makesClass_statement hn hkind (by simpa using hmember)
            (classKind (some doc))
          refine (declareClass_settles h₁.sited _ _ _ hmakes).discard.bind fun _ b₂ h₂ _ => ?_
          exact (addWrite_settles h₂.sited property _).bind fun _ _ h₃ _ =>
            pure_settles h₃.sited hworks
        · split
          · refine (aliasFor_settles h₁.sited (hb.belong _ doc hdoc) _).bind fun t b₂ h₂ _ => ?_
            exact (nameType_settles h₂.sited property t).bind fun _ _ h₃ _ =>
              pure_settles h₃.sited hworks
          · exact pure_settles h₁.sited hworks

theorem nameMemberType_settles (hb : b.Sited a root) (n : Nat) (property : ValueId) :
    Runs (Settles a root) b (nameMemberType a n property) fun _ _ => True := by
  refine .ite (fun _ => pure_settles hb trivial) fun _ => .get_bind ?_
  split
  · next doc hdoc =>
    refine .ite (fun _ => ?_) fun _ => pure_settles hb trivial
    exact (aliasFor_settles hb (hb.belong _ doc hdoc) _).bind fun t _ h₁ _ =>
      nameType_settles h₁.sited property t
  · exact pure_settles hb trivial

/-- A value is noted among the writes of a slot, if there is one. -/
theorem addWriteIf_settles (hb : b.Sited a root) (v : ValueId) (value : NodeRef)
    {α : Type} {m : Bind α}
    {P : α → Binder → Prop} (hm : ∀ b', Settles a root b b' → Runs (Settles a root) b' m P) :
    Runs (Settles a root) b (do
      if value.isSome then Analysis.modifyValues (·.addWrite v value)
      m) P := by
  dsimp only
  split
  · exact (addWrite_settles hb v value).bind fun _ b' h₁ _ => hm b' h₁
  · exact hm b (.refl hb)

include h hc in
theorem visitAssignment_settles (hb : b.Sited a root) {n : Nat} (hn : n ∈ a.code root)
    (hkind : a.kind? (some n) = some .assignment) :
    Runs (Settles a root) b (visitAssignment a n) fun works _ => Asks a root (some n) works := by
  have hchild (i : Nat) : a.Under root (some n) (a.child (some n) i) :=
    h.under_child (under_self hn) (isKind_eq_false hkind (by decide))
      (isKind_eq_false hkind (by decide)) i
  have hvalue := asks_visit? (hchild 1)
  unfold visitAssignment
  dsimp only
  split
  · exact pure_settles hb hvalue
  · next htarget =>
    obtain ⟨c, hchild⟩ := exists_of_kind? htarget
    rw [hchild] at htarget ⊢
    exact (visitIdentifier_settles hb htarget _).discard.bind fun _ _ h₁ _ =>
      pure_settles h₁.sited hvalue
  · refine (visitPath_settles h hc hb (hchild 0) true).bind fun found b₁ h₁ hworks => ?_
    obtain ⟨property?, works⟩ := found
    have hdone {b : Binder} (hb : b.Sited a root) : Runs (Settles a root) b
        (pure (works ++ Work.visit? (a.child (some n) 1))) fun works _ =>
          Asks a root (some n) works :=
      pure_settles hb (asks_append hworks hvalue)
    cases property? with
    | none => exact hdone h₁.sited
    | some property =>
      refine addWriteIf_settles h₁.sited property _ fun b₂ h₂ => ?_
      exact (nameMemberType_settles h₂.sited n property).bind fun _ _ h₃ _ => hdone h₃.sited
  · next htarget =>
    have hpart (i : Nat) := h.under_child (hchild 0) (isKind_eq_false htarget (by decide))
      (isKind_eq_false htarget (by decide)) i
    obtain ⟨c, hc'⟩ := exists_of_kind? htarget
    refine (visitPath_settles h hc hb (hpart 0) false).bind fun found b₁ h₁ hworks => ?_
    obtain ⟨object?, works⟩ := found
    dsimp only
    split
    · refine .get_bind ((newProperty_settles h₁.sited _ _ _).bind fun property b₂ h₂ hslot => ?_)
      refine (setValue_settles h₂.sited (.ofSlot (Option.isSome_of_eq_some hc') hslot)).bind fun _
        b₃ h₃ _ => ?_
      refine addWriteIf_settles h₃.sited property _ fun b₄ h₄ => ?_
      exact pure_settles h₄.sited (asks_append hworks hvalue)
    · exact pure_settles h₁.sited (asks_append (asks_append (asks_visit? (hpart 1)) hworks) hvalue)
  · exact pure_settles hb (asks_append (asks_visit? (hchild 0)) hvalue)

include h hc in
theorem visitProperty_settles (hb : b.Sited a root) {n : Nat} (hn : n ∈ a.code root)
    (hkind : a.kind? (some n) = some .property) :
    Runs (Settles a root) b (visitProperty a n) fun works _ => Asks a root (some n) works := by
  have hchild (i : Nat) : a.Under root (some n) (a.child (some n) i) :=
    h.under_child (under_self hn) (isKind_eq_false hkind (by decide))
      (isKind_eq_false hkind (by decide)) i
  have hkey := hc.isSome_child (mem_listing_of_mem_code hn) hkind rfl (i := 0) rfl
  have hvalue := asks_visit? (hchild 1)
  refine .get_bind ?_
  dsimp only
  split
  · exact pure_settles hb hvalue
  · split
    · refine (newProperty_settles hb _ _ _).bind fun property b₁ h₁ hslot => ?_
      refine (setValue_settles h₁.sited (.ofSlot hkey hslot)).bind fun _ b₂ h₂ _ => ?_
      exact addWriteIf_settles h₂.sited property _ fun b₃ h₃ => pure_settles h₃.sited hvalue
    · split
      · next hcomputed =>
        have hkind := isKind_iff.1 hcomputed
        have hpart := h.under_child (hchild 0) (isKind_eq_false hkind (by decide))
          (isKind_eq_false hkind (by decide)) 0
        exact pure_settles hb (asks_append (asks_visit? hpart) hvalue)
      · exact pure_settles hb hvalue

/-! ## The walk -/

include h in
theorem children_asks {n : Nat} (hn : n ∈ a.code root) {kind : NodeKind}
    (hkind : a.kind? (some n) = some kind) (hannotated : kind ≠ .annotated)
    (hdocument : kind ≠ .jsDocDocument) : Asks a root (some n) (Work.children a (some n)) :=
  asks_children fun _ hs => h.under_of_mem_children (under_self hn)
    (isKind_eq_false hkind hannotated)
    (isKind_eq_false hkind hdocument) hs

include h in
theorem visitBlock_settles (hb : b.Sited a root) {n : Nat} (hn : n ∈ a.code root)
    (hkind : a.kind? (some n) = some .block) :
    Runs (Settles a root) b (visitBlock a n) fun works _ => Asks a root (some n) works := by
  refine (enterScope_settles hb .block (some n)).bind fun id b₁ h₁ _ => ?_
  refine (reserveAll_settles h₁.sited id _).bind fun _ b₂ h₂ _ => ?_
  exact pure_settles h₂.sited (asks_exitScope (children_asks h hn hkind (by decide) (by decide)))

include h in
theorem visitCatch_settles (hb : b.Sited a root) {n : Nat} (hn : n ∈ a.code root)
    (hkind : a.kind? (some n) = some .catchClause) :
    Runs (Settles a root) b (visitCatch a n) fun works _ => Asks a root (some n) works := by
  have hbody : Asks a root (some n) (Work.visit? (a.child (some n) 1) ++ [.exitScope]) :=
    asks_exitScope (asks_visit? (h.under_child (under_self hn) (isKind_eq_false hkind (by decide))
      (isKind_eq_false hkind (by decide)) 1))
  refine (enterScope_settles hb .catchClause (some n)).bind fun id b₁ h₁ _ => ?_
  dsimp only
  split
  · next hparam =>
    exact (declareVariable_settles h₁.sited id hparam).discard.bind fun _ _ h₂ _ => pure_settles
      h₂.sited hbody
  · exact pure_settles h₁.sited hbody

include h in
theorem visitFor_settles (hb : b.Sited a root) {n : Nat} (hn : n ∈ a.code root) {kind : NodeKind}
    (hkind : a.kind? (some n) = some kind) (hannotated : kind ≠ .annotated)
    (hdocument : kind ≠ .jsDocDocument) :
    Runs (Settles a root) b (visitFor a n) fun works _ => Asks a root (some n) works := by
  have hchildren := children_asks h hn hkind hannotated hdocument
  unfold visitFor
  dsimp only
  split
  · refine (enterScope_settles hb .forHead (some n)).bind fun id b₁ h₁ _ => ?_
    exact (reserveAll_settles h₁.sited id _).bind fun _ _ h₂ _ =>
      pure_settles h₂.sited (asks_exitScope hchildren)
  · exact pure_settles hb hchildren

/-- Work under a node whose comment is compiled. -/
theorem ready_of_asks {n : Nat} {works : List Work} (hasks : Asks a root (some n) works)
    (hcompiled : b.Compiled a n) : Ready a root works b := by
  intro m hm
  obtain ⟨hmem, hgoverns⟩ := hasks m hm m rfl
  refine ⟨hmem, fun t ht => ?_⟩
  rcases hgoverns with hnone | hsame
  · cases hnone.symm.trans ht
  · exact hcompiled t (hsame.symm.trans ht)

theorem Compiled.mono {b' : Binder} (hgrows : b.Grows b') {n : Nat} (hcompiled : b.Compiled a n) :
    b'.Compiled a n := fun t ht => hgrows.comments _ (hcompiled t ht)

include h hc in
/-- The rule of a node enters what may stand where it is entered, and asks for nodes whose comments
are compiled. -/
theorem visit_settles (hb : b.Sited a root) {n : Nat} (hn : n ∈ a.code root)
    (hcompiled : b.Compiled a n) :
    Runs (Settles a root) b (visit a n) (Ready a root) := by
  have hready {m : Bind (List Work)}
      (hm : Runs (Settles a root) b m fun works _ => Asks a root (some n) works) :
      Runs (Settles a root) b m (Ready a root) :=
    hm.weaken fun works _ hkeeps hasks => ready_of_asks hasks (hcompiled.mono hkeeps.grows)
  have hnothing : Runs (Settles a root) b (pure []) (Ready a root) :=
    hready (pure_settles hb asks_nil)
  unfold visit
  split
  · exact hnothing
  · next kind hkind =>
    split
    · exact visitAnnotated_settles h hc hb hn hkind
    · exact hready (visitDeclarations_settles h hb hn hkind)
    · exact hready (visitFunction_settles h hc hb hn hkind (.inl rfl))
    · exact hready (visitFunction_settles h hc hb hn hkind (.inr (.inl rfl)))
    · exact hready (visitFunction_settles h hc hb hn hkind (.inr (.inr rfl)))
    · exact hready (visitMethod_settles h hc hb hn hkind)
    · exact hready (visitClass_settles h hb hn hcompiled hkind (.inl rfl))
    · exact hready (visitClass_settles h hb hn hcompiled hkind (.inr rfl))
    · exact hready (visitBlock_settles h hb hn hkind)
    · exact hready (visitCatch_settles h hb hn hkind)
    · exact hready (visitFor_settles h hb hn hkind (by decide) (by decide))
    · exact hready (visitFor_settles h hb hn hkind (by decide) (by decide))
    · exact hready (visitFor_settles h hb hn hkind (by decide) (by decide))
    · exact hready (visitExpressionStatement_settles h hc hb hn hkind)
    · exact hready (visitAssignment_settles h hc hb hn hkind)
    · refine hready ((visitIdentifier_settles hb hkind none).discard.bind fun _ _ h₁ _ => ?_)
      exact pure_settles h₁.sited asks_nil
    · refine hready ((visitPath_settles h hc hb (under_self hn) false).bind
        fun found _ h₁ hfound => ?_)
      exact pure_settles h₁.sited hfound
    · refine hready ((newObject_settles hb n).bind fun v b₁ h₁ hv => ?_)
      refine (setValue_settles h₁.sited hv).bind fun _ _ h₂ _ => ?_
      exact pure_settles h₂.sited (children_asks h hn hkind (by decide) (by decide))
    · exact hready (visitProperty_settles h hc hb hn hkind)
    all_goals first
      | exact hnothing
      | skip
    split
    · exact hnothing
    · exact hready (pure_settles hb (children_asks h hn hkind (by assumption) (by assumption)))

include h hc in
/-- A piece of work, with all that follows from it. -/
theorem perform_settles (reportUndefined : Bool) {work : Work} {b : Binder} (hb : b.Sited a root)
    (hready : Ready a root [work] b) :
    Runs (Settles a root) b (perform a reportUndefined work) fun _ _ => True := by
  match work with
  | .exitScope =>
    rw [perform]
    exact exitScope_settles hb reportUndefined
  | .typeNames document =>
    rw [perform]
    exact visitTypeNames_settles hb document
  | .visit n =>
    rw [perform]
    obtain ⟨hn, hcompiled⟩ := hready n (List.mem_singleton_self _)
    refine (visit_settles h hc hb hn hcompiled).bind fun works b₁ h₁ hworks => ?_
    refine .forM (.refl h₁.sited) fun next hnext b₂ h₂ => ?_
    split
    · refine perform_settles reportUndefined h₂.sited fun m hm => ?_
      obtain ⟨hmem, hcompiled⟩ := hworks m (List.mem_singleton.1 hm ▸ hnext)
      exact ⟨hmem, hcompiled.mono h₂.grows⟩
    · exact pure_settles h₂.sited trivial
termination_by work.rank
decreasing_by assumption

include h hc in
/-- Binding the names of a unit. -/
theorem run_settles (reportUndefined : Bool) (hb : b.Sited a root) :
    Runs (Settles a root) b (run a reportUndefined root) fun _ _ => True := by
  refine .get_bind ((openBody_settles hb _ _).bind fun _ b₁ h₁ _ => ?_)
  refine .forM (.refl h₁.sited) fun work hwork b₂ h₂ =>
    perform_settles h hc reportUndefined h₂.sited ?_
  obtain ⟨kind, hkind, hunit⟩ := kind?_of_isOf h.unit
  obtain ⟨r, rfl⟩ := exists_of_kind? hkind
  have hr : r ∈ a.code (some r) := by
    refine mem_code_self ?_
    cases hnode : a.node? (some r) with
    | some node => rfl
    | none => simp [kind?, hnode] at hkind
  have hother (other : NodeKind) (hne : other.isCompilationUnit = false) : kind ≠ other := by
    rintro rfl
    simp [hne] at hunit
  intro m hm
  have hvisit : work ∈ Work.children a (some r) := by
    rcases List.mem_append.1 hwork with hwork | hwork
    · exact hwork
    · simp_all
  obtain ⟨c, hc, rfl⟩ := List.mem_map.1 hvisit
  have heq : m = c := by simpa using hm
  subst heq
  have hchild := mem_presentChildren.1 hc
  have hdocument := isKind_eq_false hkind (hother .jsDocDocument rfl)
  have hannotated := isKind_eq_false hkind (hother .annotated rfl)
  have hparent := h.parent_child (mem_listing_of_mem_code hr) hchild
  refine ⟨mem_code_child hr hdocument hchild, fun t ht => ?_⟩
  have hpasses : a.passesOn r m = false := by
    unfold passesOn
    rw [hkind]
    cases kind <;> first | rfl | cases hunit
  rw [governingTarget_eq hparent, hannotated, hpasses] at ht
  cases ht

end Rules

end Binder

namespace Analysis

variable {a : Arena} {root : NodeRef}

theorem sited_new (a : Arena) (root : NodeRef) : (new a).Sited a root := by
  have hundefined : (new a).store.values.get? (new a).undefinedValue =
      some { node := none, data := .undefinedValue } := ValueStore.get?_alloc_self _ _
  have htidy : (new a).store.values.Tidy := by
    refine (ValueStore.Tidy.new _).alloc ⟨fun hclass => ?_, fun slot hslot => ?_⟩ rfl
    · cases hclass
    · cases hslot
  refine ⟨htidy, ⟨?_, ?_⟩, fun r v hv => ?_, fun r hr => ?_, fun id scope hscope => ?_,
    fun id scope hscope => ?_, ⟨rfl, rfl, fun t name tag ht => ?_⟩⟩
  · exact Option.isSome_of_eq_some hundefined
  · rw [ValueStore.class?, hundefined]
    rfl
  · simp [valueOf?, new] at hv
  · simp [typeOf?, new] at hr
  · simp [new, ScopeTree.get?, ScopeTree.new] at hscope
  · simp [new, ScopeTree.get?, ScopeTree.new] at hscope
  · exact absurd (Store.intrinsic_of_key?_new ht).1 (by simp [TypeKey.intrinsic?])

/-- When names are bound, only nodes that are there have a value, and a class is the value of
the node that makes it. -/
theorem bindNames_sited (h : a.Shaped root) (hc : a.Complete root) (reportUndefined : Bool) :
    (bindNames a reportUndefined root (new a)).2.Sited a root := by
  have hunit : ((new a).unit root).Sited a root :=
    ⟨(sited_new a root).pushScope .global root none, fun t doc hdoc => by simp [unit] at hdoc,
      fun r doc hdoc => by simp [unit] at hdoc⟩
  exact (Binder.run_settles h hc reportUndefined hunit).1.sited.analysis

end Analysis

end DocTypes
