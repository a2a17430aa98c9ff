import DocTypes.Proofs.Binding.Bodies
import DocTypes.Proofs.Binding.Reading

/-!
# Visits of every node

What is left are declaration lists, comments, and the nodes that declare no name. Every visit of a
ready node does what it should (`Ready.follows`).

## Main statements

* `visitDeclarations_follows`, `visitAnnotated_follows`.
* `Ready.follows`: the visit of any ready node.
-/

namespace DocTypes

open Binder

section Follows

variable {a : Arena} {root : NodeRef} {reportUndefined : Bool} {n : Nat} {mentions : List Parked}
  {b b' : Binder} {works works' : List Work} {kind : NodeKind}

/-! ## Declaration lists -/

/-- No node stands below two children of a node. -/
theorem Arena.Shaped.pairwise_listing (hshape : a.Shaped root) (hn : n ∈ a.listing root) :
    (a.children (some n)).Pairwise fun r r' => ∀ m ∈ a.listing r, m ∉ a.listing r' := by
  have hnodup := (Arena.sublist_listing hn).nodup hshape.once
  rw [Arena.listing_some (Arena.node?_of_mem_listing hn), List.nodup_cons,
    List.nodup_flatMap] at hnodup
  have hpairs := hnodup.2.2
  rw [Arena.presentChildren, List.pairwise_filterMap] at hpairs
  refine hpairs.imp fun {r r'} hapart m hm hm' => ?_
  cases r with
  | none => simp [Arena.listing_none] at hm
  | some c =>
    cases r' with
    | none => simp [Arena.listing_none] at hm'
    | some c' => exact hapart c rfl c' rfl hm hm'

theorem Arena.Shaped.eq_of_mem_listing (hshape : a.Shaped root) (hn : n ∈ a.listing root)
    {r r' : NodeRef}
    {m : Nat} (hr : r ∈ a.children (some n)) (hr' : r' ∈ a.children (some n)) (hm : m ∈ a.listing r)
    (hm' : m ∈ a.listing r') : r = r' := by
  by_contra hne
  have hsymm : Std.Symm fun r r' : NodeRef => ∀ m ∈ a.listing r, m ∉ a.listing r' :=
    ⟨fun _ _ hapart c hc hc' => hapart c hc' hc⟩
  exact (hshape.pairwise_listing hn).forall hr hr' hne m hm hm'

/-- No node stands below two different children of a node. -/
theorem Arena.Shaped.not_mem_listing_child (hshape : a.Shaped root) (hn : n ∈ a.listing root)
    {i j c c' m : Nat} (hc : a.child (some n) i = some c)
    (hc' : a.child (some n) j = some c') (hij : i ≠ j)
    (hm : m ∈ a.listing (some c)) : m ∉ a.listing (some c') := by
  have hpairs := List.pairwise_iff_getElem.1 (hshape.pairwise_listing hn)
  obtain ⟨hi, hic⟩ := List.getElem?_eq_some_iff.1 (Arena.getElem?_of_child hc)
  obtain ⟨hj, hjc⟩ := List.getElem?_eq_some_iff.1 (Arena.getElem?_of_child hc')
  rcases Nat.lt_or_gt_of_ne hij with hlt | hlt
  · have hapart := hpairs i j hi hj hlt
    rw [hic, hjc] at hapart
    exact hapart m hm
  · have hapart := hpairs j i hj hi hlt
    rw [hic, hjc] at hapart
    exact fun hm' => hapart m hm' hm

/-- More names of lists may get variables. -/
theorem Declares.allow {late owed : Atom → Prop} {mine mine' : Nat → Prop} {k : Nat}
    (h : Declares a ⟨late, owed, mine⟩ k b b') (hmine : ∀ m, mine m → mine' m) :
    Declares a ⟨late, owed, mine'⟩ k b b' where
  current := h.current
  size := h.size
  scopes s scope hs := by
    obtain ⟨scope', hs', hdeclares⟩ := h.scopes s scope hs
    exact ⟨scope', hs', hdeclares.kind, hdeclares.node, hdeclares.outer, hdeclares.reserved,
      hdeclares.owed, hdeclares.grows⟩
  slots := h.slots
  valued := h.valued
  entered m hm hvalue := (h.entered m hm hvalue).imp_right (hmine m)
  annotated := h.annotated
  sound := h.sound
  spares := h.spares

/-- A run that gives variables to some names is one that may give variables to more. -/
theorem Declares.allowing {α : Type} {late owed : Atom → Prop} {mine mine' : Nat → Prop} {k : Nat}
    {m : Bind α} {P : α → Binder → Prop} (h : Runs (Declares a ⟨late, owed, mine⟩ k) b m P)
    (hmine : ∀ m, mine m → mine' m) :
    Runs (Declares a ⟨late, owed, mine'⟩ k) b m fun x b' =>
      Declares a ⟨late, owed, mine⟩ k b b' ∧ P x b' := ⟨h.1.allow hmine, h.1, h.2⟩

section Lists

variable {late : Atom → Prop} {mine : Nat → Prop} {k d : Nat} {id : ScopeId}

/-- The type that the comment on a list declares for one of its names. -/
theorem declareAnnotated_declares {plan : Plan} (hb : b.Sound) (hid : id ∈ b.scopes.chain b.current)
    (hkind : a.kind? (some d) = some .varDeclaration) (doc : DocComment) (v : ValueId)
    (hassigned : a.isAssigned d = false)
    (htakes : doc.kind.declaresType = true → ∀ scope, b.scopes.get? id = some scope →
      scope.takes .type (a.atom (a.child (some d) 0)) = true) :
    Runs (Declares a plan k) b (declareAnnotated a doc id (some d) v) fun _ _ => True := by
  unfold declareAnnotated
  dsimp only
  split
  · next hclass =>
    have hdeclares : doc.kind.declaresType = true := by
      cases hk : doc.kind <;> first
        | rfl
        | (rw [hk] at hclass; cases hclass)
    split
    · refine (declareClass_declares (by simp [Arena.isKind, hkind]) (by simp [Arena.isKind, hkind])
        _ _ _ _).bind fun cls b₁ hb₁ _ => ?_
      refine (addOther_declares (fun m hm => ?_) v).bind fun _ b₂ hb₂ _ => ?_
      · cases hm
        exact hassigned
      have hb₂' := hb₁.trans hb₂
      refine declareClassType_declares _ (hb₂'.sound hb) ?_ _ cls fun _ scope hscope => .inl ?_
      · rwa [hb₂'.chain hb]
      · exact hb₂'.takes (hb.lt_size hid) (htakes hdeclares) scope hscope
    · exact .pure (.refl _) trivial
  · split
    · next hdeclares =>
      refine (aliasFor_declares doc _).bind fun t b₁ hb₁ _ => ⟨.declareType (hb₁.sound hb) ?_ t
        fun _ scope hscope => .inl ?_, trivial⟩
      · rwa [hb₁.chain hb]
      · exact hb₁.takes (hb.lt_size hid) (htakes hdeclares) scope hscope
    · exact .pure (.refl _) trivial

/-- A declaration of a list. The name of a `var` has its variable, and the name of a `let`
or `const` gets it now. -/
theorem visitDeclaration_declares (hshape : a.Shaped root) (hb : b.Sound)
    (hid : id ∈ b.scopes.chain b.current) (hd : d ∈ a.listing root)
    (hkind : a.kind? (some d) = some .varDeclaration) (doc : Option DocComment)
    (htakes : ∀ x ∈ doc, x.kind.declaresType = true → ∀ m, a.child (some d) 0 = some m →
      ∀ scope, b.scopes.get? id = some scope → scope.takes .type (a.atom (some m)) = true)
    (hvalue : ∀ m, a.child (some d) 0 = some m → (b.analysis.valueOf? (some m)).isSome = false →
      a.isLexicalName m = true ∧
        ∀ scope, b.scopes.get? id = some scope → scope.takes .value (a.atom (some m)) = true) :
    Runs (Declares a ⟨late, fun _ => False, fun m => a.child (some d) 0 = some m⟩ k) b
      (visitDeclaration a id doc (some d)) fun _ b' => ∀ m, a.child (some d) 0 = some m →
        (b.analysis.valueOf? (some m)).isSome = false → b'.Binds id (a.atom (some m)) := by
  have hassigned : ∀ m, a.child (some d) 1 = some m → a.isAssigned m = false := by
    intro m hm
    rw [Arena.isAssigned, hshape.parent_child hd
      (Arena.mem_children_of_child_eq_some hm), Arena.isKind,
      hkind]
    rfl
  unfold visitDeclaration
  dsimp only
  cases hname : a.child (some d) 0 with
  | none => exact .pure (.refl _) fun m hm => by cases hm
  | some m =>
    have hbinding : a.kind? (some m) = some .bindingName := hshape.kind?_child hd hkind rfl hname
    rw [Arena.isKind_iff.2 hbinding]
    simp only [Bool.not_true, Bool.false_eq_true, if_false]
    -- what is done once the name has its variable
    have hwrite (v : ValueId) (b₂ : Binder) :
        Runs (Declares a ⟨late, fun _ => False, fun c => some m = some c⟩ k) b₂ (do
          if (a.child (some d) 1).isSome then
            Analysis.modifyValues (·.addWrite v (a.child (some d) 1))
          return (Work.visit? (a.child (some d) 1), ([] : List Work)) :
            Bind (List Work × List Work)) fun _ _ => True := by
      refine .ite (fun _ => ?_) fun _ => .pure (.refl _) trivial
      exact (addOther_declares hassigned v).bind fun _ _ _ _ => .pure (.refl _) trivial
    have hannotate (x : DocComment) (hx : doc = some x) (v : ValueId) (b₁ : Binder)
        (hb₁ : Declares a ⟨late, fun _ => False, fun c => some m = some c⟩ k b b₁) :
        Runs (Declares a ⟨late, fun _ => False, fun c => some m = some c⟩ k) b₁
          (declareAnnotated a x id (some d) v) fun _ _ => True := by
      have hid₁ : id ∈ b₁.scopes.chain b₁.current := by rwa [hb₁.chain hb]
      refine declareAnnotated_declares (hb₁.sound hb) hid₁ hkind x v
        (hshape.not_isAssigned hd hkind rfl rfl (by decide)) fun hdeclares => ?_
      refine hb₁.takes (hb.lt_size hid) fun scope hscope => ?_
      rw [hname]
      exact htakes x hx hdeclares m hname scope hscope
    refine .get_bind ?_
    cases hvalued : b.analysis.valueOf? (some m) with
    | some v =>
      refine Runs.weaken (P := fun _ _ => True) ?_ fun _ _ _ _ c hc hnone => ?_
      · cases doc with
        | none => exact hwrite v b
        | some x => exact (hannotate x rfl v b (.refl b)).bind fun _ b₂ _ _ => hwrite v b₂
      · cases hc
        rw [hvalued] at hnone
        cases hnone
    | none =>
      obtain ⟨hlexical, hreserved⟩ := hvalue m hname (by rw [hvalued]; rfl)
      refine (declareVariable_declares hb hid (fun c hc => ?_) (fun _ hc _ => hc) fun _ =>
        hreserved).bind
        fun v b₁ hb₁ hbound => Runs.weaken (P := fun _ _ => True) ?_ fun _ _ hstep _ c hc _ => ?_
      · cases hc
        exact hbinding
      · cases doc with
        | none => exact hwrite v b₁
        | some x => exact (hannotate x rfl v b₁ hb₁).bind fun _ b₂ _ _ => hwrite v b₂
      · cases hc
        obtain ⟨scope, hscope, htarget⟩ := hbound
        exact hstep.binds ⟨scope, hscope, Option.isSome_iff_exists.2 ⟨_, htarget⟩⟩

/-- The declarations of a list, one after another. A name of the list has a variable before its own
declaration if it had one before the list. -/
theorem mapM_visitDeclaration_declares (late : Atom → Prop) (hshape : a.Shaped root)
    (doc : Option DocComment) (ds : List NodeRef)
    (hds : ∀ c, some c ∈ ds → c ∈ a.listing root ∧ a.kind? (some c) = some .varDeclaration)
    (hapart : ds.Pairwise fun r r' => ∀ m, some m ∈ a.children r → some m ∉ a.children r')
    (hb : b.Sound) (hid : id ∈ b.scopes.chain b.current)
    (htakes : ∀ x ∈ doc, x.kind.declaresType = true → ∀ r ∈ ds, ∀ m, a.child r 0 = some m →
      ∀ scope, b.scopes.get? id = some scope → scope.takes .type (a.atom (some m)) = true)
    (hvalue : ∀ r ∈ ds, ∀ m, a.child r 0 = some m → (b.analysis.valueOf? (some m)).isSome = false →
      a.isLexicalName m = true ∧
        ∀ scope, b.scopes.get? id = some scope → scope.takes .value (a.atom (some m)) = true) :
    Runs (Declares a ⟨late, fun _ => False, fun m => ∃ r ∈ ds, a.child r 0 = some m⟩ k) b
      (ds.mapM (visitDeclaration a id doc)) fun _ b' => ∀ r ∈ ds, ∀ m, a.child r 0 = some m →
        (b.analysis.valueOf? (some m)).isSome = false → b'.Binds id (a.atom (some m)) := by
  induction ds generalizing b with
  | nil =>
    rw [List.mapM_nil]
    exact .pure (.refl _) fun r hr => (List.not_mem_nil hr).elim
  | cons r ds ih =>
    rw [List.mapM_cons]
    obtain ⟨hr, hapart⟩ := List.pairwise_cons.1 hapart
    have hfirst : Runs (Declares a ⟨late, fun _ => False, fun m => a.child r 0 = some m⟩ k) b
        (visitDeclaration a id doc r) fun _ b' => ∀ m, a.child r 0 = some m →
          (b.analysis.valueOf? (some m)).isSome = false → b'.Binds id (a.atom (some m)) := by
      cases r with
      | none => exact ⟨.refl b, fun m hm => by cases hm⟩
      | some d =>
        obtain ⟨hd, hkind⟩ := hds d List.mem_cons_self
        exact visitDeclaration_declares hshape hb hid hd hkind doc
          (fun x hx hdeclares => htakes x hx hdeclares _ List.mem_cons_self)
          (hvalue _ List.mem_cons_self)
    refine (Declares.allowing hfirst fun m hm => ⟨r, List.mem_cons_self, hm⟩).bind
      fun _ b₁ _ ⟨hstep, hbound⟩ => ?_
    have hlt := hb.lt_size hid
    have hearlier {m : Nat} (hnone : (b₁.analysis.valueOf? (some m)).isSome = false) :
        (b.analysis.valueOf? (some m)).isSome = false := by
      by_contra hsome
      rw [hstep.valued _ (eq_true_of_ne_false hsome)] at hnone
      cases hnone
    have hrest := ih (fun c hc => hds c (List.mem_cons_of_mem _ hc)) hapart (hstep.sound hb)
      (by rwa [hstep.chain hb])
      (fun x hx hdeclares r' hr' m hm =>
        hstep.takes hlt (htakes x hx hdeclares r' (List.mem_cons_of_mem _ hr') m hm))
      fun r' hr' m hm hnone => by
        obtain ⟨hlexical, hreserved⟩ := hvalue r' (List.mem_cons_of_mem _ hr') m hm (hearlier hnone)
        exact ⟨hlexical, hstep.takes hlt hreserved⟩
    refine (Declares.allowing hrest fun m ⟨r', hr', hm⟩ =>
      ⟨r', List.mem_cons_of_mem _ hr', hm⟩).bind
      fun _ b₂ _ ⟨hsteps, hbounds⟩ => .pure (.refl _) fun r' hr' m hm hnone => ?_
    rcases List.mem_cons.1 hr' with rfl | hr'
    · exact hsteps.binds (hbound m hm hnone)
    · refine hbounds r' hr' m hm ?_
      -- the name is that of another declaration, so it has no variable yet
      by_contra hsome
      have hlexical := (hvalue r' (List.mem_cons_of_mem _ hr') m hm hnone).1
      rcases hstep.entered m hlexical (eq_true_of_ne_false hsome) with hvalued | hmine
      · rw [hnone] at hvalued
        cases hvalued
      · exact hr r' hr' m (Arena.mem_children_of_child_eq_some hmine)
          (Arena.mem_children_of_child_eq_some hm)

/-- The initializer of a declaration is to be visited. -/
theorem visitDeclaration_parts (id : ScopeId) (hshape : a.Shaped root) {r : NodeRef}
    (doc : Option DocComment)
    (hr : ∀ c, r = some c → c ∈ a.listing root ∧ a.kind? (some c) = some .varDeclaration) :
    Yields (fun works => Work.OnlyVisits (fun c => a.child r 1 = some c) works.1 ∧ works.2 = [])
      (visitDeclaration a id doc r) := by
  unfold visitDeclaration
  refine .ite (fun hname => .pure ⟨.nil, ?_⟩) fun _ => ?_
  · cases hchild : a.child r 0 with
    | none => rfl
    | some m =>
      obtain ⟨d, -, hd, -⟩ := Arena.kind?_of_child hchild
      subst hd
      obtain ⟨hd, hkind⟩ := hr d rfl
      rw [hchild, Arena.isKind_iff.2 (hshape.kind?_child hd hkind rfl hchild)] at hname
      cases hname
  · have hinit : Work.OnlyVisits (fun c => a.child r 1 = some c) (Work.visit? (a.child r 1)) :=
      .visit? fun _ hm => hm
    have hend (v : ValueId) : Yields (fun works : List Work × List Work =>
        Work.OnlyVisits (fun c => a.child r 1 = some c) works.1 ∧ works.2 = []) (do
          if (a.child r 1).isSome then Analysis.modifyValues (·.addWrite v (a.child r 1))
          return (Work.visit? (a.child r 1), []) : Bind (List Work × List Work)) :=
      .ite (fun _ => .after fun _ => .pure ⟨hinit, rfl⟩) fun _ => .pure ⟨hinit, rfl⟩
    refine .after fun b => ?_
    dsimp only
    cases b.analysis.valueOf? (a.child r 0) with
    | some v =>
      cases doc with
      | none => exact hend v
      | some x =>
        show Yields _ (declareAnnotated a x id r v >>= fun _ => _)
        exact .after fun _ => hend v
    | none =>
      refine .after fun v => ?_
      cases doc with
      | none => exact hend v
      | some x =>
        show Yields _ (declareAnnotated a x id r v >>= fun _ => _)
        exact .after fun _ => hend v

/-- The initializers of the declarations of a list are to be visited. -/
theorem mapM_visitDeclaration_parts (id : ScopeId) (hshape : a.Shaped root)
    (doc : Option DocComment) (ds : List NodeRef)
    (hds : ∀ c, some c ∈ ds → c ∈ a.listing root ∧ a.kind? (some c) = some .varDeclaration) :
    Yields (fun works : List (List Work × List Work) => Work.OnlyVisits
      (fun c => ∃ r ∈ ds, a.child r 1 = some c) (works.flatMap (·.1) ++
        (works.flatMap (·.2)).reverse))
      (ds.mapM (visitDeclaration a id doc)) := by
  have hall : Yields (fun works : List (List Work × List Work) => ∀ pair ∈ works,
      Work.OnlyVisits (fun c => ∃ r ∈ ds, a.child r 1 = some c) pair.1 ∧ pair.2 = [])
      (ds.mapM (visitDeclaration a id doc)) := by
    refine .mapM fun r hr b => ?_
    obtain ⟨hvisits, hnone⟩ := visitDeclaration_parts id hshape doc
      (fun c hc => hds c (hc ▸ hr)) b
    exact ⟨hvisits.imp fun c hc => ⟨r, hr, hc⟩, hnone⟩
  intro b
  have hnone : ((ds.mapM (visitDeclaration a id doc) b).1.flatMap (·.2)) = [] :=
    List.flatMap_eq_nil_iff.2 fun pair hpair => (hall b pair hpair).2
  rw [hnone, List.reverse_nil, List.append_nil, List.flatMap_def]
  refine .flatten fun works hworks => ?_
  obtain ⟨pair, hpair, rfl⟩ := List.mem_map.1 hworks
  exact (hall b pair hpair).1

theorem declarationScope_run (b : Binder) (r : NodeRef) :
    declarationScope a r b = (b.scopes.declaring b.current (a.flags r).isBlockScoped, b) := by
  unfold declarationScope ScopeTree.declaring
  split <;> rfl

theorem Arena.mem_listing_of_mem_children {r : NodeRef} {m : Nat} (h : some m ∈ a.children r) :
    m ∈ a.listing r := by
  cases r with
  | none => cases h
  | some c =>
    exact (Arena.sublist_listing_child h).subset
      (Arena.mem_listing_self (Arena.node?_of_mem_children h))

/-- A declaration list. Names of `let` and `const` are bound in the nearest block. -/
theorem visitDeclarations_follows (hshape : a.Shaped root) (h : Ready a root b n) (hb : b.Sound)
    (hannotated : b.Annotated a) (hkind : a.kind? (some n) = some .varStatement) :
    Follows a root reportUndefined n [] b (visitDeclarations a n b) := by
  let id := b.scopes.declaring b.current (a.flags (some n)).isBlockScoped
  have hid : id ∈ b.scopes.chain b.current := declaring_mem_chain hb _
  have hdeclarations {c : Nat} (hc : some c ∈ a.children (some n)) :
      c ∈ a.listing root ∧ a.kind? (some c) = some .varDeclaration := by
    obtain ⟨i, -, hi⟩ := Arena.exists_child_of_mem_children hc
    exact ⟨Arena.mem_listing_child h.listed hc, hshape.kind?_child h.listed hkind rfl hi⟩
  have hnames {r : NodeRef} (hr : r ∈ a.children (some n)) {m : Nat} (hm : a.child r 0 = some m) :
      m ∈ a.bindingNames (some n) := by
    obtain ⟨d, -, rfl, -⟩ := Arena.kind?_of_child hm
    obtain ⟨hd, hdkind⟩ := hdeclarations hr
    exact hshape.mem_bindingNames hd hdkind hr hm
  have hlexical {m : Nat} (hm : m ∈ a.bindingNames (some n)) :
      a.isLexicalName m = (a.flags (some n)).isBlockScoped := by
    obtain ⟨d, hd, hdm⟩ := Arena.exists_declaration_of_mem_bindingNames hm
    have hparent :=
      hshape.parent_child (hdeclarations hd).1 (Arena.mem_children_of_child_eq_some hdm)
    rw [Arena.isLexicalName, hparent, hshape.parent_child h.listed hd,
      Arena.isKind_iff.2 (hdeclarations hd).2,
        Arena.isKind_iff.2 (Arena.kind?_of_mem_bindingNames hm)]
    rfl
  -- a name without a variable is one of a `let` or `const` list, which the block has reserved
  have hvalue {m : Nat} (hm : m ∈ a.bindingNames (some n))
      (hnone : (b.analysis.valueOf? (some m)).isSome = false) :
      (a.flags (some n)).isBlockScoped = true := by
    by_contra hvar
    have hhoisted : (b.analysis.valueOf? (some m)).isSome = true := by
      refine h.covered.hoisted (.variableName m) ?_
      rw [Arena.hoisted_varStatement hkind, if_neg hvar]
      exact List.mem_map_of_mem hm
    rw [hhoisted] at hnone
    cases hnone
  have hscoped : a.isScoped (some n) = (a.flags (some n)).isBlockScoped := by
    rw [Arena.isScoped, Arena.isKind_iff.2 hkind, Bool.true_and]
  have hreservations (name : Atom) : (.value, name) ∈ a.reservations (some n) ↔
      (a.flags (some n)).isBlockScoped = true ∧ ∃ m ∈ a.bindingNames (some n),
        a.atom (some m) = name := by
    unfold Arena.reservations
    have hother : a.isKind (some n) .annotated = false := by simp [Arena.isKind, hkind]
    rw [hother]
    simp [hkind, DocKind.declaresType]
  have hrun := mapM_visitDeclaration_declares (k := b.scopes.size) (a.IsLate root) hshape
    (b.comments.get? (some n)) (a.children (some n)) (fun c hc => hdeclarations hc) ?_ hb hid ?_ ?_
  · have heq : visitDeclarations a n b = (do
        let works ← (a.children (some n)).mapM (visitDeclaration a id (b.comments.get? (some n)))
        return works.flatMap (·.1) ++ (works.flatMap (·.2)).reverse : Bind (List Work)) b := by
      unfold visitDeclarations
      rw [run_bind, declarationScope_run]
      rfl
    refine .ofRefersTo (.ofDeclares (Runs.of_eq heq ?_))
    have hparts := mapM_visitDeclaration_parts id hshape (b.comments.get? (some n))
      (a.children (some n)) fun c hc => hdeclarations hc
    refine ((Declares.allowing hrun fun m hm => ?_).yields hparts).bind
      fun works b' _ hall => .pure (.refl _) ⟨?_, fun name hname => .inl ?_⟩
    · obtain ⟨r, hr, hm⟩ := hm
      exact ⟨hkind, hnames hr hm⟩
    · obtain ⟨⟨hstep, -⟩, hvisits⟩ := hall
      refine hvisits.asks fun c hinit => ?_
      obtain ⟨r, hr, hc⟩ := hinit
      obtain ⟨d, -, rfl, -⟩ := Arena.kind?_of_child hc
      obtain ⟨hd, hdkind⟩ := hdeclarations hr
      have hmem := Arena.mem_children_of_child_eq_some hc
      have hparent := hshape.parent_child hd hmem
      have hreached : Reached a root b' c := by
        refine ((h.toReached.child hkind (by decide) hr).child hdkind (by decide) hmem).move
          (((h.enclosed.mono (Nat.le_of_lt (Arena.lt_of_mem_children hr))).mono
            (Nat.le_of_lt (Arena.lt_of_mem_children hmem))).extends hb hstep.toExtends)
              fun m hm hlex hvalued => ?_
        refine (hstep.entered m hlex hvalued).resolve_right fun hown => ?_
        obtain ⟨r', hr', hm'⟩ := hown
        -- the names of the list do not stand below its initializers
        have hname := Arena.mem_listing_of_mem_children (Arena.mem_children_of_child_eq_some hm')
        cases hshape.eq_of_mem_listing h.listed hr' hr hname
          ((Arena.sublist_listing_child hmem).subset hm)
        exact hshape.not_mem_listing_child hd hc hm' (by decide) hm
          (Arena.mem_listing_self (Arena.node?_of_mem_listing hm))
      refine ⟨hreached, hshape.isWalked_child hd hdkind rfl (by decide) (by decide) hmem,
        (hshape.isInert_child hd hdkind rfl hmem).covered _ _, fun hqueued => ?_,
        fun d' s hd' _ hs => ?_⟩
      · obtain ⟨q, hq, hqkind, -⟩ := hqueued
        cases hparent.symm.trans hq
        cases hdkind.symm.trans hqkind
      · cases hparent.symm.trans hd'
        cases (hshape.parent_child h.listed hr).symm.trans hs
        exact h.told.extended hb hstep.toExtends
    · obtain ⟨⟨hstep, hbound⟩, -⟩ := hall
      obtain ⟨hblock, m, hm, rfl⟩ := (hreservations name).1 hname
      obtain ⟨d, hd, hdm⟩ := Arena.exists_declaration_of_mem_bindingNames hm
      have hid' : b'.scopes.nearestLexical b'.current = id := by
        rw [hstep.current, ScopeTree.nearestLexical, hstep.nearest hb]
        exact (if_pos hblock).symm
      rw [hid']
      refine hbound _ hd m hdm (h.fresh m ?_ ((hlexical hm).trans hblock))
      exact Arena.mem_listing_child (Arena.mem_listing_of_mem_children hd)
        (Arena.mem_children_of_child_eq_some hdm)
  · refine (hshape.pairwise_listing h.listed).imp fun {r r'} hapart m hm hm' => ?_
    exact hapart m (Arena.mem_listing_of_mem_children hm) (Arena.mem_listing_of_mem_children hm')
  · intro doc hdoc hdeclares r hr m hm scope hscope
    obtain ⟨htarget, hon⟩ := hannotated.commentOn hdoc
    refine h.told.takes htarget ?_ (hscoped ▸ hscope)
    rw [Arena.commentTypes, hkind]
    simp only [hon, hdeclares, if_true]
    exact List.mem_map_of_mem (hnames hr hm)
  · intro r hr m hm hnone
    have hblock := hvalue (hnames hr hm) hnone
    refine ⟨(hlexical (hnames hr hm)).trans hblock, fun scope hscope => ?_⟩
    obtain ⟨other, hother, hmem⟩ :=
      h.covered.reserved _ ((hreservations _).2 ⟨hblock, m, hnames hr hm, rfl⟩)
    have hsame : id = b.scopes.nearestLexical b.current := if_pos hblock
    rw [hsame] at hscope
    cases hother.symm.trans hscope
    simp [Scope.takes, Scope.reserves, hmem]

end Lists

/-! ## Comments -/

theorem reportComment_declares {plan : Plan} {k : Nat} (document target : NodeRef) :
    Runs (Declares a plan k) b (reportComment a document target) fun _ _ => True := by
  refine ⟨.ofScopes rfl rfl rfl (fun _ _ _ => rfl) (fun _ _ _ => rfl) (fun _ _ _ _ => rfl) ?_ rfl
    (fun _ h => h) (fun _ h => h) fun _ _ => .inl, trivial⟩
  have hnone : (DocComment.problems a document target).filter Diagnostic.isUnbound = [] := by
    refine List.filter_eq_nil_iff.2 fun d hd => ?_
    have hcategory := DocComment.mem_problems a hd
    unfold Diagnostic.isUnbound
    rw [Bool.or_eq_true, decide_eq_true_eq, decide_eq_true_eq]
    rintro (hproblem | hproblem) <;>
      · rw [hproblem] at hcategory
        cases hcategory
  show ((DocComment.compile a document target (some b.analysis.diagnostics)).2.getD
    _).toList.filter _ = _
  rw [DocComment.compile_eq, Sink.reportAll, Option.map_some, Option.getD_some, Array.toList_append,
    List.filter_append]
  simpa using hnone

/-- A compiled comment is kept for its target. -/
theorem keepComment_declares {plan : Plan} {k : Nat} {target : NodeRef} (doc : DocComment)
    (hkind : a.kind? (some n) = some .annotated) (hchild : a.child (some n) 1 = target)
    (hparent : ∀ t, target = some t → a.parent (some t) = some n)
    (hdoc : doc = DocComment.silent a (a.child (some n) 0) target) :
    Runs (Declares a plan k) b
      (modify fun b => { b with comments := b.comments.insert target doc } : Bind PUnit)
      fun _ _ => True := by
  refine ⟨?_, trivial⟩
  exact {
    current := rfl
    size := rfl
    scopes := fun _ scope hs => ⟨scope, hs, .refl scope⟩
    slots := fun _ h => h
    valued := fun _ h => h
    entered := fun _ _ => .inl
    annotated := fun hb m kept hkept => by
      have hkept' : (b.comments.insert target doc).get? (some m) = some kept := hkept
      rw [NodeTable.get?_insert] at hkept'
      split at hkept'
      · next heq =>
        subst heq
        exact ⟨n, hparent m rfl, Arena.isKind_iff.2 hkind, hchild,
          (Option.some.inj hkept').symm.trans hdoc⟩
      · exact hb m kept hkept'
    sound := fun hb => ⟨hb.nested, hb.current, hb.opened, hb.slots, hb.owner⟩
    spares := {
      scopes := fun _ scope hs => ⟨scope, hs, .refl scope⟩
      opens := fun s scope hnone hsome => by
        cases hnone.symm.trans hsome
      entries := fun _ _ _ => rfl
      reads := fun _ _ _ => rfl
      writes := fun _ _ _ _ => rfl
      reports := rfl
      undefinedValue := rfl } }

/-- A type parameter is bound in the scope that has opened. -/
theorem declareTemplate_declares (plan : Plan) {k m : Nat} (hb : b.Sound) (hk : k ≤ b.current.index)
    (hm : a.kind? (some m) = some .jsDocName) :
    Runs (Declares a plan k) b (do
      let t ← Analysis.onTypes (·.parameter (a.atom (some m)) (some m))
      Analysis.setType (some m) t
      declareType a b.current (some m) t) fun _ _ => True := by
  have htype : Runs (Declares a plan k) b
      (Bind.onAnalysis (Analysis.onTypes (·.parameter (a.atom (some m)) (some m))))
      fun _ _ => True := ⟨.onTypes _, trivial⟩
  refine htype.bind fun t b₁ hb₁ _ => ?_
  have hset : Runs (Declares a plan k) b₁ (Bind.onAnalysis (Analysis.setType (some m) t))
      fun _ _ => True :=
    ⟨.setType (Arena.isKind_iff.2 hm) t, trivial⟩
  refine hset.bind fun _ b₂ hb₂ _ => ?_
  have hb₂' := hb₁.trans hb₂
  refine ⟨.declareType (hb₂'.sound hb) ?_ t fun hlt => absurd hlt (Nat.not_lt.2 hk), trivial⟩
  rw [hb₂'.chain hb]
  exact ScopeTree.mem_chain_self hb.nested _

/-- No comment stands under another one. -/
theorem Arena.Shaped.kind?_target (hshape : a.Shaped root) (hn : n ∈ a.listing root) {t : Nat}
    (hkind : a.kind? (some n) = some .annotated) (hchild : a.child (some n) 1 = some t) :
    a.kind? (some t) ≠ some .annotated := by
  intro hannotated
  have hadmits := hshape.admits_child hn hkind hchild
  rw [show NodeKind.place .annotated 1 = .target from rfl, Arena.admits, Arena.isOf,
    hannotated] at hadmits
  cases hadmits

/-- What stands under a comment reserves the value names that the comment reserves, and no
other names. -/
theorem Arena.reservations_annotated {t : Nat} (hkind : a.kind? (some n) = some .annotated)
    (hchild : a.child (some n) 1 = some t) (ht : a.kind? (some t) ≠ some .annotated) :
    (∀ p ∈ a.reservations (some t), p ∈ a.reservations (some n)) ∧
      ∀ name, (.value, name) ∈ a.reservations (some n) → (.value, name) ∈
        a.reservations (some t) := by
  have hself : a.isKind (some n) .annotated = true := Arena.isKind_iff.2 hkind
  have hother : a.isKind (some t) .annotated = false := by
    rw [Bool.eq_false_iff, Ne, Arena.isKind_iff]
    exact ht
  unfold Arena.reservations
  rw [hself, hother, hchild]
  simp only [if_true, Bool.false_eq_true, if_false]
  split
  · split
    · refine ⟨fun p hp => ?_, fun name hname => ?_⟩
      · rw [List.mem_append] at hp ⊢
        exact .inl (hp.resolve_right (by simp [DocKind.declaresType]))
      · rw [List.mem_append] at hname ⊢
        refine .inl (hname.resolve_right ?_)
        split <;> simp
    · exact ⟨fun _ => id, fun _ => id⟩
  · exact ⟨fun _ => id, fun _ => id⟩
  · exact ⟨fun _ => id, fun _ => id⟩

/-- What stands under a comment is ready once the comment is kept. -/
theorem Ready.ready_target {t : Nat} (hshape : a.Shaped root) (h : Ready a root b n)
    (hkind : a.kind? (some n) = some .annotated) (hchild : a.child (some n) 1 = some t)
    (hreached : Reached a root b' t) (hkeeps : b.Keeps b')
    (hnearest : ∀ accept : ScopeKind → Bool, accept .typeParameters = false →
      b'.scopes.nearest b'.current accept =
        b.scopes.nearest b.current accept) : Ready a root b' t := by
  have hmem := Arena.mem_children_of_child_eq_some hchild
  have hparent := hshape.parent_child h.listed hmem
  have hadmits := hshape.admits_child h.listed hkind hchild
  have htargets : (Place.kinds .target).all NodeKind.isWalked = true := by decide
  have hwalked : a.isOf NodeKind.isWalked (some t) = true :=
    Arena.isWalked_of_admits htargets hadmits
  have ht := hshape.kind?_target h.listed hkind hchild
  have hcovered : Covered a b b.current (some t) := by
    refine ⟨fun x hx => h.covered.hoisted x ?_, fun p hp => h.covered.reserved p ?_⟩
    · rw [Arena.hoisted_annotated hkind, hchild]
      exact List.mem_append_right _ hx
    · exact (Arena.reservations_annotated hkind hchild ht).1 p hp
  refine ⟨hreached, hwalked, hcovered.move hkeeps (hnearest _ rfl) (hnearest _ rfl),
    (h.covered.told hkind hparent hchild).move hkeeps (hnearest _ rfl)
    (hnearest _ rfl), fun d s hd hdkind _ => ?_⟩
  cases hparent.symm.trans hd
  cases hkind.symm.trans hdkind

/-- A visit that declares leaves its node ready. -/
theorem Ready.extended {owed : Atom → Prop} {k : Nat} (h : Ready a root b n) (hb : b.Sound)
    (hvar : a.kind? (some n) ≠ some .varStatement)
    (hstep : Declares a (a.visitPlan root n owed) k b b') : Ready a root b' n where
  toReached := h.toReached.extended hb hvar hstep.toExtends
  walked := h.walked
  covered := by
    rw [hstep.current]
    exact hstep.covered hb h.covered
  told := h.told.extended hb hstep.toExtends
  initial d s hd hkind hs := (h.initial d s hd hkind hs).extended hb hstep.toExtends

/-- A statement under a comment. -/
theorem visitAnnotated_follows (hshape : a.Shaped root) (h : Ready a root b n) (hb : b.Sound)
    (hkind : a.kind? (some n) = some .annotated) :
    Follows a root reportUndefined n [] b (visitAnnotated a n b) := by
  have hvar : a.kind? (some n) ≠ some .varStatement := by simp [hkind]
  let document := a.child (some n) 0
  let target := a.child (some n) 1
  let doc := DocComment.silent a document target
  have hparent : ∀ t, target = some t → a.parent (some t) = some n := fun t ht =>
    hshape.parent_child h.listed (Arena.mem_children_of_child_eq_some ht)
  -- the target is ready, and reserves the value names that the statement reserves
  have hasked {b₁ b' : Binder} (h₁ : Ready a root b₁ n) (hreached : ∀ t, target = some t →
    Reached a root b' t)
      (hkeeps : b₁.Keeps b') (hnearest : ∀ accept : ScopeKind →
        Bool, accept .typeParameters = false →
        b'.scopes.nearest b'.current accept = b₁.scopes.nearest b₁.current accept) :
      Doable a root b' (.typeNames document :: Work.visit? target) ∧
        Promises a n b' (.typeNames document :: Work.visit? target) := by
    have htypes (w : Work) (hw : w = .typeNames document) : w ≠ .exitScope ∧ ∀ m, w = .visit m →
        Ready a root b' m := by
      subst hw
      exact ⟨by simp, fun m hm => by cases hm⟩
    cases htarget : target with
    | none =>
      refine ⟨fun w hw => htypes w (List.mem_singleton.1 hw), promises_of_nil ?_ _ _⟩
      unfold Arena.reservations
      rw [if_pos (Arena.isKind_iff.2 hkind), show a.child (some n) 1 = none from htarget]
      rfl
    | some t =>
      have ht := hshape.kind?_target h.listed hkind htarget
      refine ⟨fun w hw => ?_, fun name hname => .inr ⟨t, ?_, ?_⟩⟩
      · rcases List.mem_cons.1 hw with hw | hw
        · exact htypes w hw
        · exact doable_visit? (r := some t) (fun m hm =>
            h₁.ready_target hshape hkind (htarget.trans hm)
            (hreached m (htarget.trans hm)) hkeeps hnearest) w hw
      · simp [Work.visit?]
      · exact (Arena.reservations_annotated hkind htarget ht).2 name hname
  have hopened (b₁ : Binder) (hb₁ : Declares a (a.idlePlan root n) b.scopes.size b b₁) :
      Follows a root reportUndefined n [] b₁ ((do
        let generic := !doc.typeParameters.isEmpty
        if generic then
          let id ← enterScope .typeParameters (some n)
          doc.typeParameters.forM fun name => do
            let t ← Analysis.onTypes (·.parameter (a.atom (some name)) (some name))
            Analysis.setType (some name) t
            declareType a id (some name) t
        modify fun b => { b with comments := b.comments.insert target doc }
        return .typeNames document :: (Work.visit? target ++ if generic then [.exitScope] else []) :
          Bind (List Work)) b₁) := by
    have hsound := hb₁.sound hb
    have h₁ := h.extended hb hvar hb₁
    dsimp only
    split
    · next hgeneric =>
      refine .enter (fun _ => False)
        (fun hlexical : ScopeKind.isLexical .typeParameters = true => by
        cases hlexical) ?_
      have he := sound_entered b₁ .typeParameters (some n) hsound
      have htemplates : Runs (Declares a (a.visitPlan root n fun _ => False) b₁.scopes.size)
          (b₁.entered .typeParameters (some n)) (doc.typeParameters.forM fun name => do
            let t ← Analysis.onTypes (·.parameter (a.atom (some name)) (some name))
            Analysis.setType (some name) t
            declareType a (b₁.entered .typeParameters (some n)).current
              (some name) t) fun _ _ => True := by
        refine .forM (.refl _) fun name hname e hstep => ?_
        have hdeclare := declareTemplate_declares (k := b₁.scopes.size)
          (a.visitPlan root n fun _ => False)
          (hstep.sound he) (by rw [hstep.current]; exact Nat.le_refl _)
          (DocComment.kind?_of_mem_typeParameters hname)
        rwa [hstep.current] at hdeclare
      refine htemplates.bind fun _ b₂ hb₂ _ =>
        (keepComment_declares doc hkind rfl hparent rfl).bind fun _ b₃ hb₃ _ => .pure (.refl _) ?_
      have hinside := (hb₂.trans hb₃).toExtends
      obtain ⟨hasks, hpromises⟩ := hasked h₁
        (fun t ht => h₁.toReached.inside hsound hkind (by decide) (by decide) hinside
          (Arena.mem_children_of_child_eq_some ht))
        ((keeps_entered b₁ _ _).trans hinside.keeps) fun accept haccept =>
          nearest_inside hsound hinside haccept
      exact ⟨_, rfl, fun _ hfalse => hfalse.elim, hasks, hpromises⟩
    · next hgeneric =>
      refine .ofRefersTo (.ofDeclares ?_)
      refine (keepComment_declares doc hkind rfl hparent rfl).bind fun _ b₂ hb₂ _ =>
        .pure (.refl _) ?_
      rw [List.append_nil]
      exact hasked h₁ (fun t ht =>
        (h₁.toReached.extended hsound hvar hb₂.toExtends).child hkind (by decide)
        (Arena.mem_children_of_child_eq_some ht)) hb₂.keeps fun accept _ => by
          rw [hb₂.current]
          exact hb₂.nearest hsound accept
  rw [visitAnnotated_eq]
  refine .declare (reportComment_declares document target) fun _ b₁ hb₁ _ => ?_
  dsimp only
  split
  · have hreport : Runs (Declares a (a.idlePlan root n) b₁.scopes.size) b₁ (Bind.onAnalysis
        (Analysis.reportAt a .unexpectedComment document)) fun _ _ => True := ⟨.report rfl, trivial⟩
    refine .declare hreport fun _ b₂ hb₂ _ => ?_
    rw [hb₁.size] at hb₂
    exact hopened b₂ (hb₁.trans hb₂)
  · exact hopened b₁ hb₁

/-! ## Every node -/

/-- The kinds of node that bind names in the nearest block when they are reached. -/
def NodeKind.reserves : NodeKind → Bool
  | .annotated | .varStatement | .classDeclaration => true
  | _ => false

theorem Arena.reservations_of_reserves (hkind : a.kind? (some n) = some kind)
    (h : kind.reserves = false) :
    a.reservations (some n) = [] := by
  refine Arena.reservations_of_kind hkind ?_ ?_ ?_ <;>
    · rintro rfl
      cases h

theorem Ready.nothing (hkind : a.kind? (some n) = some kind) (hreserves : kind.reserves = false) :
    Follows a root reportUndefined n [] b ([], b) :=
  .stay (.refl b) doable_nil (promises_of_nil (Arena.reservations_of_reserves hkind hreserves) _ _)

/-- A node that declares nothing, and whose parts declare nothing. -/
theorem Ready.calm (hshape : a.Shaped root) (h : Ready a root b n) (hb : b.Sound)
    (hkind : a.kind? (some n) = some kind) (hreserves : kind.reserves = false)
    (hcalm : kind.isCalm = true)
    {m : Bind (List Work)}
    (hm : RefersTo a reportUndefined (a.idlePlan root n) mentions b m fun _ _ => True)
    (hparts : Yields (Work.OnlyVisits (a.Holds n)) m) :
    Follows a root reportUndefined n mentions b (m b) := by
  refine .parts hshape h.toReached hb hkind ?_ ?_ hm
    (fun _ _ _ => promises_of_nil (Arena.reservations_of_reserves hkind hreserves) _ _) hparts
  · rintro rfl
    cases hreserves
  · rintro rfl
    cases hcalm

/-- A node of which the children are visited. -/
theorem Ready.descends (hshape : a.Shaped root) (h : Ready a root b n) (hb : b.Sound)
    (hkind : a.kind? (some n) = some kind) (hreserves : kind.reserves = false)
    (hcalm : kind.isCalm = true) :
    Follows a root reportUndefined n [] b (Work.children a (some n), b) :=
  h.calm hshape hb hkind hreserves hcalm (m := pure (Work.children a (some n))) (.pure trivial)
    (.pure (.children fun _ hc => .child hkind hcalm hc))

/-- A statement whose parts declare nothing in the nearest block. -/
theorem Ready.passes_plainly (hshape : a.Shaped root) (h : Ready a root b n)
    (hkind : a.kind? (some n) = some kind) (hpasses : kind.passes = true)
    (hplain : ∀ i, (kind.place i).isPlain = true) :
    Follows a root reportUndefined n [] b (Work.children a (some n), b) := by
  refine h.passes_on hshape hkind hpasses (fun c hc => ?_) (Arena.reservations_of_reserves hkind ?_)
  · obtain ⟨i, -, hi⟩ := Arena.exists_child_of_mem_children hc
    exact hshape.reservations_child h.listed hkind (hplain i) hi
  · cases kind <;> first
      | rfl
      | cases hpasses

/-- A member of an object literal. -/
theorem visitProperty_declares {plan : Plan} {k : Nat} (hshape : a.Shaped root)
    (hn : n ∈ a.listing root)
    (hkind : a.kind? (some n) = some .property) :
    Runs (Declares a plan k) b (visitProperty a n) fun _ _ => True := by
  have hassigned : ∀ m, a.child (some n) 1 = some m → a.isAssigned m = false := by
    intro m hm
    rw [Arena.isAssigned, hshape.parent_child hn
      (Arena.mem_children_of_child_eq_some hm), Arena.isKind,
      hkind]
    rfl
  -- the key of a member is no identifier
  have hkey {b₁ : Binder} (v : ValueId) :
      Runs (Declares a plan k) b₁ (Bind.onAnalysis (Analysis.setValue (a.child (some n) 0) v))
        fun _ _ => True := by
    cases hchild : a.child (some n) 0 with
    | none =>
      exact setOther_declares .propertyName (fun m hm => by cases hm) (by decide) (by decide) v
    | some m =>
      obtain ⟨kind, hmkind, hmem⟩ := Arena.kind?_of_isOf (hshape.admits_child hn hkind hchild)
      refine setOther_declares kind (fun c hc => ?_) ?_ ?_ v
      · cases hc
        exact hmkind
      all_goals
        rintro rfl
        cases hmem
  unfold visitProperty
  refine .get_bind ?_
  dsimp only
  split
  · exact .pure (.refl _) trivial
  · split
    · refine (newProperty_declares _ _ _).bind fun property b₁ _ _ =>
        (hkey property).bind fun _ b₂ _ _ => ?_
      exact .ite (fun _ => (addOther_declares hassigned property).bind fun _ _ _ _ =>
        .pure (.refl _) trivial)
        fun _ => .pure (.refl _) trivial
    · exact .ite (fun _ => .pure (.refl _) trivial) fun _ => .pure (.refl _) trivial

/-- The visit of a ready node. -/
theorem Ready.follows (reportUndefined : Bool) (hshape : a.Shaped root) (h : Ready a root b n)
    (hb : b.Sound)
    (hannotated : b.Annotated a) :
    Follows a root reportUndefined n (b.refers a (.visit n)) b (visit a n b) := by
  obtain ⟨kind, hkind, hwalked⟩ := Arena.kind?_of_isOf h.walked
  unfold visit Binder.refers
  dsimp only
  rw [hkind]
  cases kind with
  | annotated => exact visitAnnotated_follows hshape h hb hkind
  | varStatement => exact visitDeclarations_follows hshape h hb hannotated hkind
  | functionDeclaration => exact visitFunction_follows hshape h hb hannotated hkind (.inl rfl)
  | functionExpression => exact visitFunction_follows hshape h hb hannotated hkind (.inr (.inl rfl))
  | arrowFunction => exact visitFunction_follows hshape h hb hannotated hkind (.inr (.inr rfl))
  | method => exact visitMethod_follows hshape h hb hkind
  | classDeclaration => exact visitClass_follows hshape h hb hkind (.inl rfl)
  | classExpression => exact visitClass_follows hshape h hb hkind (.inr rfl)
  | block => exact visitBlock_follows hshape h hb hkind
  | catchClause => exact visitCatch_follows hshape h hb hkind
  | forStatement => exact visitFor_follows hshape h hb hkind (.inl rfl)
  | forInStatement => exact visitFor_follows hshape h hb hkind (.inr (.inl rfl))
  | forOfStatement => exact visitFor_follows hshape h hb hkind (.inr (.inr rfl))
  | expressionStatement =>
    have hmentions := @visitExpressionStatement_refersTo a root reportUndefined
      (a.idlePlan root n) n b hshape h.listed hkind hb
    unfold Binder.refers at hmentions
    dsimp only at hmentions
    rw [hkind] at hmentions
    exact h.calm hshape hb hkind rfl rfl hmentions (visitExpressionStatement_parts hkind)
  | assignment =>
    exact h.calm hshape hb hkind rfl rfl
      (visitAssignment_refersTo hshape h.listed hb h.enclosed) (visitAssignment_parts hkind)
  | identifier =>
    refine h.calm hshape hb hkind rfl rfl (m := do
      discard (visitIdentifier a (some n) none)
      return []) ?_ (.after fun _ => .pure .nil)
    exact (visitIdentifier_refersTo hb (Arena.isKind_iff.2 hkind)
      fun m hm => by cases hm).discard.declaring
      fun _ _ _ _ => .pure (.refl _) trivial
  | memberExpression =>
    refine h.calm hshape hb hkind rfl rfl (m := do return (← visitPath a (some n) false).2) ?_
      (.bind (visitPath_self_parts hkind false) fun found hfound => .pure hfound)
    refine (visitPath_refersTo hshape hb (fun m hm => ?_) false).declaring fun _ _ _ _ =>
      .pure (.refl _) trivial
    cases hm
    exact h.listed
  | objectLiteral =>
    refine h.calm hshape hb hkind rfl rfl (m := do
      Analysis.setValue (some n) (← Analysis.onValues (·.newObject (some n)))
      return Work.children a (some n)) (.ofDeclares ?_)
      (.after fun _ => .after fun _ => .pure (.children fun _ hc => .child hkind rfl hc))
    have hnew : Runs (Declares a (a.idlePlan root n) b.scopes.size) b (Bind.onAnalysis
        (Analysis.onValues (·.newObject (some n)))) fun _ _ => True :=
      ⟨.onValues (.newObject _ _), trivial⟩
    refine hnew.bind fun v b₁ _ _ => ?_
    refine (setOther_declares .objectLiteral (fun m hm => ?_) (by decide) (by decide) v).bind
      fun _ _ _ _ => .pure (.refl _) trivial
    cases hm
    exact hkind
  | property =>
    exact h.calm hshape hb hkind rfl rfl
      (.ofDeclares (visitProperty_declares hshape h.listed hkind))
      (visitProperty_parts hkind)
  | ifStatement | whileStatement | doWhileStatement | tryStatement =>
    exact h.passes_plainly hshape hkind rfl fun i => rfl
  | _ => first
    | exact h.descends hshape hb hkind rfl rfl
    | exact Ready.nothing hkind rfl
    | cases hwalked

end Follows

end DocTypes
