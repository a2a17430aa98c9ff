import DocTypes.Proofs.Binding.Parts

/-!
# What a visit leaves to be done

A visit of a ready node stays in the current scope, or opens one (`Follows`). In both cases it meets
the references that it should and declares what was foreseen, and all nodes that it asks for are
ready afterwards. The names that a node reserves are bound by its visit, or are reserved by a node
that the visit asks for.

## Main statements

* `Ready.passes_on`: a statement that opens no scope.
* `Ready.ready_inside`: what is visited in a scope that a statement opens.
* `visitBlock_follows`, `visitCatch_follows`, `visitFor_follows`: the statements that open one.
-/

namespace DocTypes

open Binder

/-- The type names that are bound although no scope reserved them: that of a variable whose value is
a class expression, and the empty name of a function that has none. -/
def Arena.IsLate (a : Arena) (root : NodeRef) (name : Atom) : Prop :=
  name = a.atom none ∨ ∃ d ∈ a.listing root, a.kind? (some d) = some .varDeclaration ∧
    a.isKind (a.child (some d) 1) .classExpression = true ∧ name = a.atom (a.child (some d) 0)

/-- What a visit may do that other steps may not. -/
def Arena.visitPlan (a : Arena) (root : NodeRef) (n : Nat) (owed : Atom → Prop) : Plan where
  late := a.IsLate root
  owed
  mine m := a.kind? (some n) = some .varStatement ∧ m ∈ a.bindingNames (some n)

/-- A visit reserves nothing in the scopes that are there. -/
def Arena.idlePlan (a : Arena) (root : NodeRef) (n : Nat) : Plan :=
  a.visitPlan root n fun _ => False

/-- A scope binds a name to a variable. -/
def Binder.Binds (b : Binder) (id : ScopeId) (name : Atom) : Prop :=
  ∃ scope, b.scopes.get? id = some scope ∧ (scope.target? .value name).isSome

/-- Work that can be done: the type names of comments, and visits of ready nodes. -/
def Doable (a : Arena) (root : NodeRef) (b : Binder) (works : List Work) : Prop :=
  ∀ w ∈ works, w ≠ .exitScope ∧ ∀ m, w = .visit m → Ready a root b m

/-- A name is reserved by a node that is to be visited. -/
def IsOwed (a : Arena) (works : List Work) (name : Atom) : Prop :=
  ∃ m, .visit m ∈ works ∧ (.value, name) ∈ a.reservations (some m)

/-- The names that a node reserves are bound, or are reserved by the work that is left. -/
def Promises (a : Arena) (n : Nat) (b : Binder) (works : List Work) : Prop :=
  ∀ name, (.value, name) ∈ a.reservations (some n) →
    b.Binds (b.scopes.nearestLexical b.current) name ∨ IsOwed a works name

/-- What a visit of a node does, and the work that it gives. -/
inductive Follows (a : Arena) (root : NodeRef) (reportUndefined : Bool) (n : Nat)
    (mentions : List Parked) (b : Binder) : List Work × Binder → Prop
  | stay {works : List Work} {b' : Binder}
    (hmeets : Meets a reportUndefined (a.idlePlan root n) mentions b b')
    (hasks : Doable a root b' works) (hpromises : Promises a n b' works) :
    Follows a root reportUndefined n mentions b (works, b')
  | opens {kind : ScopeKind} {owed : Atom → Prop} {works : List Work} {b₁ b' : Binder}
    (hmentions : mentions = []) (hbefore : Declares a (a.idlePlan root n) b.scopes.size b b₁)
    (hinside : Declares a (a.visitPlan root n owed) b.scopes.size (b₁.entered kind (some n)) b')
    (howed : ∀ name, owed name → kind.isLexical = true ∧ IsOwed a works name)
    (hasks : Doable a root b' works) (hpromises : Promises a n b' works)
    (hself : kind.isLexical = true → a.reservations (some n) = []) :
    Follows a root reportUndefined n mentions b (works ++ [.exitScope], b')

section Follows

variable {a : Arena} {root : NodeRef} {reportUndefined : Bool} {n : Nat} {mentions : List Parked}
  {b b' : Binder} {works works' : List Work} {kind : NodeKind}

/-! ## Work -/

theorem doable_nil : Doable a root b [] := fun _ hw => (List.not_mem_nil hw).elim

theorem Doable.append (h : Doable a root b works) (h' : Doable a root b works') :
    Doable a root b (works ++ works') :=
  fun w hw => (List.mem_append.1 hw).elim (h w) (h' w)

theorem Work.OnlyVisits.asks {P : Nat → Prop} (h : Work.OnlyVisits P works)
    (hP : ∀ m, P m → Ready a root b m) : Doable a root b works := by
  intro w hw
  obtain ⟨m, rfl, hm⟩ := h w hw
  refine ⟨by simp, fun k hk => ?_⟩
  cases hk
  exact hP m hm

theorem doable_children {r : NodeRef} (h : ∀ m, some m ∈ a.children r → Ready a root b m) :
    Doable a root b (Work.children a r) :=
      (Work.OnlyVisits.children (P := Ready a root b) h).asks fun _ => id

theorem doable_visit? {r : NodeRef} (h : ∀ m, r = some m → Ready a root b m) :
    Doable a root b (Work.visit? r) :=
      (Work.OnlyVisits.visit? (P := Ready a root b) h).asks fun _ => id

theorem Arena.reservations_of_kind (hkind : a.kind? (some n) = some kind)
    (hannotated : kind ≠ .annotated) (hvar : kind ≠ .varStatement)
    (hclass : kind ≠ .classDeclaration) :
    a.reservations (some n) = [] := by
  refine reservations_of_plain ?_
  rw [bare_of_kind? hkind hannotated]
  exact isLexical_of_kind hkind hvar hclass

theorem promises_of_nil (h : a.reservations (some n) = []) (b : Binder) (works : List Work) :
    Promises a n b works := by
  intro name hname
  rw [h] at hname
  cases hname

/-! ## Nodes that are reached -/

/-- In the same scope, after a step that is allowed to a visit of no declaration list. -/
theorem Reached.extended {owed : Atom → Prop} {k : Nat} (h : Reached a root b n) (hb : b.Sound)
    (hvar : a.kind? (some n) ≠ some .varStatement)
    (hstep : Extends a (a.visitPlan root n owed) k b b') : Reached a root b' n :=
  h.move (h.enclosed.extends hb hstep) fun m _ hlexical hvalue =>
    (hstep.entered m hlexical hvalue).resolve_right fun hmine => hvar hmine.1

/-- In a scope that the node above has opened. -/
theorem Reached.inside {owed : Atom → Prop} {scopeKind : ScopeKind} {k c : Nat}
    (h : Reached a root b n) (hb : b.Sound) (hkind : a.kind? (some n) = some kind)
    (hvar : kind ≠ .varStatement) (hdocument : kind ≠ .jsDocDocument)
    (hinside : Extends a (a.visitPlan root n owed) k (b.entered scopeKind (some n)) b')
    (hc : some c ∈ a.children (some n)) : Reached a root b' c := by
  have hlt := Arena.lt_of_mem_children hc
  refine (h.child hkind hdocument hc).move ?_ fun m _ hlexical hvalue => ?_
  · exact (h.enclosed.entered hb hlt scopeKind).extends (sound_entered _ _ _ hb) hinside
  · refine (hinside.entered m hlexical hvalue).resolve_right fun hmine => hvar ?_
    exact Option.some.inj (hkind.symm.trans hmine.1)

/-! ## Putting visits together -/

namespace Follows

/-- A visit that declares first. -/
theorem declare {α : Type} {m : Bind α} {f : α → Bind (List Work)} {P : α → Binder → Prop}
    (hm : Runs (Declares a (a.idlePlan root n) b.scopes.size) b m P)
    (hf : ∀ x b₁, Declares a (a.idlePlan root n) b.scopes.size b b₁ → P x b₁ →
      Follows a root reportUndefined n [] b₁ (f x b₁)) :
    Follows a root reportUndefined n [] b ((m >>= f) b) := by
  have hstep := hm.1
  have h := hf (m b).1 (m b).2 hstep hm.2
  have hrun : (m >>= f) b = f (m b).1 (m b).2 := rfl
  rw [hrun]
  generalize f (m b).1 (m b).2 = out at h
  cases h with
  | stay hmeets hasks hpromises =>
    exact .stay ((Meets.ofDeclares hstep).trans hmeets) hasks hpromises
  | opens hmentions hbefore hinside howed hasks hpromises hself =>
    rw [hstep.size] at hbefore hinside
    exact .opens hmentions (hstep.trans hbefore) hinside howed hasks hpromises hself

/-- A visit that stays in the scope. -/
theorem ofRefersTo {m : Bind (List Work)}
    (hm : RefersTo a reportUndefined (a.idlePlan root n) mentions b m fun works b' =>
      Doable a root b' works ∧ Promises a n b' works) :
    Follows a root reportUndefined n mentions b (m b) :=
  .stay hm.1 hm.2.1 hm.2.2

/-- A visit that opens a scope. -/
theorem enter {kind : ScopeKind} (owed : Atom → Prop) {f : ScopeId → Bind (List Work)}
    (hself : kind.isLexical = true → a.reservations (some n) = [])
    (hf : Runs (Declares a (a.visitPlan root n owed) b.scopes.size) (b.entered kind (some n))
      (f (b.entered kind (some n)).current) fun works b' => ∃ inner, works = inner ++ [.exitScope] ∧
        (∀ name, owed name → kind.isLexical = true ∧ IsOwed a inner name) ∧
        Doable a root b' inner ∧ Promises a n b' inner) :
    Follows a root reportUndefined n [] b ((enterScope kind (some n) >>= f) b) := by
  obtain ⟨hinside, inner, hworks, howed, hasks, hpromises⟩ := hf
  have h : Follows a root reportUndefined n [] b
      (inner ++ [.exitScope], (f (b.entered kind (some n)).current (b.entered kind (some n))).2) :=
    .opens rfl (.refl b) hinside howed hasks hpromises hself
  rw [← hworks] at h
  exact h

/-- A visit that asks for parts of the node that declare nothing. -/
theorem parts (hshape : a.Shaped root) (h : Reached a root b n) (hb : b.Sound)
    (hkind : a.kind? (some n) = some kind) (hvar : kind ≠ .varStatement)
    (hdocument : kind ≠ .jsDocDocument) {P : List Work → Binder → Prop} {m : Bind (List Work)}
    (hm : RefersTo a reportUndefined (a.idlePlan root n) mentions b m P)
    (hpromises : ∀ works b', P works b' → Promises a n b' works)
    (hparts : Yields (Work.OnlyVisits (a.Holds n)) m) :
    Follows a root reportUndefined n mentions b (m b) := by
  have hreached : Reached a root (m b).2 n :=
    h.extended hb (by simpa [hkind] using hvar) hm.1.toExtends
  refine .stay hm.1 ((hparts b).asks fun c hc => ?_) (hpromises _ _ hm.2)
  exact hc.ready hshape h.listed fun _ hchild => hreached.child hkind hdocument hchild

end Follows

/-! ## Statements that stay in the scope -/

theorem Arena.reservations_none (a : Arena) : a.reservations none = [] := rfl

/-- What is reserved by a child of a node is owed by a visit of its children. -/
theorem isOwed_children {r : NodeRef} {name : Atom}
    (h : (.value, name) ∈ (a.children r).flatMap a.reservations) :
    IsOwed a (Work.children a r) name := by
  obtain ⟨child, hchild, hname⟩ := List.mem_flatMap.1 h
  cases child with
  | none =>
    rw [a.reservations_none] at hname
    cases hname
  | some m =>
    exact ⟨m, List.mem_map_of_mem (Arena.mem_presentChildren.2 hchild), hname⟩

/-- What is hoisted out of a part of a statement was hoisted out of the statement. -/
theorem Covered.met_child {id : ScopeId} {c : Nat} (h : Covered a b id (some n))
    (hkind : a.kind? (some n) = some kind) (hpasses : kind.passes = true)
    (hc : some c ∈ a.children (some n)) : ∀ x ∈ a.hoisted (some c), x.Met b id := by
  intro x hx
  refine h.hoisted x ?_
  rw [Arena.hoisted_of_passes hkind hpasses]
  exact List.mem_flatMap.2 ⟨some c, hc, hx⟩

theorem NodeKind.isCode_of_passes (h : kind.passes = true) : kind.isCode = true := by
  cases kind <;> first
    | rfl
    | cases h

/-- A part of a statement that hoists what its parts do. -/
theorem Reached.ready_of_passes {c : Nat} (hshape : a.Shaped root) (hn : n ∈ a.listing root)
    (hkind : a.kind? (some n) = some kind) (hpasses : kind.passes = true)
    (hc : some c ∈ a.children (some n)) (h : Reached a root b c)
    (hcovered : Covered a b b.current (some c)) : Ready a root b c := by
  have hother : kind ≠ .annotated ∧ kind ≠ .varStatement ∧ kind ≠ .varDeclaration := by
    refine ⟨?_, ?_, ?_⟩ <;>
      · rintro rfl
        cases hpasses
  exact .of_parent h (hshape.parent_child hn hc) hkind hother.1 hother.2.2
    (hshape.isWalked_child hn hkind (NodeKind.isCode_of_passes hpasses)
      hother.2.1 hother.1 hc) hcovered

/-- A statement whose parts declare nothing in the nearest block, and that opens no scope. -/
theorem Ready.passes_on (hshape : a.Shaped root) (h : Ready a root b n)
    (hkind : a.kind? (some n) = some kind) (hpasses : kind.passes = true)
    (hreserved : ∀ c, some c ∈ a.children (some n) → a.reservations (some c) = [])
    (hself : a.reservations (some n) = []) :
    Follows a root reportUndefined n [] b (Work.children a (some n), b) := by
  have hdocument : kind ≠ .jsDocDocument := by
    rintro rfl
    cases hpasses
  refine .stay (.refl b) (doable_children fun c hc => ?_) (promises_of_nil hself b _)
  refine (h.toReached.child hkind hdocument hc).ready_of_passes hshape h.listed hkind hpasses hc ?_
  refine ⟨h.covered.met_child hkind hpasses hc, fun p hp => ?_⟩
  rw [hreserved c hc] at hp
  cases hp

/-! ## Scopes that are opened for blocks and loops -/

theorem Binder.Keeps.trans {b'' : Binder} (h : b.Keeps b') (h' : b'.Keeps b'') : b.Keeps b'' := by
  refine ⟨fun s scope hs => ?_, fun r hr => h'.valued r (h.valued r hr)⟩
  obtain ⟨mid, hmid, hkind, houter, hreserved⟩ := h.scopes s scope hs
  obtain ⟨scope', hs', hkind', houter', hreserved'⟩ := h'.scopes s mid hmid
  exact ⟨scope', hs', hkind'.trans hkind, houter'.trans houter, fun p hp =>
    hreserved' p (hreserved p hp)⟩

section Inside

variable {plan : Plan} {k : Nat} {scopeKind : ScopeKind} {node : NodeRef}

/-- A scope of another sort that is opened is not the nearest one. -/
theorem nearest_inside (hb : b.Sound) (hinside : Extends a plan k (b.entered scopeKind node) b')
    {accept : ScopeKind → Bool} (h : accept scopeKind = false) :
    b'.scopes.nearest b'.current accept = b.scopes.nearest b.current accept := by
  rw [hinside.current, hinside.nearest (sound_entered _ _ _ hb), nearest_entered hb node h]

/-- A scope of the right sort that is opened is the nearest one. -/
theorem nearest_inside_self (hb : b.Sound)
    (hinside : Extends a plan k (b.entered scopeKind node) b')
    {accept : ScopeKind → Bool} (h : accept scopeKind = true) :
    b'.scopes.nearest b'.current accept = b'.current := by
  have hsound := sound_entered b scopeKind node hb
  refine nearest_current (hinside.sound hsound).nested ?_ h
  rw [hinside.currentKind? hsound, currentKind?_entered]

/-- What is met around a scope that is no function is met inside. -/
theorem Hoisted.Met.inside {x : Hoisted} (hx : x.Met b b.current) (hb : b.Sound)
    (hinside : Extends a plan k (b.entered scopeKind node) b')
    (hkind : scopeKind.isFunctionScope = false) : x.Met b' b'.current :=
  hx.move ((keeps_entered b scopeKind node).trans hinside.keeps) (nearest_inside hb hinside hkind)

end Inside

/-- In a scope that a statement opens for its parts, what the parts reserve being reserved there. -/
theorem Ready.ready_inside {owed : Atom → Prop} {scopeKind : ScopeKind} {k c : Nat}
    (hshape : a.Shaped root) (h : Ready a root b n) (hb : b.Sound)
    (hkind : a.kind? (some n) = some kind) (hpasses : kind.passes = true)
    (hscope : scopeKind.isFunctionScope = false) (hlexical : scopeKind.isLexical = true)
    (hinside : Extends a (a.visitPlan root n owed) k (b.entered scopeKind (some n)) b')
    (hc : some c ∈ a.children (some n))
    (hreserved : ∀ p ∈ a.reservations (some c), b'.scopes.Reserves b'.current p) :
    Ready a root b' c := by
  have hdocument : kind ≠ .jsDocDocument ∧ kind ≠ .varStatement := by
    refine ⟨?_, ?_⟩ <;>
      · rintro rfl
        cases hpasses
  refine (h.toReached.inside hb hkind hdocument.2 hdocument.1 hinside hc).ready_of_passes
    hshape h.listed hkind hpasses hc ⟨fun x hx => ?_, fun p hp => ?_⟩
  · exact (h.covered.met_child hkind hpasses hc x hx).inside hb hinside hscope
  · rw [ScopeTree.nearestLexical, nearest_inside_self hb hinside hlexical]
    exact hreserved p hp

/-- Names are reserved in a scope that has just opened. -/
theorem reserveAll_declares {plan : Plan} {k : Nat} (hb : b.Sound) (hk : k ≤ b.current.index)
    (names : List (Namespace × Atom)) (howed : ∀ name, (.value, name) ∈ names → plan.owed name) :
    Runs (Declares a plan k) b (reserveAll b.current names) fun _ b' =>
      ∀ p ∈ names, b'.scopes.Reserves b'.current p := by
  obtain ⟨hstep, hreserved⟩ := Declares.reserveAll (a := a) hb hk names howed
  refine ⟨hstep, fun p hp => ?_⟩
  rw [hstep.current]
  exact hreserved p hp

/-- A name gets a variable that a scope binds it to. -/
theorem declareVariable_declares {plan : Plan} {k : Nat} (hb : b.Sound) {id : ScopeId}
    (hid : id ∈ b.scopes.chain b.current) {binding : NodeRef}
    (hkind : ∀ m, binding = some m → a.kind? (some m) = some .bindingName)
    (hmine : ∀ m, binding = some m → a.isLexicalName m = true → plan.mine m)
    (htakes : id.index < k → ∀ scope, b.scopes.get? id = some scope →
      scope.takes .value (a.atom binding) = true) :
    Runs (Declares a plan k) b (declareVariable a id binding) fun v b' => ∃ scope,
      b'.scopes.get? id = some scope ∧ scope.target? .value (a.atom binding) = some (.inl v) := by
  obtain ⟨hstep, -, hbound⟩ := Declares.declareVariable hb hid hkind hmine htakes
  exact ⟨hstep, hbound⟩

/-- A block. -/
theorem visitBlock_follows (hshape : a.Shaped root) (h : Ready a root b n) (hb : b.Sound)
    (hkind : a.kind? (some n) = some .block) :
    Follows a root reportUndefined n [] b (visitBlock a n b) := by
  have hself := Arena.reservations_of_kind hkind (by decide) (by decide) (by decide)
  refine .enter (fun name => (.value, name) ∈ (a.children (some n)).flatMap a.reservations)
    (fun _ => hself) ?_
  refine (reserveAll_declares (sound_entered b .block (some n) hb) (Nat.le_refl _) _
    fun name hname => hname).bind fun _ b' hinside hreserved => .pure (.refl _) ?_
  refine ⟨_, rfl, fun name hname => ⟨rfl, isOwed_children hname⟩, doable_children fun c hc => ?_,
    promises_of_nil hself _ _⟩
  exact h.ready_inside hshape hb hkind rfl rfl rfl hinside.toExtends hc fun p hp =>
    hreserved p (List.mem_flatMap.2 ⟨some c, hc, hp⟩)

/-- The parameter and the block of a handler. -/
theorem visitCatch_follows (hshape : a.Shaped root) (h : Ready a root b n) (hb : b.Sound)
    (hkind : a.kind? (some n) = some .catchClause) :
    Follows a root reportUndefined n [] b (visitCatch a n b) := by
  have hself := Arena.reservations_of_kind hkind (by decide) (by decide) (by decide)
  have hsound := sound_entered b .catchClause (some n) hb
  have hend (b₁ : Binder) (hinside : Declares a (a.visitPlan root n fun _ => False) b.scopes.size
      (b.entered .catchClause (some n)) b₁) : Runs (Declares a (a.visitPlan root n fun _ => False)
        b.scopes.size) b₁ (pure (Work.visit? (a.child (some n) 1) ++ [.exitScope])) fun works b' =>
          ∃ inner, works = inner ++ [.exitScope] ∧
            (∀ name, False → ScopeKind.catchClause.isLexical = true ∧ IsOwed a inner name) ∧
            Doable a root b' inner ∧ Promises a n b' inner := by
    refine .pure (.refl _) ⟨_, rfl, fun _ hfalse => hfalse.elim, doable_visit? fun c hc => ?_,
      promises_of_nil hself _ _⟩
    refine h.ready_inside hshape hb hkind rfl rfl rfl hinside.toExtends
      (Arena.mem_children_of_child_eq_some hc) fun p hp => ?_
    rw [hshape.reservations_child h.listed hkind rfl hc] at hp
    cases hp
  refine .enter (fun _ => False) (fun _ => hself) (.ite (fun _ => ?_) fun _ => hend _ (.refl _))
  have hparam : ∀ m, a.child (some n) 0 = some m → a.kind? (some m) =
      some .bindingName := fun m hm =>
    hshape.kind?_child h.listed hkind rfl hm
  refine (declareVariable_declares hsound (ScopeTree.mem_chain_self hsound.nested _) hparam
    (fun m hm hlexical => ?_) fun hlt => (Nat.lt_irrefl _ hlt).elim).discard.bind
      fun _ b₁ hinside _ => hend b₁ hinside
  rw [hshape.not_isLexicalName_child h.listed hkind (by decide)
    (Arena.mem_children_of_child_eq_some hm)] at hlexical
  cases hlexical

/-- A loop with a head. If the head declares with `let` or `const`, a scope is opened. -/
theorem visitFor_follows (hshape : a.Shaped root) (h : Ready a root b n) (hb : b.Sound)
    (hkind : a.kind? (some n) = some kind)
    (hloop : kind = .forStatement ∨ kind = .forInStatement ∨ kind = .forOfStatement) :
    Follows a root reportUndefined n [] b (visitFor a n b) := by
  have hpasses : kind.passes = true := by
    rcases hloop with rfl | rfl | rfl <;> rfl
  have hself : a.reservations (some n) = [] := by
    rcases hloop with rfl | rfl | rfl <;>
      exact Arena.reservations_of_kind hkind (by decide) (by decide) (by decide)
  have hhead : kind.place 0 = .head := by
    rcases hloop with rfl | rfl | rfl <;> rfl
  -- only the head of a loop reserves names
  have hlater (c i : Nat) (hi : a.child (some n) (i + 1) = some c) :
      a.reservations (some c) = [] := by
    refine hshape.reservations_child h.listed hkind (i := i + 1) ?_ hi
    rcases hloop with rfl | rfl | rfl <;> rfl
  unfold visitFor
  split
  · next hlist =>
    rw [Bool.and_eq_true] at hlist
    have hnames : a.reservations (a.child (some n) 0) =
        (a.bindingNames (a.child (some n) 0)).map fun m => (.value, a.atom (some m)) := by
      unfold Arena.reservations
      have hnot : a.isKind (a.child (some n) 0) .annotated = false := by
        simp [Arena.isKind, Arena.isKind_iff.1 hlist.1]
      rw [hnot]
      simp only [Bool.false_eq_true, if_false, Arena.isKind_iff.1 hlist.1, hlist.2, if_true,
        DocKind.declaresType, List.append_nil, List.map_map]
      rfl
    refine .enter (fun name => (.value, name) ∈ a.reservations (a.child (some n) 0))
      (fun _ => hself) ?_
    rw [← hnames]
    refine (reserveAll_declares (sound_entered b .forHead (some n) hb) (Nat.le_refl _) _
      fun name hname => hname).bind fun _ b' hinside hreserved => .pure (.refl _) ?_
    refine ⟨_, rfl, fun name hname => ⟨rfl, isOwed_children ?_⟩, doable_children fun c hc => ?_,
      promises_of_nil hself _ _⟩
    · obtain ⟨m, hm⟩ := Arena.exists_of_kind? (Arena.isKind_iff.1 hlist.1)
      exact List.mem_flatMap.2 ⟨_, Arena.mem_children_of_child_eq_some hm, hm ▸ hname⟩
    · refine h.ready_inside hshape hb hkind hpasses rfl rfl hinside.toExtends hc fun p hp => ?_
      obtain ⟨i, -, hi⟩ := Arena.exists_child_of_mem_children hc
      cases i with
      | zero => exact hreserved p (hi ▸ hp)
      | succ i =>
        rw [hlater c i hi] at hp
        cases hp
  · next hlist =>
    refine h.passes_on hshape hkind hpasses (fun c hc => ?_) hself
    obtain ⟨i, -, hi⟩ := Arena.exists_child_of_mem_children hc
    cases i with
    | succ i => exact hlater c i hi
    | zero =>
      have hadmits : a.admits (some c) .head = true := hhead ▸ hshape.admits_child h.listed hkind hi
      by_cases hvar : a.isKind (some c) .varStatement = true
      · have hkind' := Arena.isKind_iff.1 hvar
        rw [hi, hvar, Bool.true_and] at hlist
        refine Arena.reservations_of_plain ?_
        rw [Arena.bare_of_kind? hkind' (by decide), Arena.isLexical, hvar, Arena.isKind, hkind']
        simpa using hlist
      · have hclause : a.admits (some c) .clause = true := by
          rw [Arena.admits, Bool.or_assoc, Bool.or_eq_true] at hadmits
          exact hadmits.resolve_left hvar
        exact Arena.reservations_of_plain (Arena.not_isLexical_of_admits rfl hclause)

end Follows

end DocTypes
