import DocTypes.Proofs.Binding.Declaring

/-!
# Declarations that were foreseen

When the body of a function opens, everything that its statements will declare in it is
entered, bound or reserved. `Covered` says so of one statement: what it hoists is there, and
what it reserves is reserved in the scope it stands in. Opening a body covers its statements,
and a statement stays covered while the walk goes on (`Binder.Keeps`).

## Main statements

* `Declares.openBody`: opening a body declares, and covers its statements.
* `Binder.Keeps.covered`: a statement stays covered.
-/

namespace DocTypes

namespace Hoisted

/-- What is hoisted is a name, or a function with its name, of the tree. -/
def Proper (a : Arena) : Hoisted → Prop
  | .variableName n => a.kind? (some n) = some .bindingName ∧ a.isLexicalName n = false
  | .functionName f n => (a.kind? (some n) = some .bindingName ∧ a.isLexicalName n = false) ∧
    a.isAssigned f = false
  | .typeName _ => True

/-- What is hoisted out of a scope is there: its name has a variable, or is reserved in the
function. -/
def Met (b : Binder) (c : ScopeId) : Hoisted → Prop
  | .variableName n | .functionName _ n => (b.analysis.valueOf? (some n)).isSome
  | .typeName name => ∃ scope, b.scopes.get? (b.scopes.nearestFunction c) = some scope ∧
    (.type, name) ∈ scope.reserved

end Hoisted

/-- What a statement in a scope declares in the scopes around it was foreseen. -/
structure Covered (a : Arena) (b : Binder) (c : ScopeId) (r : NodeRef) : Prop where
  hoisted : ∀ h ∈ a.hoisted r, h.Met b c
  reserved : ∀ p ∈ a.reservations r, ∃ scope,
    b.scopes.get? (b.scopes.nearestLexical c) = some scope ∧ p ∈ scope.reserved

/-! ## What is hoisted and what is reserved -/

/-- The statements that pass on what is hoisted out of their parts. -/
def NodeKind.passes : NodeKind → Bool
  | .block | .ifStatement | .forStatement | .forInStatement | .forOfStatement | .whileStatement
  | .doWhileStatement | .tryStatement | .catchClause => true
  | _ => false

namespace Arena

variable {a : Arena} {root : NodeRef} {n : Nat} {kind : NodeKind}

theorem hoisted_of_passes (hkind : a.kind? (some n) = some kind) (h : kind.passes = true) :
    a.hoisted (some n) = (a.children (some n)).flatMap a.hoisted := by
  rw [hoisted, hkind]
  cases kind with
  | block | ifStatement | forStatement | forInStatement | forOfStatement | whileStatement
  | doWhileStatement | tryStatement | catchClause => simp [List.flatMap_def]
  | _ => cases h

theorem hoisted_of_other (hkind : a.kind? (some n) = some kind) (hpasses : kind.passes = false)
    (hvar : kind ≠ .varStatement) (hfunction : kind ≠ .functionDeclaration)
    (hannotated : kind ≠ .annotated) : a.hoisted (some n) = [] := by
  rw [hoisted, hkind]
  cases kind with
  | block | ifStatement | forStatement | forInStatement | forOfStatement | whileStatement
  | doWhileStatement | tryStatement | catchClause => cases hpasses
  | varStatement => exact absurd rfl hvar
  | functionDeclaration => exact absurd rfl hfunction
  | annotated => exact absurd rfl hannotated
  | _ => rfl

theorem hoisted_annotated (hkind : a.kind? (some n) = some .annotated) :
    a.hoisted (some n) = a.hoistedTypes (some n) ++ a.hoisted (a.child (some n) 1) := by
  rw [hoisted, hkind]

theorem hoisted_varStatement (hkind : a.kind? (some n) = some .varStatement) :
    a.hoisted (some n) = if (a.flags (some n)).isBlockScoped then []
      else (a.bindingNames (some n)).map .variableName := by
  rw [hoisted, hkind]

theorem hoisted_functionDeclaration (hkind : a.kind? (some n) = some .functionDeclaration) :
    a.hoisted (some n) = ((a.child (some n) 0).map (Hoisted.functionName n)).toList := by
  rw [hoisted, hkind]
  cases a.child (some n) 0 <;> rfl

theorem kind?_of_mem_bindingNames {r : NodeRef} (h : n ∈ a.bindingNames r) :
    a.kind? (some n) = some .bindingName := by
  obtain ⟨d, -, hd⟩ := List.mem_filterMap.1 h
  obtain ⟨-, hn⟩ := Option.filter_eq_some_iff.1 hd
  exact isKind_iff.1 hn

/-- A name of a declaration list is the first child of one of its declarations. -/
theorem exists_declaration_of_mem_bindingNames {r : NodeRef} (h : n ∈ a.bindingNames r) :
    ∃ d, some d ∈ a.children r ∧ a.child (some d) 0 = some n := by
  obtain ⟨d, hd, hn⟩ := List.mem_filterMap.1 h
  have hchild := (Option.filter_eq_some_iff.1 hn).1
  obtain ⟨m, -, rfl, -⟩ := kind?_of_child hchild
  exact ⟨m, hd, hchild⟩

/-- The names that a `var` list declares are no lexical names. -/
theorem Shaped.not_isLexicalName_of_mem_bindingNames (h : a.Shaped root) {s : Nat}
    (hs : s ∈ a.listing root) (hvar : (a.flags (some s)).isBlockScoped = false)
    (hn : n ∈ a.bindingNames (some s)) : a.isLexicalName n = false := by
  obtain ⟨d, hd, hchild⟩ := exists_declaration_of_mem_bindingNames hn
  have hparent : a.parent (some n) = some d :=
    h.parent_child (mem_listing_child hs hd) (mem_children_of_child_eq_some hchild)
  rw [isLexicalName, hparent, h.parent_child hs hd, hvar, Bool.and_false]

/-- A name that stands below a node of another kind than a declaration is no lexical name. -/
theorem Shaped.not_isLexicalName_child (h : a.Shaped root) {p : Nat} (hp : p ∈ a.listing root)
    (hkind : a.kind? (some p) = some kind) (hne : kind ≠ .varDeclaration)
    (hn : some n ∈ a.children (some p)) : a.isLexicalName n = false := by
  have hother : a.isKind (some p) .varDeclaration = false := by
    rw [isKind, hkind]
    simpa using hne
  rw [isLexicalName, h.parent_child hp hn, hother, Bool.and_false, Bool.false_and]

theorem exists_typeName_of_mem_hoistedTypes {r : NodeRef} {x : Hoisted}
    (h : x ∈ a.hoistedTypes r) : ∃ name, x = .typeName name := by
  unfold hoistedTypes at h
  simp only at h
  split at h
  · split at h
    · obtain ⟨n, -, rfl⟩ := List.mem_map.1 h
      exact ⟨_, rfl⟩
    · cases h
  · split at h
    · cases h
    · split at h
      · exact ⟨_, List.mem_singleton.1 h⟩
      · cases h
  · cases h

/-- What a statement of the tree hoists is proper. -/
theorem Shaped.proper_of_mem_hoisted (h : a.Shaped root) (hn : n ∈ a.listing root) :
    ∀ x ∈ a.hoisted (some n), x.Proper a := by
  induction n using Nat.strongRecOn with
  | ind n ih =>
    intro x hx
    obtain ⟨node, hnode⟩ := Option.isSome_iff_exists.1 (node?_of_mem_listing hn)
    have hkind : a.kind? (some n) = some node.kind := by rw [kind?, hnode, Option.map_some]
    by_cases hpasses : node.kind.passes = true
    · rw [hoisted_of_passes hkind hpasses] at hx
      obtain ⟨c, hc, hx⟩ := List.mem_flatMap.1 hx
      cases c with
      | none => simp [hoisted] at hx
      | some c => exact ih c (lt_of_mem_children hc) (mem_listing_child hn hc) x hx
    · by_cases hvar : node.kind = .varStatement
      · rw [hvar] at hkind
        rw [hoisted_varStatement hkind] at hx
        split at hx
        · cases hx
        · next hscoped =>
          obtain ⟨m, hm, rfl⟩ := List.mem_map.1 hx
          exact ⟨kind?_of_mem_bindingNames hm,
            h.not_isLexicalName_of_mem_bindingNames hn (by simpa using hscoped) hm⟩
      · by_cases hfunction : node.kind = .functionDeclaration
        · rw [hfunction] at hkind
          rw [hoisted_functionDeclaration hkind, Option.mem_toList] at hx
          obtain ⟨binding, hbinding, rfl⟩ := Option.map_eq_some_iff.1 hx
          have hlexical := h.not_isLexicalName_child hn hkind (by simp)
            (mem_children_of_child_eq_some hbinding)
          exact ⟨⟨h.kind?_child hn hkind rfl hbinding, hlexical⟩,
            h.not_isAssigned hn hkind rfl rfl (by simp)⟩
        · by_cases hannotated : node.kind = .annotated
          · rw [hannotated] at hkind
            rw [hoisted_annotated hkind] at hx
            rcases List.mem_append.1 hx with hx | hx
            · obtain ⟨name, rfl⟩ := exists_typeName_of_mem_hoistedTypes hx
              trivial
            · cases hc : a.child (some n) 1 with
              | none => simp [hc, hoisted] at hx
              | some c =>
                rw [hc] at hx
                have hmem := mem_children_of_child_eq_some hc
                exact ih c (lt_of_mem_children hmem) (mem_listing_child hn hmem) x hx
          · rw [hoisted_of_other hkind (by simpa using hpasses) hvar hfunction hannotated] at hx
            cases hx

end Arena

/-! ## The current scope -/

namespace Binder

/-- The kind of the current scope. -/
def currentKind? (b : Binder) : Option ScopeKind := (b.scopes.get? b.current).map (·.kind)

theorem nearest_current {b : Binder} (hb : b.scopes.Nested) {kind : ScopeKind}
    (hkind : b.currentKind? = some kind) {accept : ScopeKind → Bool} (h : accept kind = true) :
    b.scopes.nearest b.current accept = b.current := by
  obtain ⟨scope, hscope, rfl⟩ := Option.map_eq_some_iff.1 hkind
  rw [ScopeTree.nearest_eq hb hscope, if_pos h]

/-- Scopes stay where they are and lose no reservation, and no node loses its value. -/
structure Keeps (b b' : Binder) : Prop where
  scopes : ∀ s scope, b.scopes.get? s = some scope → ∃ scope', b'.scopes.get? s = some scope' ∧
    scope'.kind = scope.kind ∧ scope'.outer = scope.outer ∧ ∀ p ∈ scope.reserved, p ∈
      scope'.reserved
  valued : ∀ node, (b.analysis.valueOf? node).isSome → (b'.analysis.valueOf? node).isSome

namespace Keeps

variable {a : Arena} {b b' : Binder} {c : ScopeId}

theorem lt_size (h : Keeps b b') {s : ScopeId} (hs : s.index < b.scopes.size) :
    s.index < b'.scopes.size := by
  obtain ⟨scope, hscope⟩ := ScopeTree.exists_get?_of_lt hs
  obtain ⟨scope', hscope', -⟩ := h.scopes s scope hscope
  exact ScopeTree.lt_size_of_get? hscope'

theorem outer? (h : Keeps b b') {s : ScopeId} (hs : s.index < b.scopes.size) :
    b'.scopes.outer? s = b.scopes.outer? s := by
  obtain ⟨scope, hscope⟩ := ScopeTree.exists_get?_of_lt hs
  obtain ⟨scope', hscope', -, houter, -⟩ := h.scopes s scope hscope
  simp only [ScopeTree.outer?, hscope, hscope', Option.bind_some, houter]

theorem chain (h : Keeps b b') (ht : b.scopes.Nested) (ht' : b'.scopes.Nested)
    (hc : c.index < b.scopes.size) : b'.scopes.chain c = b.scopes.chain c :=
  ScopeTree.chain_congr ht ht' fun _ hid =>
    h.outer? (Nat.lt_of_le_of_lt (ScopeTree.index_le_of_mem_chain ht hid) hc)

theorem nearest (h : Keeps b b') (ht : b.scopes.Nested) (ht' : b'.scopes.Nested)
    (hc : c.index < b.scopes.size) (accept : ScopeKind → Bool) :
    b'.scopes.nearest c accept = b.scopes.nearest c accept := by
  refine ScopeTree.nearest_congr (h.chain ht ht' hc) fun id hid => ?_
  obtain ⟨scope, hscope⟩ :=
    ScopeTree.exists_get?_of_lt (Nat.lt_of_le_of_lt (ScopeTree.index_le_of_mem_chain ht hid) hc)
  obtain ⟨scope', hscope', hkind, -⟩ := h.scopes id scope hscope
  rw [hscope, hscope', Option.map_some, Option.map_some, hkind]

theorem mem_reserved (h : Keeps b b') {id : ScopeId} {p : Namespace × Atom}
    (hp : ∃ scope, b.scopes.get? id = some scope ∧ p ∈ scope.reserved) :
    ∃ scope, b'.scopes.get? id = some scope ∧ p ∈ scope.reserved := by
  obtain ⟨scope, hscope, hmem⟩ := hp
  obtain ⟨scope', hscope', -, -, hreserved⟩ := h.scopes id scope hscope
  exact ⟨scope', hscope', hreserved p hmem⟩

/-- What is met stays met. -/
theorem met (h : Keeps b b') (ht : b.scopes.Nested) (ht' : b'.scopes.Nested)
    (hc : c.index < b.scopes.size) {x : Hoisted} (hx : x.Met b c) : x.Met b' c := by
  cases x with
  | variableName n => exact h.valued _ hx
  | functionName f n => exact h.valued _ hx
  | typeName name =>
    show ∃ scope, _ ∧ _
    rw [ScopeTree.nearestFunction, h.nearest ht ht' hc]
    exact h.mem_reserved hx

/-- A statement that is covered stays so. -/
theorem covered (h : Keeps b b') (ht : b.scopes.Nested) (ht' : b'.scopes.Nested)
    (hc : c.index < b.scopes.size) {r : NodeRef} (hr : Covered a b c r) : Covered a b' c r := by
  refine ⟨fun x hx => h.met ht ht' hc (hr.hoisted x hx), fun p hp => ?_⟩
  rw [ScopeTree.nearestLexical, h.nearest ht ht' hc]
  exact h.mem_reserved (hr.reserved p hp)

end Keeps

end Binder

namespace Extends

variable {a : Arena} {plan : Plan} {k : Nat} {b b' : Binder}

theorem keeps (h : Extends a plan k b b') : b.Keeps b' := by
  refine ⟨fun s scope hs => ?_, h.valued⟩
  obtain ⟨scope', hs', hdeclares⟩ := h.scopes s scope hs
  exact ⟨scope', hs', hdeclares.kind, hdeclares.outer, hdeclares.reserved⟩

theorem currentKind? (h : Extends a plan k b b') (hb : b.Sound) :
    b'.currentKind? = b.currentKind? := by
  obtain ⟨scope, hscope⟩ := ScopeTree.exists_get?_of_lt hb.current
  obtain ⟨scope', hscope', hdeclares⟩ := h.scopes _ scope hscope
  rw [Binder.currentKind?, Binder.currentKind?, h.current, hscope, hscope', Option.map_some,
    Option.map_some, hdeclares.kind]

theorem chain (h : Extends a plan k b b') (hb : b.Sound) :
    b'.scopes.chain b'.current = b.scopes.chain b.current := by
  rw [h.current]
  exact h.keeps.chain hb.nested (h.sound hb).nested hb.current

theorem nearest (h : Extends a plan k b b') (hb : b.Sound) (accept : ScopeKind → Bool) :
    b'.scopes.nearest b.current accept = b.scopes.nearest b.current accept :=
  h.keeps.nearest hb.nested (h.sound hb).nested hb.current accept

/-- A statement that is covered stays so. -/
theorem covered (h : Extends a plan k b b') (hb : b.Sound) {r : NodeRef}
    (hr : Covered a b b.current r) : Covered a b' b.current r :=
  h.keeps.covered hb.nested (h.sound hb).nested hb.current hr

end Extends

namespace Declares

variable {a : Arena} {plan : Plan} {k : Nat} {b b' : Binder}

/-- A loop of declaring steps declares, and what each of them leaves holds at the end. -/
theorem forM {α : Type} {f : α → Bind Unit} {xs : List α} {P : α → Binder → Prop}
    (hb : b.Sound)
    (step : ∀ x ∈ xs, ∀ b₁, Declares a plan k b b₁ → Declares a plan k b₁ (f x b₁).2 ∧
      P x (f x b₁).2)
    (keep : ∀ x b₁ b₂, b₁.Sound → Declares a plan k b₁ b₂ → P x b₁ → P x b₂) :
    Declares a plan k b (xs.forM f b).2 ∧ ∀ x ∈ xs, P x (xs.forM f b).2 := by
  induction xs generalizing b with
  | nil => exact ⟨.refl b, fun x hx => by cases hx⟩
  | cons x xs ih =>
    obtain ⟨hx, hP⟩ := step x List.mem_cons_self b (.refl b)
    obtain ⟨hxs, hall⟩ := ih (hx.sound hb) fun y hy b₁ hb₁ =>
      step y (List.mem_cons_of_mem _ hy) b₁ (hx.trans hb₁)
    refine ⟨hx.trans hxs, fun y hy => ?_⟩
    rcases List.mem_cons.1 hy with rfl | hy
    · exact keep y _ _ (hx.sound hb) hxs hP
    · exact hall y hy

/-! ## Opening a body -/

/-- Names are reserved in the current scope, which has just opened. -/
theorem reserveAll (hb : b.Sound) (hk : k ≤ b.current.index) (names : List (Namespace × Atom))
    (howed : ∀ name, (.value, name) ∈ names → plan.owed name) :
    Declares a plan k b (Binder.reserveAll b.current names b).2 ∧ ∀ p ∈ names,
      ∃ scope, (Binder.reserveAll b.current names b).2.scopes.get? b.current = some scope ∧
        p ∈ scope.reserved := by
  refine forM (P := fun p b₁ => ∃ scope, b₁.scopes.get? b.current = some scope ∧ p ∈ scope.reserved)
    hb (fun p hp b₁ hb₁ => ?_) fun p b₁ b₂ _ h => h.keeps.mem_reserved
  have hsound := hb₁.sound hb
  have hmem : b.current ∈ b₁.scopes.chain b₁.current := by
    rw [hb₁.chain hb]
    exact ScopeTree.mem_chain_self hb.nested _
  have hvalue : p.1 = .value → plan.owed p.2 := fun hvalue => howed p.2 (hvalue ▸ hp)
  refine ⟨reserve hsound hmem hk p.1 p.2 hvalue, ?_⟩
  obtain ⟨scope, hscope⟩ := ScopeTree.exists_get?_of_lt (hsound.lt_size hmem)
  refine ⟨scope.reserve p.1 p.2, ?_, Scope.mem_reserved_reserve.2 (.inr rfl)⟩
  show (b₁.scopes.update b.current _).get? b.current = _
  rw [ScopeTree.get?_update, if_pos rfl, hscope]
  rfl

/-- One thing is declared in the current scope, which has just opened. -/
theorem hoist (hb : b.Sound) (hk : k ≤ b.current.index) {kind : ScopeKind}
    (hkind : b.currentKind? = some kind) (hfunction : kind.isFunctionScope = true) {x : Hoisted}
    (hx : x.Proper a) :
    Declares a plan k b (Binder.hoist a b.current x b).2 ∧
      x.Met (Binder.hoist a b.current x b).2 b.current := by
  have hmem := ScopeTree.mem_chain_self hb.nested b.current
  have hname : ∀ n, a.kind? (some n) = some .bindingName →
      ∀ m, some n = some m → a.kind? (some m) = some .bindingName := by
    rintro n hn m ⟨⟩
    exact hn
  have hmine : ∀ n, a.isLexicalName n = false →
      ∀ m, some n = some m → a.isLexicalName m = true → plan.mine m := by
    rintro n hn m ⟨⟩ hm
    rw [hn] at hm
    cases hm
  cases x with
  | variableName n =>
    obtain ⟨hdeclares, hvalue, -⟩ :=
      @declareVariable a plan k b hb _ hmem (some n) (hname n hx.1) (hmine n hx.2) (by omega)
    exact ⟨hdeclares, congrArg Option.isSome hvalue⟩
  | functionName f n =>
    obtain ⟨hdeclares, hvalue, -⟩ :=
      @declareVariable a plan k b hb _ hmem (some n) (hname n hx.1.1) (hmine n hx.1.2) (by omega)
    have hwrite : Declares a plan k (Binder.declareVariable a b.current (some n) b).2
        (Binder.hoist a b.current (.functionName f n) b).2 := by
      refine addWrite fun m hm hassigned => ?_
      cases hm
      rw [hx.2] at hassigned
      cases hassigned
    exact ⟨hdeclares.trans hwrite, hwrite.valued _ (congrArg Option.isSome hvalue)⟩
  | typeName name =>
    have hreserve : Declares a plan k b (Binder.hoist a b.current (.typeName name) b).2 :=
      reserve hb hmem hk .type name nofun
    refine ⟨hreserve, ?_⟩
    show ∃ scope, _ ∧ _
    rw [ScopeTree.nearestFunction, hreserve.nearest hb,
      Binder.nearest_current hb.nested hkind hfunction]
    obtain ⟨scope, hscope⟩ := ScopeTree.exists_get?_of_lt hb.current
    refine ⟨scope.reserve .type name, ?_, Scope.mem_reserved_reserve.2 (.inr rfl)⟩
    show (b.scopes.update b.current _).get? b.current = _
    rw [ScopeTree.get?_update, if_pos rfl, hscope]
    rfl

/-- Opening a body declares, and covers its statements. -/
theorem openBody (plan : Plan) {root : NodeRef} (hshape : a.Shaped root) (hb : b.Sound)
    (hk : k ≤ b.current.index) {kind : ScopeKind} (hkind : b.currentKind? = some kind)
    (hfunction : kind.isFunctionScope = true) {statements : List NodeRef}
    (hstatements : ∀ n, some n ∈ statements → n ∈ a.listing root)
    (howed : ∀ r ∈ statements, ∀ name, (.value, name) ∈ a.reservations r → plan.owed name) :
    Declares a plan k b (Binder.openBody a b.current statements b).2 ∧
      ∀ r ∈ statements, Covered a (Binder.openBody a b.current statements b).2 b.current r := by
  have hlexical : kind.isLexical = true := by cases kind <;> first | rfl | cases hfunction
  let hoisted := ((statements.flatMap a.hoisted).forM (Binder.hoist a b.current) b).2
  obtain ⟨hhoist, hmet⟩ : Declares a plan k b hoisted ∧
      ∀ x ∈ statements.flatMap a.hoisted, x.Met hoisted b.current := by
    have hlt : ∀ b₁, Declares a plan k b b₁ → b.current.index < b₁.scopes.size := fun b₁ hb₁ =>
      hb₁.keeps.lt_size hb.current
    refine (forM (P := fun x b₁ => b.current.index < b₁.scopes.size ∧ x.Met b₁ b.current) hb
      (fun x hx b₁ hb₁ => ?_) fun x b₁ b₂ hsound h hx => ⟨h.keeps.lt_size hx.1,
        h.keeps.met hsound.nested (h.sound hsound).nested hx.1 hx.2⟩).imp_right
      fun h x hx => (h x hx).2
    obtain ⟨r, hr, hx⟩ := List.mem_flatMap.1 hx
    have hproper : x.Proper a := by
      cases r with
      | none => simp [Arena.hoisted] at hx
      | some n => exact hshape.proper_of_mem_hoisted (hstatements n hr) x hx
    have hstep := @hoist a plan k b₁ (hb₁.sound hb) (hb₁.current ▸ hk) kind
      ((hb₁.currentKind? hb).trans hkind) hfunction x hproper
    rw [hb₁.current] at hstep
    exact ⟨hstep.1, hlt _ (hb₁.trans hstep.1), hstep.2⟩
  have hsound : hoisted.Sound := hhoist.sound hb
  have hcurrent : hoisted.current = b.current := hhoist.current
  obtain ⟨hreserve, hreserved⟩ :=
    @reserveAll a plan k hoisted hsound (hcurrent ▸ hk) (statements.flatMap a.reservations)
      fun name hname => by
        obtain ⟨r, hr, hmem⟩ := List.mem_flatMap.1 hname
        exact howed r hr name hmem
  rw [hcurrent] at hreserve hreserved
  refine ⟨hhoist.trans hreserve, fun r hr => ⟨fun x hx => ?_, fun p hp => ?_⟩⟩
  · have hx' := hmet x (List.mem_flatMap.2 ⟨r, hr, hx⟩)
    exact hreserve.keeps.met hsound.nested (hreserve.sound hsound).nested
      (hhoist.keeps.lt_size hb.current) hx'
  · have hdeclares : Declares a plan k b (Binder.openBody a b.current statements b).2 :=
      hhoist.trans hreserve
    rw [ScopeTree.nearestLexical, hdeclares.nearest hb,
      Binder.nearest_current hb.nested hkind hlexical]
    exact hreserved p (List.mem_flatMap.2 ⟨r, hr, hp⟩)

end Declares

end DocTypes
