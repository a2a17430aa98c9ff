import DocTypes.Proofs.Binding.Hoists
import DocTypes.Proofs.Binding.Mentioning
import DocTypes.Proofs.Tree.Comments

/-!
# Nodes that are ready to be visited

When a node is about to be visited, all that it will declare in the scopes around it was foreseen:
what the node hoists and reserves (`Covered`), and the type names that the comment on a declaration
binds (`Told`). The names of `let` and `const` lists below the node have no variables yet, and the
scopes around it were opened by nodes above it. `Ready` collects these. A node stays ready while the
walk is elsewhere (`Ready.passes`), and passes on to its children what it was told.

## Main statements

* `Ready.passes`: other work leaves a node ready.
* `Reached.ready_of_calm`, `Arena.Holds.ready`: what is visited in the same scope and
  declares nothing.
-/

namespace DocTypes

open Binder

/-! ## What stands at a place -/

namespace NodeKind

/-- The kinds of node that declare nothing around them. -/
def isInert (kind : NodeKind) : Bool := kind.isQuiet && kind != .classDeclaration

/-- The kinds of node that are visited. -/
def isWalked (kind : NodeKind) : Bool :=
  !kind.isCompilationUnit && kind != .varDeclaration && kind != .jsDocDocument

end NodeKind

/-- The kinds of node that may stand at a place, under a comment or not. -/
def Place.kinds : Place → List NodeKind
  | .item => NodeKind.all.filter NodeKind.isStatement
  | .clause | .head => NodeKind.all.filter fun kind => kind.isStatement || kind.isExpression
  | .expression => NodeKind.all.filter NodeKind.isExpression
  | .body => .block :: NodeKind.all.filter NodeKind.isExpression
  | .target => NodeKind.all.filter fun kind =>
    kind.isStatement || kind.isExpression || kind == .method || kind == .property
  | .only kinds => kinds
  | .commented kind => [kind]
  | .free => NodeKind.all

/-- Whether no `let` or `const` list and no class declaration stands at a place. -/
def Place.isPlain : Place → Bool
  | .clause | .expression | .body => true
  | .only kinds => kinds.all fun kind =>
    kind != .varStatement && kind != .classDeclaration && kind != .annotated
  | .commented kind => kind != .varStatement && kind != .classDeclaration
  | _ => false

namespace NodeKind

variable {kind : NodeKind}

theorem place_isInert (h : kind.hasQuietChildren = true) (i : Nat) :
    (kind.place i).kinds.all isInert = true := by
  rcases i with _ | _ | _ | i <;> cases kind <;> first
    | rfl
    | cases h

theorem place_isWalked (h : kind.isCode = true) (hvar : kind ≠ .varStatement)
    (hannotated : kind ≠ .annotated) (i : Nat) : (kind.place i).kinds.all isWalked = true := by
  rcases i with _ | _ | _ | i <;> cases kind <;> first
    | exact absurd rfl hvar
    | exact absurd rfl hannotated
    | rfl
    | cases h

end NodeKind

namespace Arena

variable {a : Arena} {root : NodeRef} {n c : Nat} {kind : NodeKind}

theorem bare_of_annotated {r : NodeRef} (h : a.kind? r = some .annotated) :
    a.bare r = a.child r 1 := by
  rw [bare, if_pos (isKind_iff.2 h)]

/-- A node at a place is of one of the kinds for it, or is a comment on such a node. -/
theorem mem_kinds_of_admits {place : Place} (h : a.admits (some c) place = true)
    (hfree : place ≠ .free) : ∃ kind ∈ place.kinds, a.kind? (some c) = some kind ∨
      a.kind? (some c) = some .annotated ∧ a.kind? (a.child (some c) 1) = some kind := by
  have hbare {kind : NodeKind} (hkind : a.kind? (a.bare (some c)) = some kind) :
      a.kind? (some c) = some kind ∨
        a.kind? (some c) = some .annotated ∧ a.kind? (a.child (some c) 1) = some kind := by
    by_cases hannotated : a.kind? (some c) = some .annotated
    · exact .inr ⟨hannotated, bare_of_annotated hannotated ▸ hkind⟩
    · rw [bare, if_neg fun h => hannotated (isKind_iff.1 h)] at hkind
      exact .inl hkind
  have hfamily {family : NodeKind → Bool} (h : a.isOf family (a.bare (some c)) = true) :
      ∃ kind ∈ NodeKind.all.filter family, a.kind? (some c) = some kind ∨
        a.kind? (some c) = some .annotated ∧ a.kind? (a.child (some c) 1) = some kind := by
    obtain ⟨kind, hkind, hmem⟩ := kind?_of_isOf h
    exact ⟨kind, List.mem_filter.2 ⟨kind.mem_all, hmem⟩, hbare hkind⟩
  have hself {family : NodeKind → Bool} (h : a.isOf family (some c) = true) :
      ∃ kind ∈ NodeKind.all.filter family, a.kind? (some c) = some kind ∨
        a.kind? (some c) = some .annotated ∧ a.kind? (a.child (some c) 1) = some kind := by
    obtain ⟨kind, hkind, hmem⟩ := kind?_of_isOf h
    exact ⟨kind, List.mem_filter.2 ⟨kind.mem_all, hmem⟩, .inl hkind⟩
  have hclause (h : (a.isOf NodeKind.isStatement (a.bare (some c)) &&
    !a.isLexical (a.bare (some c)) ||
      a.isOf NodeKind.isExpression (a.bare (some c))) = true) :
      a.isOf (fun kind => kind.isStatement || kind.isExpression) (a.bare (some c)) = true := by
    rcases Bool.or_eq_true _ _ ▸ h with h | h
    · obtain ⟨kind, hkind, hmem⟩ := kind?_of_isOf (Bool.and_eq_true _ _ ▸ h).1
      rw [isOf, hkind, Option.any_some, hmem, Bool.true_or]
    · obtain ⟨kind, hkind, hmem⟩ := kind?_of_isOf h
      rw [isOf, hkind, Option.any_some, hmem, Bool.or_true]
  cases place with
  | item => exact hfamily h
  | clause => exact hfamily (hclause h)
  | head =>
    rw [admits, Bool.or_assoc, Bool.or_eq_true] at h
    rcases h with h | h
    · exact ⟨.varStatement, by decide, .inl (isKind_iff.1 h)⟩
    · exact hfamily (hclause h)
  | expression => exact hfamily h
  | body =>
    rcases Bool.or_eq_true _ _ ▸ h with h | h
    · exact ⟨.block, List.mem_cons_self, .inl (isKind_iff.1 h)⟩
    · obtain ⟨kind, hmem, hkind⟩ := hfamily h
      exact ⟨kind, List.mem_cons_of_mem _ hmem, hkind⟩
  | target => exact hself h
  | only kinds =>
    obtain ⟨kind, hkind, hmem⟩ := kind?_of_isOf h
    exact ⟨kind, List.contains_iff_mem.1 hmem, .inl hkind⟩
  | commented kind => exact ⟨kind, List.mem_singleton_self kind, hbare (isKind_iff.1 h)⟩
  | free => exact absurd rfl hfree

/-! ## Nodes that declare nothing -/

/-- A node that hoists and reserves nothing. -/
structure IsInert (a : Arena) (r : NodeRef) : Prop where
  hoisted : a.hoisted r = []
  reserved : a.reservations r = []

/-- What is not lexical is no class, and no declaration list with `let` or `const`. -/
theorem kind?_of_not_isLexical {r : NodeRef} (h : a.isLexical r = false) :
    a.kind? r ≠ some .classDeclaration ∧
      (a.kind? r = some .varStatement → (a.flags r).isBlockScoped = false) := by
  rw [isLexical, Bool.or_eq_false_iff, Bool.and_eq_false_iff] at h
  refine ⟨fun hkind => ?_, fun hkind => h.2.resolve_left fun hvar => ?_⟩
  · rw [isKind_iff.2 hkind] at h
    cases h.1
  · rw [isKind_iff.2 hkind] at hvar
    cases hvar

theorem reservations_of_plain {r : NodeRef} (h : a.isLexical (a.bare r) = false) :
    a.reservations r = [] := by
  obtain ⟨hclass, hvar⟩ := kind?_of_not_isLexical h
  unfold bare at hclass hvar
  unfold reservations
  by_cases hannotated : a.isKind r .annotated = true
  · rw [if_pos hannotated] at hclass hvar ⊢
    dsimp only
    split
    · next hkind => rw [hvar hkind, if_neg Bool.false_ne_true]
    · next hkind => exact absurd hkind hclass
    · rfl
  · rw [if_neg hannotated] at hclass hvar ⊢
    dsimp only
    split
    · next hkind => rw [hvar hkind, if_neg Bool.false_ne_true]
    · next hkind => exact absurd hkind hclass
    · rfl

theorem isLexical_of_kind {r : NodeRef} (hkind : a.kind? r = some kind)
    (hvar : kind ≠ .varStatement)
    (hclass : kind ≠ .classDeclaration) : a.isLexical r = false := by
  simp [isLexical, isKind, hkind, hvar, hclass]

theorem isInert_of_kind (hkind : a.kind? (some n) = some kind) (h : kind.isInert = true) :
    a.IsInert (some n) := by
  have hannotated : kind ≠ .annotated := by
    rintro rfl
    cases h
  have hvar : kind ≠ .varStatement := by
    rintro rfl
    cases h
  have hfunction : kind ≠ .functionDeclaration := by
    rintro rfl
    cases h
  have hclass : kind ≠ .classDeclaration := by
    rintro rfl
    cases h
  have hpasses : kind.passes = false := by
    cases kind <;> first
      | rfl
      | cases h
  refine ⟨hoisted_of_other hkind hpasses hvar hfunction hannotated, reservations_of_plain ?_⟩
  rw [bare_of_kind? hkind hannotated]
  exact isLexical_of_kind hkind hvar hclass

/-- A comment on a node that declares nothing. -/
theorem isInert_of_annotated (hkind : a.kind? (some n) = some .annotated)
    (hc : a.kind? (a.child (some n) 1) = some kind) (h : kind.isInert = true) :
    a.IsInert (some n) := by
  obtain ⟨c, hchild⟩ := exists_of_kind? hc
  rw [hchild] at hc
  have hvar : kind ≠ .varStatement := by
    rintro rfl
    cases h
  have hfunction : kind ≠ .functionDeclaration := by
    rintro rfl
    cases h
  have hclass : kind ≠ .classDeclaration := by
    rintro rfl
    cases h
  have htypes : a.hoistedTypes (some n) = [] := by
    unfold hoistedTypes
    dsimp only
    rw [hchild, hc]
    split
    · next heq => exact absurd (Option.some.inj heq) hvar
    · next heq => exact absurd (Option.some.inj heq) hfunction
    · rfl
  refine ⟨?_, reservations_of_plain ?_⟩
  · rw [hoisted_annotated hkind, htypes, hchild, (isInert_of_kind hc h).hoisted, List.nil_append]
  · rw [bare_of_annotated hkind, hchild]
    exact isLexical_of_kind hc hvar hclass

theorem not_isLexical_of_admits {place : Place} (hplace : place.isPlain = true)
    (h : a.admits (some c) place = true) : a.isLexical (a.bare (some c)) = false := by
  have hexpression (h : a.isOf NodeKind.isExpression (a.bare (some c)) = true) :
      a.isLexical (a.bare (some c)) = false := by
    obtain ⟨kind, hkind, hmem⟩ := kind?_of_isOf h
    refine isLexical_of_kind hkind ?_ ?_ <;>
      · rintro rfl
        cases hmem
  cases place with
  | clause =>
    rcases Bool.or_eq_true _ _ ▸ h with h | h
    · rw [Bool.and_eq_true, Bool.not_eq_true'] at h
      exact h.2
    · exact hexpression h
  | expression => exact hexpression h
  | body =>
    rcases Bool.or_eq_true _ _ ▸ h with h | h
    · have hkind := isKind_iff.1 h
      rw [bare_of_kind? hkind (by simp)]
      exact isLexical_of_kind hkind (by simp) (by simp)
    · exact hexpression h
  | only kinds =>
    obtain ⟨kind, hkind, hmem⟩ := kind?_of_isOf h
    have hall := List.all_eq_true.1 hplace kind (List.contains_iff_mem.1 hmem)
    simp only [Bool.and_eq_true, bne_iff_ne] at hall
    rw [bare_of_kind? hkind hall.2]
    exact isLexical_of_kind hkind hall.1.1 hall.1.2
  | commented kind =>
    simp only [Place.isPlain, Bool.and_eq_true, bne_iff_ne] at hplace
    exact isLexical_of_kind (isKind_iff.1 h) hplace.1 hplace.2
  | item | head | target | free => cases hplace

/-- What stands at a place for nodes that declare nothing, under a comment or not. -/
theorem isInert_of_admits {place : Place} (hplace : place.kinds.all NodeKind.isInert = true)
    (h : a.admits (some c) place = true) : a.IsInert (some c) := by
  obtain ⟨only, hmem, honly⟩ := mem_kinds_of_admits h fun hfree => by
    rw [hfree] at hplace
    cases hplace
  have hinert := List.all_eq_true.1 hplace only hmem
  rcases honly with honly | ⟨hannotated, honly⟩
  · exact isInert_of_kind honly hinert
  · exact isInert_of_annotated hannotated honly hinert

theorem isWalked_of_admits {place : Place} (hplace : place.kinds.all NodeKind.isWalked = true)
    (h : a.admits (some c) place = true) : a.isOf NodeKind.isWalked (some c) = true := by
  obtain ⟨only, hmem, honly⟩ := mem_kinds_of_admits h fun hfree => by
    rw [hfree] at hplace
    cases hplace
  rcases honly with honly | ⟨hannotated, -⟩
  · rw [isOf, honly, Option.any_some, List.all_eq_true.1 hplace only hmem]
  · rw [isOf, hannotated]
    rfl

namespace Shaped

variable (h : a.Shaped root) (hn : n ∈ a.listing root) (hkind : a.kind? (some n) = some kind)
include h hn hkind

/-- Below a node with quiet children nothing is declared. -/
theorem isInert_child (hquiet : kind.hasQuietChildren = true) (hc : some c ∈ a.children (some n)) :
    a.IsInert (some c) := by
  obtain ⟨i, -, hi⟩ := exists_child_of_mem_children hc
  exact isInert_of_admits (NodeKind.place_isInert hquiet i) (h.admits_child hn hkind hi)

theorem isWalked_child (hcode : kind.isCode = true) (hvar : kind ≠ .varStatement)
    (hannotated : kind ≠ .annotated) (hc : some c ∈ a.children (some n)) :
    a.isOf NodeKind.isWalked (some c) = true := by
  obtain ⟨i, -, hi⟩ := exists_child_of_mem_children hc
  exact isWalked_of_admits (NodeKind.place_isWalked hcode hvar hannotated i)
    (h.admits_child hn hkind hi)

/-- Nothing is reserved out of a place that holds no lexical declaration. -/
theorem reservations_child {i : Nat} (hplace : (kind.place i).isPlain = true)
    (hc : a.child (some n) i = some c) : a.reservations (some c) = [] :=
  reservations_of_plain (not_isLexical_of_admits hplace (h.admits_child hn hkind hc))

end Shaped

/-! ## Type names of declarations -/

/-- Whether a declaration list binds in the nearest block. -/
def isScoped (a : Arena) (r : NodeRef) : Bool :=
  a.isKind r .varStatement && (a.flags r).isBlockScoped

/-- A comment stands on the node. -/
def IsTarget (a : Arena) (s : Nat) : Prop :=
  ∃ p, a.parent (some s) = some p ∧ a.kind? (some p) = some .annotated ∧ a.child (some p) 1 = some s

/-- The type names that a declaration binds because of the comment on it. -/
def commentTypes (a : Arena) (s : Nat) : List Atom :=
  match a.kind? (some s) with
  | some .varStatement =>
    if (a.commentOn s).kind.declaresType then (a.bindingNames (some s)).map fun b => a.atom (some b)
    else []
  | some .functionDeclaration =>
    if (a.commentOn s).kind.isClass then ((a.child (some s) 0).map fun b => a.atom (some b)).toList
    else []
  | _ => []

end Arena

/-- The scope for the names of a declaration, seen from a scope. -/
def ScopeTree.declaring (t : ScopeTree) (c : ScopeId) (lexical : Bool) : ScopeId :=
  if lexical then t.nearestLexical c else t.nearestFunction c

/-- A name is reserved in a scope. -/
def ScopeTree.Reserves (t : ScopeTree) (id : ScopeId) (p : Namespace × Atom) : Prop :=
  ∃ scope, t.get? id = some scope ∧ p ∈ scope.reserved

/-- The type names that a comment on a declaration binds are reserved where it declares. -/
def Told (a : Arena) (t : ScopeTree) (c : ScopeId) (s : Nat) : Prop :=
  a.IsTarget s → ∀ name ∈ a.commentTypes s,
    t.Reserves (t.declaring c (a.isScoped (some s))) (.type, name)

/-- A comment that was foreseen has told its target. -/
theorem Covered.told {a : Arena} {b : Binder} {c : ScopeId} {p s : Nat}
    (h : Covered a b c (some p)) (hkind : a.kind? (some p) = some .annotated)
    (hparent : a.parent (some s) = some p) (hchild : a.child (some p) 1 = some s) :
    Told a b.scopes c s := by
  intro _ name hname
  have hdoc : (a.commentOn s).kind = a.declaredKind (some p) := by
    rw [Arena.commentOn, hparent, Arena.declaredKind, hchild]
  have hhoisted : ∀ x ∈ a.hoistedTypes (some p), x.Met b c := fun x hx => by
    refine h.hoisted x ?_
    rw [Arena.hoisted_annotated hkind]
    exact List.mem_append_left _ hx
  unfold Arena.hoistedTypes at hhoisted
  unfold Arena.commentTypes at hname
  rw [hdoc] at hname
  dsimp only at hhoisted
  rw [hchild] at hhoisted
  split at hname
  · next hlist =>
    split at hname
    · next hdeclares =>
      obtain ⟨m, hm, rfl⟩ := List.mem_map.1 hname
      have hscoped : a.isScoped (some s) = (a.flags (some s)).isBlockScoped := by
        rw [Arena.isScoped, Arena.isKind_iff.2 hlist, Bool.true_and]
      rw [hscoped, ScopeTree.declaring]
      split
      · next hlexical =>
        refine h.reserved _ ?_
        unfold Arena.reservations
        rw [if_pos (Arena.isKind_iff.2 hkind), hchild]
        dsimp only
        rw [hlist]
        dsimp only
        rw [if_pos hlexical, if_pos hdeclares]
        exact List.mem_append_right _ (List.mem_map.2 ⟨_, List.mem_map.2 ⟨m, hm, rfl⟩, rfl⟩)
      · next hlexical =>
        rw [hlist] at hhoisted
        dsimp only at hhoisted
        rw [if_pos (by simp [hlexical, hdeclares])] at hhoisted
        exact hhoisted _ (List.mem_map.2 ⟨m, hm, rfl⟩)
    · cases hname
  · next hfunction =>
    split at hname
    · next hclass =>
      rw [Option.mem_toList] at hname
      obtain ⟨m, hm, rfl⟩ := Option.map_eq_some_iff.1 hname
      have hscoped : a.isScoped (some s) = false := by
        rw [Arena.isScoped, Arena.isKind, hfunction]
        rfl
      rw [hfunction] at hhoisted
      dsimp only at hhoisted
      rw [hm] at hhoisted
      dsimp only at hhoisted
      rw [if_pos hclass] at hhoisted
      rw [hscoped]
      exact hhoisted _ (List.mem_singleton_self _)
    · cases hname
  · cases hname

/-! ## States of the walk -/

namespace Binder

/-- A step after which the walk is where it was. Scopes have only grown, and of the names of `let`
and `const` lists certain ones may have got variables. -/
structure Passes (a : Arena) (late : Atom → Prop) (mine : Nat → Prop) (b b' : Binder) : Prop where
  current : b'.current = b.current
  grows : b.scopes.Grows late b'.scopes
  valued : ∀ r, (b.analysis.valueOf? r).isSome → (b'.analysis.valueOf? r).isSome
  entered : ∀ n, a.isLexicalName n = true → (b'.analysis.valueOf? (some n)).isSome →
    (b.analysis.valueOf? (some n)).isSome ∨ mine n

namespace Passes

variable {a : Arena} {late : Atom → Prop} {mine mine' : Nat → Prop} {b b' b'' : Binder}

theorem refl (b : Binder) : Passes a late mine b b :=
  ⟨rfl, .refl _, fun _ h => h, fun _ _ h => .inl h⟩

theorem trans (h : Passes a late mine b b') (h' : Passes a late mine b' b'') :
    Passes a late mine b b'' :=
  ⟨h'.current.trans h.current, h.grows.trans h'.grows, fun r hr => h'.valued r (h.valued r hr),
    fun n hn hvalue => (h'.entered n hn hvalue).elim (h.entered n hn) .inr⟩

theorem mono (h : Passes a late mine b b') (hmine : ∀ n, mine n → mine' n) :
    Passes a late mine' b b' :=
  ⟨h.current, h.grows, h.valued, fun n hn hvalue => (h.entered n hn hvalue).imp_right (hmine n)⟩

theorem keeps (h : Passes a late mine b b') : b.Keeps b' := by
  refine ⟨fun s scope hs => ?_, h.valued⟩
  obtain ⟨scope', hs', hgrows⟩ := h.grows s scope hs
  exact ⟨scope', hs', hgrows.kind, hgrows.outer, fun p hp => hgrows.reserved ▸ hp⟩

end Passes

/-- The scopes around the current one stay open around it. -/
theorem Encloses.of_chain {b b' : Binder} {n : Nat} (h : b.Encloses n)
    (hchain : b'.scopes.chain b'.current = b.scopes.chain b.current)
    (hnode : ∀ s ∈ b.scopes.chain b.current, ∀ scope', b'.scopes.get? s = some scope' →
      ∃ scope, b.scopes.get? s = some scope ∧ scope'.node = scope.node) : b'.Encloses n := by
  intro s hs scope' hscope' p hp
  rw [hchain] at hs
  obtain ⟨scope, hscope, hsame⟩ := hnode s hs scope' hscope'
  exact h s hs scope hscope p (hsame ▸ hp)

theorem Encloses.mono {b : Binder} {m n : Nat} (h : b.Encloses n) (hlt : m ≤ n) : b.Encloses m :=
  fun s hs scope hscope p hp => Nat.lt_of_le_of_lt hlt (h s hs scope hscope p hp)

theorem Encloses.passes {a : Arena} {late : Atom → Prop} {mine : Nat → Prop}
    {b b' : Binder} {n : Nat}
    (h : b.Encloses n) (hb : b.Sound) (hb' : b'.Sound) (hpasses : Passes a late mine b b') :
    b'.Encloses n := by
  refine h.of_chain ?_ fun s hs scope' hscope' => ?_
  · rw [hpasses.current]
    exact hpasses.keeps.chain hb.nested hb'.nested hb.current
  · obtain ⟨scope, hscope⟩ := ScopeTree.exists_get?_of_lt (hb.lt_size hs)
    obtain ⟨other, hother, hgrows⟩ := hpasses.grows s scope hscope
    cases hother.symm.trans hscope'
    exact ⟨scope, hscope, hgrows.node⟩

theorem Encloses.extends {a : Arena} {plan : Plan} {k : Nat} {b b' : Binder} {n : Nat}
    (h : b.Encloses n) (hb : b.Sound) (hstep : Extends a plan k b b') : b'.Encloses n := by
  refine h.of_chain (hstep.chain hb) fun s hs scope' hscope' => ?_
  obtain ⟨scope, hscope⟩ := ScopeTree.exists_get?_of_lt (hb.lt_size hs)
  obtain ⟨other, hother, hdeclares⟩ := hstep.scopes s scope hscope
  cases hother.symm.trans hscope'
  exact ⟨scope, hscope, hdeclares.node⟩

/-- In a scope that a node opens, below that node. -/
theorem Encloses.entered {b : Binder} {m n : Nat} (h : b.Encloses n) (hb : b.Sound) (hlt : m < n)
    (kind : ScopeKind) : (b.entered kind (some n)).Encloses m := by
  intro s hs scope hscope p hp
  rw [chain_entered b kind (some n) hb] at hs
  rw [get?_entered] at hscope
  split at hscope
  · cases hscope
    cases hp
    exact hlt
  · next hne =>
    have hs' := (List.mem_cons.1 hs).resolve_left hne
    exact Nat.lt_trans hlt (h s hs' scope hscope p hp)

theorem keeps_entered (b : Binder) (kind : ScopeKind) (node : NodeRef) :
    b.Keeps (b.entered kind node) :=
  ⟨fun _ scope hs => ⟨scope, get?_entered_of_some b kind node hs, rfl, rfl, fun _ hp => hp⟩,
    fun _ h => h⟩

theorem currentKind?_entered (b : Binder) (kind : ScopeKind) (node : NodeRef) :
    (b.entered kind node).currentKind? = some kind := by
  rw [currentKind?, get?_entered, if_pos rfl, Option.map_some]

/-- A scope of another sort is not the nearest one. -/
theorem nearest_entered {b : Binder} (hb : b.Sound) {kind : ScopeKind} (node : NodeRef)
    {accept : ScopeKind → Bool} (h : accept kind = false) :
    (b.entered kind node).scopes.nearest (b.entered kind node).current accept =
      b.scopes.nearest b.current accept := by
  have hscope := get?_entered b kind node (b.entered kind node).current
  rw [if_pos rfl] at hscope
  rw [ScopeTree.nearest_eq (nested_entered b kind node hb) hscope, h, outer?_entered]
  exact (keeps_entered b kind node).nearest hb.nested (nested_entered b kind node hb)
    hb.current accept

end Binder

/-- What is met stays met in a scope from which the nearest function is the same. -/
theorem Hoisted.Met.move {b b' : Binder} {c c' : ScopeId} {x : Hoisted} (hx : x.Met b c)
    (hkeeps : b.Keeps b') (hnearest : b'.scopes.nearestFunction c' = b.scopes.nearestFunction c) :
    x.Met b' c' := by
  cases x with
  | variableName n => exact hkeeps.valued _ hx
  | functionName f n => exact hkeeps.valued _ hx
  | typeName name =>
    show ∃ scope, _ ∧ _
    rw [hnearest]
    exact hkeeps.mem_reserved hx

theorem Covered.move {a : Arena} {b b' : Binder} {c c' : ScopeId} {r : NodeRef}
    (h : Covered a b c r)
    (hkeeps : b.Keeps b') (hfunction : b'.scopes.nearestFunction c' = b.scopes.nearestFunction c)
    (hlexical : b'.scopes.nearestLexical c' = b.scopes.nearestLexical c) : Covered a b' c' r := by
  refine ⟨fun x hx => (h.hoisted x hx).move hkeeps hfunction, fun p hp => ?_⟩
  rw [hlexical]
  exact hkeeps.mem_reserved (h.reserved p hp)

theorem Told.move {a : Arena} {b b' : Binder} {c c' : ScopeId} {s : Nat} (h : Told a b.scopes c s)
    (hkeeps : b.Keeps b') (hfunction : b'.scopes.nearestFunction c' = b.scopes.nearestFunction c)
    (hlexical : b'.scopes.nearestLexical c' = b.scopes.nearestLexical c) :
    Told a b'.scopes c' s := by
  intro htarget name hname
  have hdeclaring : b'.scopes.declaring c' (a.isScoped (some s)) =
      b.scopes.declaring c (a.isScoped (some s)) := by
    rw [ScopeTree.declaring, ScopeTree.declaring, hfunction, hlexical]
  rw [hdeclaring]
  exact hkeeps.mem_reserved (h htarget name hname)

/-! ## Ready nodes -/

/-- A node of the program in the scopes that were opened above it, the names of whose lists have no
variables yet. -/
structure Reached (a : Arena) (root : NodeRef) (b : Binder) (n : Nat) : Prop where
  coded : n ∈ a.code root
  fresh : ∀ m ∈ a.listing (some n), a.isLexicalName m = true →
    (b.analysis.valueOf? (some m)).isSome = false
  enclosed : b.Encloses n

/-- A node that can be visited: what it declares around it was foreseen. -/
structure Ready (a : Arena) (root : NodeRef) (b : Binder) (n : Nat) : Prop
    extends Reached a root b n where
  walked : a.isOf NodeKind.isWalked (some n) = true
  covered : Covered a b b.current (some n)
  told : Told a b.scopes b.current n
  /-- What a declaration list was told holds for the values of its names. -/
  initial : ∀ d s, a.parent (some n) = some d → a.kind? (some d) = some .varDeclaration →
    a.parent (some d) = some s → Told a b.scopes b.current s

section Ready

variable {a : Arena} {root : NodeRef} {late : Atom → Prop} {mine : Nat → Prop} {b b' : Binder}
  {n p m : Nat} {kind : NodeKind}

namespace Reached

/-- Where no name of a list below the node got a variable. -/
theorem move (h : Reached a root b n) (henclosed : b'.Encloses n)
    (hentered : ∀ m ∈ a.listing (some n), a.isLexicalName m = true →
      (b'.analysis.valueOf? (some m)).isSome → (b.analysis.valueOf? (some m)).isSome) :
    Reached a root b' n := by
  refine ⟨h.coded, fun m hm hlexical => ?_, henclosed⟩
  have hnone := h.fresh m hm hlexical
  by_contra hsome
  rw [hentered m hm hlexical (Bool.not_eq_false _ ▸ hsome)] at hnone
  cases hnone

theorem passes (h : Reached a root b n) (hb : b.Sound) (hb' : b'.Sound)
    (hpasses : b.Passes a late mine b') (hmine : ∀ m ∈ a.listing (some n), ¬mine m) :
    Reached a root b' n :=
  h.move (h.enclosed.passes hb hb' hpasses) fun m hm hlexical hvalue =>
    (hpasses.entered m hlexical hvalue).resolve_right (hmine m hm)

theorem listed (h : Reached a root b n) : n ∈ a.listing root :=
  Arena.mem_listing_of_mem_code h.coded

/-- What is below a node is reached with it. -/
theorem child (h : Reached a root b n) (hkind : a.kind? (some n) = some kind)
    (hdocument : kind ≠ .jsDocDocument) (hm : some m ∈ a.children (some n)) :
    Reached a root b m := by
  refine ⟨Arena.mem_code_child h.coded ?_ hm, fun r hr => ?_, ?_⟩
  · rw [Arena.isKind, hkind]
    simpa using hdocument
  · exact h.fresh r ((Arena.sublist_listing_child hm).subset hr)
  · exact h.enclosed.mono (Nat.le_of_lt (Arena.lt_of_mem_children hm))

end Reached

namespace Ready

/-- Other work leaves a node ready. -/
theorem passes (h : Ready a root b n) (hb : b.Sound) (hb' : b'.Sound)
    (hpasses : b.Passes a late mine b') (hmine : ∀ m ∈ a.listing (some n), ¬mine m) :
    Ready a root b' n := by
  have hnearest (accept : ScopeKind → Bool) :
      b'.scopes.nearest b'.current accept = b.scopes.nearest b.current accept := by
    rw [hpasses.current]
    exact hpasses.keeps.nearest hb.nested hb'.nested hb.current accept
  exact {
    toReached := h.toReached.passes hb hb' hpasses hmine
    walked := h.walked
    covered := h.covered.move hpasses.keeps (hnearest _) (hnearest _)
    told := h.told.move hpasses.keeps (hnearest _) (hnearest _)
    initial := fun d s hd hkind hs =>
      (h.initial d s hd hkind hs).move hpasses.keeps (hnearest _) (hnearest _) }

/-- A node below one that is no comment and no declaration has nothing to be told. -/
theorem of_parent (h : Reached a root b m) (hparent : a.parent (some m) = some p)
    (hkind : a.kind? (some p) = some kind) (hannotated : kind ≠ .annotated)
    (hdeclaration : kind ≠ .varDeclaration) (hwalked : a.isOf NodeKind.isWalked (some m) = true)
    (hcovered : Covered a b b.current (some m)) : Ready a root b m := by
  refine ⟨h, hwalked, hcovered, fun ⟨q, hq, hqkind, _⟩ => ?_, fun d s hd hdkind _ => ?_⟩
  · cases hparent.symm.trans hq
    exact absurd (Option.some.inj (hkind.symm.trans hqkind)) hannotated
  · cases hparent.symm.trans hd
    exact absurd (Option.some.inj (hkind.symm.trans hdkind)) hdeclaration

end Ready

/-- A node that declares nothing around it was foreseen. -/
theorem Arena.IsInert.covered (h : a.IsInert (some n)) (b : Binder) (c : ScopeId) :
    Covered a b c (some n) := by
  refine ⟨fun x hx => ?_, fun p hp => ?_⟩
  · rw [h.hoisted] at hx
    cases hx
  · rw [h.reserved] at hp
    cases hp

/-! ## Parts of expressions -/

/-- The kinds of node below which nothing is declared but in scopes of its own, declaration lists
aside. -/
def NodeKind.isCalm (kind : NodeKind) : Bool :=
  kind.hasQuietChildren && kind != .varStatement && kind != .varDeclaration

/-- A node that is reached from another one through nodes that declare nothing. -/
inductive Arena.Holds (a : Arena) (n : Nat) : Nat → Prop
  | child {kind : NodeKind} {c : Nat} (hkind : a.kind? (some n) = some kind)
    (hcalm : kind.isCalm = true) (hc : some c ∈ a.children (some n)) : Holds a n c
  | part {kind : NodeKind} {m c : Nat} (h : Holds a n m) (hkind : a.kind? (some m) = some kind)
    (hcalm : kind.isCalm = true) (hc : some c ∈ a.children (some m)) : Holds a n c

/-- A part of a node that declares nothing is ready when it is reached. -/
theorem Reached.ready_of_calm (hshape : a.Shaped root) (hn : n ∈ a.listing root)
    (hkind : a.kind? (some n) = some kind) (hcalm : kind.isCalm = true)
    (hc : some m ∈ a.children (some n)) (h : Reached a root b m) : Ready a root b m := by
  simp only [NodeKind.isCalm, Bool.and_eq_true, bne_iff_ne] at hcalm
  obtain ⟨⟨hquiet, hvar⟩, hdeclaration⟩ := hcalm
  have hcode := NodeKind.isCode_of_hasQuietChildren hquiet
  have hannotated : kind ≠ .annotated := by
    rintro rfl
    cases hquiet
  exact .of_parent h (hshape.parent_child hn hc) hkind hannotated hdeclaration
    (hshape.isWalked_child hn hkind hcode hvar hannotated hc)
    ((hshape.isInert_child hn hkind hquiet hc).covered b b.current)

/-- What a node holds is ready if its children are reached. -/
theorem Arena.Holds.ready (hshape : a.Shaped root) (hn : n ∈ a.listing root)
    (hchildren : ∀ c, some c ∈ a.children (some n) → Reached a root b c) (hm : a.Holds n m) :
    Ready a root b m := by
  induction hm with
  | child hkind hcalm hc => exact (hchildren _ hc).ready_of_calm hshape hn hkind hcalm hc
  | @part kind _ _ _ hkind hcalm hc ih =>
    have hdocument : kind ≠ .jsDocDocument := by
      rintro rfl
      cases hcalm
    exact (ih.toReached.child hkind hdocument hc).ready_of_calm hshape ih.listed hkind hcalm hc

end Ready

end DocTypes
