import DocTypes.Proofs.Nodes.Types
import DocTypes.Proofs.Nodes.Visits

/-!
# Which nodes get types

The third pass gives types to names (`NodeKind.isSite`), to parts of type expressions, to
methods, to literals, and to the functions and classes that it visits or that the comment it
visits governs. A node of another sort is given a type by the visit of the node itself or of the
comment that governs it, and by no other visit. The node that is absent is given one only as the
name of a function declaration.

## Main statements

* `Arena.Shaped.isSite_of_mem_declarationSites`, `Arena.Shaped.isSite_of_mem_propertyKeys`: what is
  typed beside a declaration are names.
* `Typing.visit_bypasses`: the rule of one node.
* `Typing.propagate_bypasses`: references that are typed in the end.
-/

namespace DocTypes

/-- The kinds of names, and of what stands in the place of one. -/
def NodeKind.isSite : NodeKind → Bool
  | .bindingName | .identifier | .memberExpression | .computedMemberExpression | .propertyName
  | .computedPropertyName | .stringLiteral | .numericLiteral | .jsDocName => true
  | _ => false

namespace Arena

variable {a : Arena} {root q : NodeRef}

theorem isOf_of_kind? {family : NodeKind → Bool} {r : NodeRef} {kind : NodeKind}
    (h : a.kind? r = some kind) (hfamily : family kind = true) : a.isOf family r = true := by
  rw [isOf, h, Option.any_some, hfamily]

theorem kind?_constructorMethod {cls : NodeRef} {m : Nat}
    (h : (a.constructorMethod cls).1 = some m) :
    a.kind? (some m) = some .method := by
  unfold constructorMethod at h
  generalize hfound : List.find? (fun m => a.isConstructor m.1)
    ((a.children (a.child cls 2)).map a.uncommented) = found at h
  cases found with
  | none => cases h
  | some pair =>
    have hpair : a.isConstructor pair.1 = true :=
      List.find?_some (p := fun m : NodeRef × NodeRef => a.isConstructor m.1) hfound
    rw [show pair.1 = some m from h, isConstructor, Bool.and_eq_true, Bool.and_eq_true] at hpair
    exact isKind_iff.1 hpair.1.1

namespace Shaped

variable (h : a.Shaped root)
include h

/-- A child at a place for some kinds is of a family that they are in. -/
theorem isOf_child {n c i : Nat} (hn : n ∈ a.listing root) {kind : NodeKind}
    (hkind : a.kind? (some n) = some kind) {kinds : List NodeKind}
    (hplace : kind.place i = .only kinds)
    {family : NodeKind → Bool} (hfamily : ∀ only ∈ kinds, family only = true)
    (hc : a.child (some n) i = some c) : a.isOf family (some c) = true := by
  have hadmits := h.admits_child hn hkind hc
  rw [hplace] at hadmits
  obtain ⟨only, honly, hmem⟩ : ∃ k, a.kind? (some c) = some k ∧ kinds.contains k = true :=
    kind?_of_isOf hadmits
  exact isOf_of_kind? honly (hfamily only (List.contains_iff_mem.1 hmem))

/-- What carries the names of a declaration are names in the program. -/
theorem isSite_of_mem_declarationSites {t site : Nat} (ht : t ∈ a.code root)
    (hsite : site ∈ a.declarationSites (some t)) :
    site ∈ a.code root ∧ a.isOf NodeKind.isSite (some site) = true := by
  have hfirst {n c : Nat} (hn : n ∈ a.code root) {kind : NodeKind}
      (hkind : a.kind? (some n) = some kind) (hne : kind ≠ .jsDocDocument) {kinds : List NodeKind}
      (hplace : kind.place 0 = .only kinds) (hkinds : ∀ only ∈ kinds, only.isSite = true)
      (hc : a.child (some n) 0 = some c) :
      c ∈ a.code root ∧ a.isOf NodeKind.isSite (some c) = true :=
    ⟨mem_code_of_child hn hkind hne hc,
      h.isOf_child (mem_listing_of_mem_code hn) hkind hplace hkinds hc⟩
  induction t using Nat.strongRecOn with
  | ind t ih =>
    rw [declarationSites] at hsite
    split at hsite
    · next hkind =>
      cases hc : a.child (some t) 0 with
      | none => simp [hc, declarationSites] at hsite
      | some c =>
        rw [hc] at hsite
        have hlt := lt_of_mem_children (mem_children_of_child_eq_some hc)
        exact ih c hlt (mem_code_of_child ht hkind (by decide) hc) hsite
    · next hkind =>
      rw [Option.mem_toList, Option.filter_eq_some_iff] at hsite
      obtain ⟨hc, hassignable⟩ := hsite
      refine ⟨mem_code_of_child ht hkind (by decide) hc, ?_⟩
      unfold isAssignable at hassignable
      rw [Bool.or_eq_true, Bool.or_eq_true, isKind_iff, isKind_iff, isKind_iff] at hassignable
      rcases hassignable with (hkind | hkind) | hkind <;> exact isOf_of_kind? hkind rfl
    · next hkind =>
      rw [List.mem_singleton.1 hsite]
      exact ⟨ht, isOf_of_kind? hkind rfl⟩
    · next hkind =>
      obtain ⟨d, hd, hfound⟩ := List.mem_filterMap.1 hsite
      obtain ⟨hc, hname⟩ := Option.filter_eq_some_iff.1 hfound
      obtain ⟨n, -, rfl, -⟩ := kind?_of_child hc
      obtain ⟨i, -, hi⟩ := exists_child_of_mem_children hd
      have hn : n ∈ a.code root := mem_code_of_child ht hkind (by decide) hi
      have hdeclaration := h.kind?_child (mem_listing_of_mem_code ht) hkind rfl hi
      exact ⟨mem_code_of_child hn hdeclaration (by decide) hc,
        isOf_of_kind? (isKind_iff.1 hname) rfl⟩
    · next hkind => exact hfirst ht hkind (by decide) rfl (by decide) (Option.mem_toList.1 hsite)
    · next hkind => exact hfirst ht hkind (by decide) rfl (by decide) (Option.mem_toList.1 hsite)
    · next hkind => exact hfirst ht hkind (by decide) rfl (by decide) (Option.mem_toList.1 hsite)
    · next hkind => exact hfirst ht hkind (by decide) rfl (by decide) (Option.mem_toList.1 hsite)
    · cases hsite

omit h in
/-- What stands under the comment on a member of the program is in the program. -/
theorem mem_code_uncommented {d m : Nat} (hd : d ∈ a.code root)
    (hm : (a.uncommented (some d)).1 = some m) : m ∈ a.code root := by
  unfold uncommented at hm
  split at hm
  · next hkind => exact mem_code_of_child hd (isKind_iff.1 hkind) (by decide) hm
  · exact Option.some.inj hm ▸ hd

/-- The keys of the object literal that initializes a declaration are names. -/
theorem isSite_of_mem_propertyKeys (hc : a.Complete root) {site : Nat} (hsite : site ∈ a.code root)
    (hname : a.isOf NodeKind.isSite (some site) = true) {key : NodeRef}
    (hkey : key ∈ a.propertyKeys (a.objectInitializer (some site))) :
    ∃ k ∈ a.code root, key = some k ∧ a.isOf NodeKind.isSite (some k) = true := by
  obtain ⟨kind, hkind, hfamily⟩ := kind?_of_isOf hname
  obtain ⟨p, hp, -, hparent, hdocument⟩ :=
    h.exists_parent_code hsite hkind (by revert hfamily; cases kind <;> decide)
  unfold propertyKeys at hkey
  obtain ⟨property, hproperty, rfl⟩ := List.mem_map.1 hkey
  obtain ⟨hmember, hpropertyKind⟩ := List.mem_filter.1 hproperty
  obtain ⟨member, hlisted, rfl⟩ := List.mem_map.1 hmember
  obtain ⟨m, hm⟩ := exists_of_kind? (isKind_iff.1 hpropertyKind)
  rw [hm, isKind_iff] at hpropertyKind
  -- the property is a child of the literal, or stands under a comment that is one
  have hmem : m ∈ a.code root := by
    have hobject : ∃ object ∈ a.code root, a.kind? (some object) = some .objectLiteral ∧
        member ∈ a.children (some object) := by
      unfold objectInitializer at hlisted
      rw [hparent] at hlisted
      dsimp only at hlisted
      split at hlisted
      · cases hinit : (a.child (some p) 1).filter fun init =>
          a.isKind (some init) .objectLiteral with
        | none => simp [hinit, children, node?] at hlisted
        | some object =>
          rw [hinit] at hlisted
          obtain ⟨hchild, hliteral⟩ := Option.filter_eq_some_iff.1 hinit
          exact ⟨object, mem_code_child hp hdocument (mem_children_of_child_eq_some hchild),
            isKind_iff.1 hliteral, hlisted⟩
      · simp [children, node?] at hlisted
    obtain ⟨object, hobject, hliteral, hchild⟩ := hobject
    cases member with
    | none => simp [uncommented, isKind, kind?, node?] at hm
    | some d =>
      obtain ⟨i, -, hi⟩ := exists_child_of_mem_children hchild
      exact mem_code_uncommented (mem_code_of_child hobject hliteral (by decide) hi) hm
  obtain ⟨k, hk⟩ := hc.child (mem_listing_of_mem_code hmem) hpropertyKind rfl (i := 0) rfl
  rw [hm, hk]
  exact ⟨k, mem_code_of_child hmem hpropertyKind (by decide) hk, rfl,
    h.isOf_child (mem_listing_of_mem_code hmem) hpropertyKind rfl (by decide) hk⟩

/-- The method that constructs the instances of a class of the program is in the program. -/
theorem mem_code_constructorMethod {cls m : Nat} (hcls : cls ∈ a.code root)
    (hclass : a.isOf NodeKind.isClassLike (some cls) = true)
    (hm : (a.constructorMethod (some cls)).1 = some m) : m ∈ a.code root := by
  obtain ⟨kind, hkind, hfamily⟩ := kind?_of_isOf hclass
  unfold constructorMethod at hm
  cases hfound : List.find? (fun m => a.isConstructor m.1)
      ((a.children (a.child (some cls) 2)).map a.uncommented) with
  | none =>
    rw [hfound] at hm
    cases hm
  | some pair =>
    rw [hfound] at hm
    obtain ⟨member, hmember, rfl⟩ := List.mem_map.1 (List.mem_of_find?_eq_some hfound)
    cases hbody : a.child (some cls) 2 with
    | none => simp [hbody, children, node?] at hmember
    | some body =>
      rw [hbody] at hmember
      have hplace : a.kind? (some body) = some .classBody := by
        cases kind <;> first
          | exact h.kind?_child (mem_listing_of_mem_code hcls) hkind rfl hbody
          | cases hfamily
      have hbodyCode : body ∈ a.code root :=
        mem_code_of_child hcls hkind (by rintro rfl; cases hfamily) hbody
      cases member with
      | none => simp [uncommented, isKind, kind?, node?] at hm
      | some d =>
        obtain ⟨i, -, hi⟩ := exists_child_of_mem_children hmember
        exact mem_code_uncommented (mem_code_of_child hbodyCode hplace (by decide) hi) hm

/-- What the comment on a node of the program governs is in the program. -/
theorem mem_code_of_governingTarget {n t : Nat} (ht : t ∈ a.code root) (hn : n ∈ a.listing root)
    {kind : NodeKind} (hkind : a.kind? (some n) = some kind)
    (hunit : kind.isCompilationUnit = false)
    (hgoverns : a.governingTarget n = some t) : n ∈ a.code root := by
  revert hn kind
  refine governingTarget_induction (motive := fun n => n ∈ a.listing root → ∀ {kind : NodeKind},
    a.kind? (some n) = some kind → kind.isCompilationUnit = false → n ∈ a.code root)
    (fun _ _ _ _ _ _ _ _ => ht) ?_ hgoverns
  intro n p hp hpasses _ ih hn kind hkind hunit
  obtain ⟨q, hq, hchild, hparent⟩ := h.exists_parent hn hkind hunit
  cases hp.symm.trans hparent
  obtain ⟨pkind, hpkind, hne⟩ : ∃ pkind, a.kind? (some p) = some pkind ∧
      pkind.isCompilationUnit = false ∧ pkind ≠ .jsDocDocument := by
    rcases passesOn_cases hpasses with ⟨hpkind | hpkind | hpkind, -⟩ | hpkind | hpkind <;>
      exact ⟨_, hpkind, rfl, by decide⟩
  obtain ⟨i, -, hi⟩ := exists_child_of_mem_children hchild
  exact mem_code_of_child (ih hq hpkind hne.1) hpkind hne.2 hi

end Shaped

/-! ## Nodes apart -/

/-- A node that is no name, no method and no part of a type expression. The absent node is one if
every function declaration has a name. -/
structure Apart (a : Arena) (root q : NodeRef) : Prop where
  typeNode : ∀ n, TypeExpr.IsTypeNode a n → q ≠ some n
  site : a.isOf NodeKind.isSite q = false
  method : a.isKind q .method = false
  named : q = none → ∀ n ∈ a.code root, a.kind? (some n) = some .functionDeclaration →
    (a.child (some n) 0).isSome

/-- The nodes of a sort have the names and the methods of the program among them, and the absent
node unless every function declaration has a name. -/
structure Typable (a : Arena) (root : NodeRef) (P : NodeRef → Prop) : Prop where
  site : ∀ n ∈ a.code root, a.isOf NodeKind.isSite (some n) = true → P (some n)
  method : ∀ n ∈ a.code root, a.kind? (some n) = some .method → P (some n)
  named : ¬P none → ∀ n ∈ a.code root, a.kind? (some n) = some .functionDeclaration →
    (a.child (some n) 0).isSome

/-- A node that a comment does not govern. -/
def Elsewhere (a : Arena) (q : NodeRef) (t : Nat) : Prop :=
  ∀ n, q = some n → a.governingTarget n ≠ some t

theorem Apart.ne_of_isSite (hq : a.Apart root q) {r : NodeRef}
    (hr : a.isOf NodeKind.isSite r = true) :
    r ≠ q := by
  rintro rfl
  exact absurd (hr.symm.trans hq.site) (by decide)

theorem Apart.not_isLabel (hq : a.Apart root q) : ¬a.IsLabel q := by
  rintro (hkind | hkind) <;> exact absurd ((isOf_of_kind? hkind rfl).symm.trans hq.site) (by decide)

theorem Apart.typable (hq : a.Apart root q) : a.Typable root (· ≠ q) where
  site _ _ hsite := hq.ne_of_isSite hsite
  method m _ hkind := by
    rintro rfl
    exact absurd ((isKind_iff.2 hkind).symm.trans hq.method) (by decide)
  named hnone := hq.named (not_not.1 hnone).symm

/-- Only one comment governs a node. -/
theorem Shaped.elsewhere_of_ne (h : a.Shaped root) {n t m k t' : Nat}
    (hgoverns : a.governingTarget n = some t) (hparent : a.parent (some t) = some m)
    (hk : k ∈ a.code root) (hne : k ≠ m) (hchild : a.child (some k) 1 = some t') :
    a.Elsewhere (some n) t' := by
  rintro _ ⟨⟩ heq
  cases hgoverns.symm.trans heq
  have hparent' := h.parent_child (mem_listing_of_mem_code hk)
    (mem_children_of_child_eq_some hchild)
  cases hparent.symm.trans hparent'
  exact hne rfl

theorem Elsewhere.ne {t n : Nat} (hq : a.Elsewhere q t) (hgoverns : a.governingTarget n = some t) :
    some n ≠ q := fun heq => hq n heq.symm hgoverns

theorem apart_of_kind? {n : Nat} {kind : NodeKind} (hkind : a.kind? (some n) = some kind)
    (hsite : kind.isSite = false) (hmethod : kind ≠ .method)
    (htype : kind.isTypeExpression = false) :
    a.Apart root (some n) where
  typeNode m hm heq := by
    cases heq
    rw [TypeExpr.IsTypeNode, hkind, Option.any_some, htype] at hm
    cases hm
  site := by rw [isOf, hkind, Option.any_some, hsite]
  method := isKind_eq_false hkind hmethod
  named := nofun

theorem elsewhere_of_ungoverned {n : Nat} (h : a.governingTarget n = none) (t : Nat) :
    a.Elsewhere (some n) t := by
  rintro m ⟨⟩ heq
  cases h.symm.trans heq

end Arena

/-! ## Rules -/

/-- A relation of states along which values stay where they are, and nodes of a sort get types. -/
structure Analysis.Marking (a : Arena) (root : NodeRef) (P : NodeRef → Prop)
    (R : Analysis → Analysis → Prop) : Prop where
  same {x y : Analysis} (h : R x y) : x.SameSites y
  sets {r : NodeRef} (h : P r) (t : TypeId) : Moves R (setType r t)
  setsIfNew {r : NodeRef} (h : P r) (t : TypeId) : Moves R (setTypeIfNew r t)
  declares (v : ValueId) (t : TypeId) : Moves R (declareType v t)
  aliases (name : Atom) {tag : NodeRef} (h : ∀ n, tag = some n → a.InComment root n) :
    Moves R (onTypes (·.aliasOf name tag))

namespace Typing

open Analysis Arena

variable {a : Arena} {root : NodeRef} {P : NodeRef → Prop} {R : Analysis → Analysis → Prop}

theorem typeTable_registerIfNew (site : NodeRef) (t : TypeId) (x : Analysis) :
    (registerIfNew site t x).2.typeTable = x.typeTable.insertIfNew site t := by
  unfold registerIfNew
  rw [run_bind, run_bind, run_get]
  dsimp only
  cases slotAt? (setTypeIfNew site t x).2 site with
  | none => rfl
  | some v =>
    dsimp only
    split <;> rfl

/-- A function has a type once it is visited, and so has the name of a declaration or method that
had no type before. -/
theorem function_types (a : Arena) (node : NodeRef) (x : Analysis) :
    ((function a node x).2.typeOf? node).isSome ∧
      (x.typeOf? node = none → (a.isKind node .functionDeclaration ||
        a.isKind node .method) = true →
        ((function a node x).2.typeOf? (a.child node 0)).isSome) := by
  unfold function
  rw [run_bind, run_get]
  split
  · next htyped => exact ⟨htyped, fun hnone => by simp [hnone] at htyped⟩
  · rw [run_bind, run_bind, run_bind]
    generalize (Signature.plainFunctionType a _ _).1 = t
    generalize (Signature.plainFunctionType a _ _).2 = y
    have hset : (setType node t y).2.typeTable.get? node = some t := by
      show (y.typeTable.insert node t).get? node = some t
      rw [NodeTable.get?_insert, if_pos rfl]
    split
    · unfold Analysis.typeOf?
      rw [typeTable_registerIfNew, NodeTable.get?_insertIfNew,
        NodeTable.get?_insertIfNew, if_pos rfl]
      refine ⟨?_, fun _ _ => rfl⟩
      split
      · rfl
      · rw [hset]
        rfl
    · next hplain => exact ⟨Option.isSome_of_eq_some hset, fun _ hkind => (hplain hkind).elim⟩

/-- What a comment stands on gets its types, before the type expressions that are left do. -/
def described (a : Arena) (node : NodeRef) : Analyze Unit := do
  let document := a.child node 0
  let target := a.child node 1
  let doc := DocComment.silent a document target
  let function := a.definedFunction target
  if function.isNone || ((← get).typeOf? function).isNone then
    let sites := a.declarationSites target
    match a.definedClass target with
    | some cls =>
      let t ← classBody a (some cls) (some doc)
      sites.forM fun site => register (some site) t
    | none => declaration a doc function sites

/-- Whichever way a commented declaration is left, the operands of its comment come last. -/
theorem annotated_eq (a : Arena) (node : NodeRef) : annotated a node = (do
    described a node
    remainingOperands a (a.child node 0)) := by
  funext x
  unfold annotated described
  rw [run_bind, run_bind, run_bind, run_get]
  dsimp only
  split
  · cases a.definedClass (a.child node 1) <;> rfl
  · rfl

section Marks

variable [Working a R] (hR : Marking a root P R)
include hR

theorem register_marks {site : NodeRef} (hsite : P site) (t : TypeId) :
    Moves R (register site t) := by
  refine .bind (hR.sets hsite t) fun _ => .bind .get fun x => ?_
  split
  · exact hR.declares _ _
  · exact .pure _

theorem registerIfNew_marks {site : NodeRef} (hsite : P site) (t : TypeId) :
    Moves R (registerIfNew site t) := by
  refine .bind (hR.setsIfNew hsite t) fun _ => .bind .get fun x => ?_
  split
  · exact .ite (fun _ => hR.declares _ _) fun _ => .pure _
  · exact .pure _

/-! ### Functions and classes -/

theorem function_marks {node : NodeRef} (hnode : P node)
    (hname : (a.isKind node .functionDeclaration || a.isKind node .method) = true →
      P (a.child node 0)) : Moves R (function a node) := by
  refine .bind .get fun x => .ite (fun _ => .pure _) fun _ => ?_
  refine .bind (receiverType?_moves a node) fun _ => .bind (Signature.functionType_moves _ _ _) fun
    t => ?_
  refine .bind (hR.sets hnode t) fun _ => ?_
  exact .ite (fun hkind => registerIfNew_marks hR (hname hkind) t) fun _ => .pure _

theorem classType_marks {node : NodeRef}
    (hmethod : (a.constructorMethod node).1.isSome → P (a.constructorMethod node).1) (cls : ValueId)
    (doc : Option DocComment) : Moves R (classType a node cls doc) := by
  refine .ite (fun _ => TypeExpr.instanceOf_moves _) fun _ => ?_
  generalize a.constructorMethod node = method at hmethod
  obtain ⟨function, document⟩ := method
  refine .bind (Signature.functionType_moves _ _ _) fun t => ?_
  exact .ite (fun hfunction => .bind (hR.sets (hmethod hfunction) t) fun _ => .pure _)
    fun _ => .pure _

theorem classBody_marks (h : a.Shaped root) (hP : a.Typable root P) {n : Nat} (hn : n ∈ a.code root)
    (hclass : a.isOf NodeKind.isClassLike (some n) = true) (hnode : P (some n))
    (doc : Option DocComment) : Moves R (classBody a (some n) doc) := by
  have hname (hsome : (a.child (some n) 0).isSome) : P (a.child (some n) 0) := by
    obtain ⟨c, hc⟩ := Option.isSome_iff_exists.1 hsome
    obtain ⟨kind, hkind, hfamily⟩ := kind?_of_isOf hclass
    rw [hc]
    refine hP.site c (mem_code_of_child hn hkind (by rintro rfl; cases hfamily) hc) ?_
    cases kind <;> first
      | exact h.isOf_child (mem_listing_of_mem_code hn) hkind rfl (by decide) hc
      | cases hfamily
  have hmethod (hsome : (a.constructorMethod (some n)).1.isSome) :
      P (a.constructorMethod (some n)).1 := by
    obtain ⟨m, hm⟩ := Option.isSome_iff_exists.1 hsome
    rw [hm]
    exact hP.method m (h.mem_code_constructorMethod hn hclass hm) (kind?_constructorMethod hm)
  refine .bind .get fun x => ?_
  split
  · exact .pure _
  · exact .pure _
  · refine .bind (classType_marks hR hmethod _ doc) fun t => .bind (hR.sets hnode t) fun _ => ?_
    dsimp only
    split
    · next hsome => exact .bind (register_marks hR (hname hsome) t) fun _ => .pure _
    · exact .pure _

/-! ### Commented declarations -/

theorem registerAll_marks {sites : List Nat} (hsites : ∀ site ∈ sites, P (some site)) (t : TypeId) :
    Moves R (sites.forM fun site => register (some site) t) :=
  .forM fun site hsite => register_marks hR (hsites site hsite) t

theorem enumMembers_marks {site : NodeRef}
    (hkeys : ∀ key ∈ a.propertyKeys (a.objectInitializer site), P key) (t : TypeId) :
    Moves R (enumMembers a site t) :=
  .bind .get fun _ => .forM fun key hkey => register_marks hR (hkeys key hkey) _

theorem declaredType_marks {doc : DocComment} (hdoc : doc.Belongs a root) (d : Declaration) :
    Moves R (Signature.declaredType a doc d) :=
  Signature.declaredType_works doc d fun slot name => hR.aliases name (hdoc slot)

theorem aliasSites_marks {doc : DocComment} (hdoc : doc.Belongs a root) (d : Declaration)
    {sites : List Nat} (hsites : ∀ site ∈ sites, P (some site) ∧
      ∀ key ∈ a.propertyKeys (a.objectInitializer (some site)), P key) :
    Moves R (aliasSites a doc d sites) := by
  induction sites with
  | nil => exact .pure _
  | cons site rest ih =>
    obtain ⟨hsite, hkeys⟩ := hsites site List.mem_cons_self
    have hrest := ih fun other hother => hsites other (List.mem_cons_of_mem _ hother)
    refine .bind (declaredType_marks hR hdoc _) fun t => .bind (hR.sets hsite t) fun _ => ?_
    dsimp only
    split
    · exact .bind (enumMembers_marks hR hkeys t) fun _ => hrest
    · exact hrest

/-- A declaration types its function, the node of its class and its sites, or what is cast. -/
theorem plainSites_marks {x : Analysis} {doc : DocComment} (hdoc : doc.Belongs a root)
    {d : Declaration} {sites : List Nat} (hfunction : d.function.isSome → P d.function)
    (hcls : ∀ cls, d.cls = some cls → ∃ node kind,
      x.store.values.classSite? cls = some (node, kind) ∧ P node)
    (hsites : ∀ site ∈ sites, P (some site)) (hcast : P (a.castExpression doc.target)) :
    MovesFrom R x (plainSites a doc d sites) := by
  have hlast (t : TypeId) : Moves R (do
      sites.forM fun site => register (some site) t
      if sites.isEmpty && doc.kind = .type then
        Analysis.setType (a.castExpression doc.target) t : Analyze Unit) :=
    .bind (registerAll_marks hR hsites t) fun _ => .ite (fun _ => hR.sets hcast t) fun _ => .pure _
  have hruns : Runs R x (plainSites a doc d sites) fun _ _ => True := by
    refine (Moves.runs (declaredType_marks hR hdoc _) x).bind fun t y hy _ => ?_
    refine .ite (fun hsome => (Moves.runs (hR.sets (hfunction hsome) t) y).bind
      fun _ z hz _ => ?_) fun _ => have hz : R y y := Std.Refl.refl y; ?_
    all_goals
      have hsame := hR.same (IsTrans.trans _ _ _ hy hz)
      refine .get_bind ?_
      dsimp only
      split
      · next cls hd =>
        obtain ⟨node, kind, hsite, hnode⟩ := hcls cls hd
        obtain ⟨-, -, -, heq⟩ :=
          ValueStore.classSite?_eq_some_iff.1 ((hsame.sites.classes cls).trans hsite)
        exact Moves.runs (.bind (hR.sets (heq ▸ hnode) t) fun _ => hlast t) _
      · exact Moves.runs (hlast t) _
  exact hruns.1

section Visits

variable (h : a.Shaped root) (hc : a.Complete root) {x : Analysis}

omit [Working a R] hR in
include h in
/-- The node of the class that a target declares is governed by the comment on the target. -/
theorem classSite_of_declaredClass? (hx : x.Placed a root) {t : Nat} (ht : t ∈ a.listing root)
    (hself : a.governingTarget t = some t) {cls : ValueId} (hcls : x.declaredClass? a (some t) =
    some cls) :
    ∃ n kind, x.store.values.classSite? cls = some (some n, kind) ∧ a.governingTarget n = some t ∧
      n ∈ a.code root := by
  obtain ⟨n, hn, hgoverns⟩ := h.governingTarget_of_declaredClass? hx.absent ht hcls
  obtain ⟨data, hdata, hnode, hmakes⟩ := hx.node_of_classAt? hn
  refine ⟨n, data.kind, ?_, hgoverns.trans hself, hmakes.1⟩
  exact ValueStore.classSite?_eq_some_iff.2 ⟨data, hdata, rfl, hnode⟩

include h hc in
theorem declaration_marks (hx : x.Placed a root) (hP : a.Typable root P) {t : Nat}
    (ht : t ∈ a.code root) (hself : a.governingTarget t = some t)
    (hgoverned : ∀ n ∈ a.code root, a.governingTarget n = some t → P (some n))
    {doc : DocComment} (htarget : doc.target = some t) (hdoc : doc.Belongs a root)
    {function : NodeRef} (hfunction : function.isSome → P function) :
    MovesFrom R x (declaration a doc function (a.declarationSites (some t))) := by
  have hlisting := mem_listing_of_mem_code ht
  have hsites {site : Nat} (hsite : site ∈ a.declarationSites (some t)) : P (some site) :=
    have hname := h.isSite_of_mem_declarationSites ht hsite
    hP.site site hname.1 hname.2
  have hcast : P (a.castExpression doc.target) := by
    rw [htarget]
    unfold castExpression
    split
    · next hkind =>
      rw [isKind_iff] at hkind
      obtain ⟨c, hchild⟩ := hc.child hlisting hkind rfl (i := 0) rfl
      rw [hchild]
      refine hgoverned c (mem_code_of_child ht hkind (by decide) hchild) ?_
      rw [h.governingTarget_child hlisting hchild (by simp [passesOn, hkind]), hself]
    · exact hgoverned t ht hself
  have hcls : ∀ cls, x.declaredClass? a doc.target = some cls → ∃ node kind,
      x.store.values.classSite? cls = some (node, kind) ∧ P node := by
    intro cls hcls
    rw [htarget] at hcls
    obtain ⟨n, kind, hsite, hgoverns, hn⟩ := classSite_of_declaredClass? h hx hlisting hself hcls
    exact ⟨some n, kind, hsite, hgoverned n hn hgoverns⟩
  have halias (d : Declaration) : Moves R (aliasSites a doc d (a.declarationSites (some t))) := by
    refine aliasSites_marks hR hdoc d fun site hsite => ⟨hsites hsite, fun key hkey => ?_⟩
    have hname := h.isSite_of_mem_declarationSites ht hsite
    obtain ⟨k, hk, rfl, hkname⟩ := h.isSite_of_mem_propertyKeys hc hname.1 hname.2 hkey
    exact hP.site k hk hkname
  have hruns : Runs R x (declaration a doc function (a.declarationSites (some t)))
      fun _ _ => True := by
    refine .get_bind (.ite (fun _ => (Moves.runs (receiverType?_moves a function) x).bind
      fun receiver y hy _ => ?_) fun _ => (Moves.runs
        (.pure none) x).bind fun receiver y hy _ => ?_)
    all_goals
      split
      · exact Moves.runs (halias _) y
      · exact Moves.runs (halias _) y
      · refine ⟨plainSites_marks hR hdoc hfunction (fun cls hd => ?_)
          (fun _ => hsites) hcast, trivial⟩
        obtain ⟨node, kind, hsite, hnode⟩ := hcls cls hd
        exact ⟨node, kind, ((hR.same hy).sites.classes cls).trans hsite, hnode⟩
  exact hruns.1

include h hc in
/-- What a comment stands on is typed, names and methods with it. -/
theorem described_marks (hx : x.Placed a root) (hP : a.Typable root P) {m : Nat}
    (hm : m ∈ a.code root) (hkind : a.kind? (some m) = some .annotated)
    (hgoverned : ∀ t, a.child (some m) 1 = some t → ∀ n ∈ a.code root,
      a.governingTarget n = some t → P (some n)) :
    MovesFrom R x (described a (some m)) := by
  have hlisting := mem_listing_of_mem_code hm
  obtain ⟨t, hchild⟩ := hc.child hlisting hkind rfl (i := 1) rfl
  have ht : t ∈ a.code root := mem_code_of_child hm hkind (by decide) hchild
  have hparent := h.parent_child hlisting (mem_children_of_child_eq_some hchild)
  have hself := governingTarget_self hparent hkind hchild
  have hgoverned := hgoverned t hchild
  have hdoc := DocComment.belongs_silent hm hkind (some t)
  have hsites : ∀ site ∈ a.declarationSites (some t), P (some site) := fun site hsite =>
    have hname := h.isSite_of_mem_declarationSites ht hsite
    hP.site site hname.1 hname.2
  have hdefined {accept : NodeKind → Bool} {n : Nat} (hn : a.defined accept (some t) = some n)
      (hunit : ∀ kind : NodeKind, accept kind = true → kind.isCompilationUnit = false) :
      n ∈ a.code root ∧ P (some n) := by
    obtain ⟨hgoverns, hlisted, kind, hnkind, haccept⟩ :=
      h.governingTarget_of_defined (mem_listing_of_mem_code ht) hn
    have hgoverns := hgoverns.trans hself
    have hcode := h.mem_code_of_governingTarget ht hlisted hnkind (hunit kind haccept) hgoverns
    exact ⟨hcode, hgoverned n hcode hgoverns⟩
  unfold described
  rw [hchild]
  refine .bind_from (m := get) (Std.Refl.refl x) ?_
  dsimp only
  split
  · split
    · next cls hcls =>
      obtain ⟨n, rfl⟩ : ∃ n, cls = n := ⟨cls, rfl⟩
      obtain ⟨-, -, kind, hclsKind, hfamily⟩ :=
        h.governingTarget_of_defined (mem_listing_of_mem_code ht) hcls
      obtain ⟨hn, hnode⟩ := hdefined hcls (by intro kind; cases kind <;> decide)
      have hbody := classBody_marks hR h hP hn (isOf_of_kind? hclsKind hfamily) hnode
        (some (DocComment.silent a (a.child (some m) 0) (some t)))
      exact Moves.movesFrom (.bind hbody fun t => registerAll_marks hR hsites t) x
    · have hfunction (hsome : (a.definedFunction (some t)).isSome) :
        P (a.definedFunction (some t)) := by
        obtain ⟨n, hn⟩ := Option.isSome_iff_exists.1 hsome
        rw [hn]
        exact (hdefined hn (by intro kind; cases kind <;> decide)).2
      exact declaration_marks hR h hc hx hP ht hself hgoverned (DocComment.target_silent _ _)
        hdoc hfunction
  · exact (Moves.pure _).movesFrom x

include h hc in
/-- The rule of a node types the node, names, methods and what its comment governs. -/
theorem visit_marks (hx : x.Placed a root) (hP : a.Typable root P) {m : Nat} (hm : m ∈ a.code root)
    (hself : P (some m)) (hgoverned : a.kind? (some m) = some .annotated →
      ∀ t, a.child (some m) 1 = some t → ∀ n ∈ a.code root, a.governingTarget n = some t →
        P (some n)) :
    MovesFrom R x (visit a m) := by
  have hlisting := mem_listing_of_mem_code hm
  have hfunction : Moves R (function a (some m)) := by
    refine function_marks hR hself fun hnamed => ?_
    rw [Bool.or_eq_true, isKind_iff, isKind_iff] at hnamed
    cases hc' : a.child (some m) 0 with
    | some c =>
      rcases hnamed with hkind | hkind
      all_goals
        exact hP.site c (mem_code_of_child hm hkind (by decide) hc')
          (h.isOf_child hlisting hkind rfl (by decide) hc')
    | none =>
      by_contra hnone
      rcases hnamed with hkind | hkind
      · exact absurd (hP.named hnone m hm hkind) (by simp [hc'])
      · exact absurd (hc.isSome_child hlisting hkind rfl (i := 0) rfl) (by simp [hc'])
  have hset (t : TypeId) : Moves R (setTypeIfNew (some m) t) := hR.setsIfNew hself t
  have hclass {kind : NodeKind} (hkind : a.kind? (some m) = some kind)
    (hfamily : kind.isClassLike = true) :=
    classBody_marks hR h hP hm (isOf_of_kind? hkind hfamily) hself none
  unfold visit
  split
  · exact (Moves.pure _).movesFrom x
  · next hkind =>
    rw [annotated_eq]
    exact .bind (described_marks hR h hc hx hP hm hkind (hgoverned hkind)) fun _ =>
      remainingOperands_moves _
  · next hkind => exact Moves.movesFrom (.bind (hclass hkind rfl) fun _ => .pure _) x
  · next hkind => exact Moves.movesFrom (.bind (hclass hkind rfl) fun _ => .pure _) x
  · exact Moves.movesFrom (.bind .get fun y => .ite (fun _ => hset _) fun _ => .pure _) x
  · refine Moves.movesFrom (.ite (fun _ => hfunction) fun _ => ?_) x
    split
    · exact hset _
    · exact .pure _

end Visits

end Marks

/-! ### Nodes that are passed over -/

variable {q : NodeRef}

instance : Anchored (Bypasses a q) := ⟨fun _ => Std.Refl.refl _⟩

/-- All nodes but one get types. -/
theorem bypasses_marking (a : Arena) (root q : NodeRef) :
    Marking a root (· ≠ q) (Bypasses a q) where
  same h := h.toSameSites
  sets hr t := setType_bypasses (fun _ => hr) t
  setsIfNew hr t _ := setTypeIfNew_bypasses t (.inl hr)
  declares := declareType_bypasses
  aliases _ _ _ := onTypes_bypasses _

/-- The rule of a node types no other node, apart from names, methods and what its
comment governs. -/
theorem visit_bypasses (h : a.Shaped root) (hc : a.Complete root) {x : Analysis}
    (hx : x.Placed a root)
    (hq : a.Apart root q) {m : Nat} (hm : m ∈ a.code root)
    (hne : some m ≠ q) (helsewhere : a.kind? (some m) = some .annotated →
      ∀ t, a.child (some m) 1 = some t → a.Elsewhere q t) :
    MovesFrom (Bypasses a q) x (visit a m) :=
  visit_marks (bypasses_marking a root q) h hc hx hq.typable hm hne
    fun hkind t ht _ _ hgoverns => (helsewhere hkind t ht).ne hgoverns

theorem visit_function {n : Nat} {kind : NodeKind} (hkind : a.kind? (some n) = some kind)
    (hfamily : kind.isFunctionLike = true) : visit a n = function a (some n) := by
  unfold visit
  rw [hkind]
  cases kind <;> first
    | rfl
    | cases hfamily

theorem visit_class {n : Nat} {kind : NodeKind} (hkind : a.kind? (some n) = some kind)
    (hfamily : kind.isClassLike = true) (x : Analysis) :
    (visit a n x).2 = (classBody a (some n) none x).2 := by
  unfold visit
  rw [hkind]
  cases kind <;> first
    | rfl
    | cases hfamily

theorem visit_annotated {n : Nat} (hkind : a.kind? (some n) = some .annotated) :
    visit a n = annotated a (some n) := by
  unfold visit
  rw [hkind]

/-- A function or class that has a type keeps it when it is visited. -/
theorem visit_of_typed {x : Analysis} {n : Nat}
    (hkind : a.isOf (fun kind => kind.isFunctionLike || kind.isClassLike) (some n) = true)
    (htyped : (x.typeOf? (some n)).isSome) : (visit a n x).2 = x := by
  obtain ⟨kind, hkind, hfamily⟩ := kind?_of_isOf hkind
  rcases Bool.or_eq_true _ _ ▸ hfamily with hfunction | hclass
  · rw [visit_function hkind hfunction]
    unfold function
    rw [run_bind, run_get, if_pos htyped]
    rfl
  · obtain ⟨t, ht⟩ := Option.isSome_iff_exists.1 htyped
    rw [visit_class hkind hclass]
    unfold classBody
    rw [run_bind, run_get]
    dsimp only
    rw [ht]
    rfl

/-- References are typed in the end, if they are there and have no type. -/
theorem propagate_bypasses {x : Analysis} (hx : x.Placed a root) (v : ValueId)
    (hq : ∀ n, TypeExpr.IsTypeNode a n → q ≠ some n) (htyped : q = none ∨ (x.typeOf? q).isSome) :
    MovesFrom (Bypasses a q) x (propagate v) := by
  refine .bind_from (m := get) (Std.Refl.refl x) ?_
  split
  · next t slot _ hslot =>
    refine (Runs.forM (R := Bypasses a q) (Std.Refl.refl x) fun node hnode y hy => ⟨?_, trivial⟩).1
    refine setTypeIfNew_bypasses t (htyped.imp ?_ fun htyped => ?_)
    · rintro rfl rfl
      exact hx.reads v slot hslot hnode
    · rwa [hy.typeOf? hq]
  · exact (Moves.pure _).movesFrom x

/-! ### The third pass -/

/-- What is left of the third pass once all nodes are visited. -/
def finish : Analyze Unit := do
  (← get).store.values.ids.forM propagate
  Analyze.onStore Store.finalizeAllConstructed

theorem run_eq (a : Arena) (root : NodeRef) (x : Analysis) :
    (run a root x).2 = (finish ((a.code root).forM (visit a) x).2).2 := by
  unfold run finish Arena.code
  rw [run_bind]

/-- The pass, seen from the visit of one node. -/
theorem run_split {before after : List Nat} {n : Nat} (hsplit : a.code root = before ++ n :: after)
    (x : Analysis) : (run a root x).2 =
      (finish (after.forM (visit a) (visit a n (before.forM (visit a) x).2).2).2).2 := by
  rw [run_eq, hsplit, run_forM_append]
  rfl

theorem visits_lead {x : Analysis} (hx : x.Closed) (a : Arena) (nodes : List Nat) :
    x.Leads (nodes.forM (visit a) x).2 :=
  (Runs.forM (.refl hx) fun n _ _ hy => visit_runs hy.closed a n).1

theorem finish_leads {x : Analysis} (hx : x.Closed) : x.Leads (finish x).2 := by
  have hruns : Runs Leads x finish fun _ _ => True := by
    unfold finish
    refine .get_bind ((Runs.forM (.refl hx) fun v _ z hz => propagate_runs hz.closed v).bind ?_)
    exact fun _ z hz _ => onStore_runs hz.closed (Store.finalizeAllConstructed_runs hz.closed.store)
  exact hruns.1

/-- The end of the pass types references that have no type. -/
theorem finish_bypasses {x : Analysis} (hx : x.Placed a root)
    (hq : ∀ n, TypeExpr.IsTypeNode a n → q ≠ some n) (htyped : q = none ∨ (x.typeOf? q).isSome) :
    MovesFrom (Bypasses a q) x finish := by
  have hpropagates : MovesFrom (Bypasses a q) x (x.store.values.ids.forM propagate) := by
    refine (Runs.forM (R := Bypasses a q) (Std.Refl.refl x) fun v _ y hy => ⟨?_, trivial⟩).1
    refine propagate_bypasses (hy.placed hx) v hq (htyped.imp_right fun htyped => ?_)
    rwa [hy.typeOf? hq]
  exact .bind_from (m := get) (Std.Refl.refl x)
    (.bind hpropagates fun _ => onStore_bypasses Store.finalizeAllConstructed_sameSites)

/-- Visits of other nodes, none of which has the comment that governs a node. -/
theorem visits_bypass (h : a.Shaped root) (hc : a.Complete root) {x : Analysis}
    (hx : x.Placed a root)
    (hq : a.Apart root q) {nodes : List Nat} (hnodes : ∀ m ∈ nodes, m ∈ a.code root ∧ some m ≠ q ∧
      (a.kind? (some m) = some .annotated → ∀ t, a.child (some m) 1 = some t → a.Elsewhere q t)) :
    MovesFrom (Bypasses a q) x (nodes.forM (visit a)) := by
  refine (Runs.forM (R := Bypasses a q) (Std.Refl.refl x) fun m hm y hy => ⟨?_, trivial⟩).1
  obtain ⟨hcode, hne, helsewhere⟩ := hnodes m hm
  exact visit_bypasses h hc (hy.placed hx) hq hcode hne helsewhere

/-- Visits after a function or class has its type. -/
theorem visits_bypass_typed (h : a.Shaped root) (hc : a.Complete root) {x : Analysis}
    (hx : x.Placed a root)
    {n : Nat} (hq : a.Apart root (some n))
    (hkind : a.isOf (fun kind => kind.isFunctionLike || kind.isClassLike) (some n) = true)
    (htyped : (x.typeOf? (some n)).isSome) {nodes : List Nat}
    (hnodes : ∀ m ∈ nodes, m ∈ a.code root ∧
      (a.kind? (some m) = some .annotated → ∀ t, a.child (some m) 1 = some t →
        a.Elsewhere (some n) t)) :
    MovesFrom (Bypasses a (some n)) x (nodes.forM (visit a)) := by
  refine (Runs.forM (R := Bypasses a (some n)) (Std.Refl.refl x) fun m hm y hy => ⟨?_, trivial⟩).1
  obtain ⟨hcode, helsewhere⟩ := hnodes m hm
  by_cases hmn : m = n
  · rw [hmn, visit_of_typed hkind (by rwa [hy.typeOf? hq.typeNode])]
    exact Std.Refl.refl y
  · exact visit_bypasses h hc (hy.placed hx) hq hcode (by simpa using hmn) helsewhere

/-- Visits leave values where they stand. -/
theorem visits_sameSites (a : Arena) (nodes : List Nat) : Moves SameSites (nodes.forM (visit a)) :=
  .forM fun n _ => visit_moves n

/-- The third pass leaves values where they stand. -/
theorem run_sameSites (a : Arena) (root : NodeRef) : Moves SameSites (run a root) := by
  refine .bind (visits_sameSites a _) fun _ => .bind .get fun x => ?_
  refine .bind (.forM fun v _ => propagate_moves v) fun _ => ?_
  exact onStore_sameSites Store.finalizeAllConstructed_sameSites

/-- What has a type after the visit of a node has one after the pass. -/
theorem run_typed {before after : List Nat} {n : Nat} (hsplit : a.code root = before ++ n :: after)
    {x : Analysis} (hx : x.Closed) {r : NodeRef}
    (hr : ((visit a n (before.forM (visit a) x).2).2.typeOf? r).isSome) :
    ((run a root x).2.typeOf? r).isSome := by
  have hbefore := visits_lead hx a before
  have hvisit := (visit_runs hbefore.closed a n).1
  have hafter := visits_lead hvisit.closed a after
  rw [run_split hsplit]
  exact typed_of_changes (hafter.steps.trans (finish_leads hafter.closed).steps) hr

end Typing

namespace Analysis

variable {a : Arena} {root q : NodeRef}

/-- Before nodes are typed values stand at the nodes that have them, and a node apart
has no type. -/
theorem runPasses_placed (h : a.Shaped root) (hc : a.Complete root) (reportUndefined : Bool) :
    (runPasses a reportUndefined root 2).Placed a root ∧
      ∀ q, a.Apart root q → (runPasses a reportUndefined root 2).typeOf? q = none := by
  have hsited := bindNames_sited h hc reportUndefined
  rw [← runPasses_one] at hsited
  have hbypasses (q : NodeRef) := Hierarchy.build_bypasses (a := a) (q := q)
    (runPasses a reportUndefined root 1)
  rw [runPasses_two]
  refine ⟨(hbypasses none).placed hsited.placed, fun q hq => ?_⟩
  rw [(hbypasses q).typeOf? hq.typeNode]
  cases ht : (runPasses a reportUndefined root 1).typeOf? q with
  | none => rfl
  | some t => exact (hq.not_isLabel (hsited.types q (Option.isSome_of_eq_some ht))).elim

end Analysis

end DocTypes
