import DocTypes.Proofs.Binding.Covering
import DocTypes.Proofs.Handles.Visits
import DocTypes.Proofs.Lifecycle.Works
import DocTypes.Proofs.Tree.Comments

/-!
# What the work of a visit hoists

Hoisting reads the statements of a body from outside and follows a closed list of kinds of
statement; the walk goes down by default. The two meet at each node: what a node hoists is what it
declares itself, and then what the nodes hoist that its visit asks for (`Arena.hoistedNames_eq`,
`Binder.visit_hoists`). A function declares its name alone, and what its visit asks for is hoisted
in its own scope. What is inside of an expression hoists nothing.

## Main statements

* `Arena.hoistedNames_eq`: what a node hoists.
* `Binder.visit_hoists`: what the work of a visit hoists.
-/

namespace DocTypes

/-- The name that is hoisted. -/
def Hoisted.name? : Hoisted → Option Nat
  | .variableName n | .functionName _ n => some n
  | .typeName _ => none

/-! ## Kinds and places -/

namespace NodeKind

/-- The kinds of node that hoist nothing. -/
def isQuiet : NodeKind → Bool
  | .annotated | .varStatement | .functionDeclaration => false
  | kind => !kind.passes && !kind.isCompilationUnit

/-- The kinds of node whose children hoist nothing. -/
def hasQuietChildren : NodeKind → Bool
  | .annotated | .jsDocDocument | .jsDocTag => false
  | kind => !kind.passes && !kind.isCompilationUnit && !kind.isFunctionLike &&
      !kind.isTypeExpression

/-- The kinds of node outside of comments. -/
def isCode : NodeKind → Bool
  | .jsDocDocument | .jsDocTag => false
  | kind => !kind.isTypeExpression

theorem isQuiet_of_isExpression {kind : NodeKind} (h : kind.isExpression = true) :
    kind.isQuiet = true := by
  cases kind <;> first
    | rfl
    | cases h

theorem isCode_of_hasQuietChildren {kind : NodeKind} (h : kind.hasQuietChildren = true) :
    kind.isCode = true := by
  cases kind <;> first
    | rfl
    | cases h

end NodeKind

namespace Place

/-- Whether what stands at a place hoists nothing. -/
def isQuiet : Place → Bool
  | .expression => true
  | .only kinds => kinds.all NodeKind.isQuiet
  | .commented kind => kind.isQuiet
  | _ => false

/-- Whether no unit stands at a place. -/
def isInner : Place → Bool
  | .free => false
  | .only kinds => kinds.all (!·.isCompilationUnit)
  | .commented kind => !kind.isCompilationUnit
  | _ => true

end Place

theorem NodeKind.place_isQuiet {kind : NodeKind} (h : kind.hasQuietChildren = true) (i : Nat) :
    (kind.place i).isQuiet = true := by
  rcases i with _ | _ | _ | i <;> cases kind <;> first
    | rfl
    | cases h

theorem NodeKind.place_isInner {kind : NodeKind} (h : kind.isCode = true) (i : Nat) :
    (kind.place i).isInner = true := by
  rcases i with _ | _ | _ | i <;> cases kind <;> first
    | rfl
    | cases h

namespace Arena

variable {a : Arena} {root : NodeRef} {n c : Nat} {kind : NodeKind}

/-! ## What is hoisted out of a node -/

/-- The names that a statement hoists. -/
def hoistedNames (a : Arena) (r : NodeRef) : List Nat := (a.hoisted r).filterMap Hoisted.name?

theorem hoistedNames_none (a : Arena) : a.hoistedNames none = [] := by
  rw [hoistedNames, hoisted]
  rfl

theorem hoistedNames_passes (hkind : a.kind? (some n) = some kind) (h : kind.passes = true) :
    a.hoistedNames (some n) = (a.children (some n)).flatMap a.hoistedNames := by
  rw [hoistedNames, hoisted_of_passes hkind h, List.filterMap_flatMap]
  rfl

/-- Type names are not hoisted as names. -/
theorem hoistedNames_annotated (hkind : a.kind? (some n) = some .annotated) :
    a.hoistedNames (some n) = a.hoistedNames (a.child (some n) 1) := by
  have htypes : (a.hoistedTypes (some n)).filterMap Hoisted.name? = [] := by
    rw [List.filterMap_eq_nil_iff]
    intro x hx
    obtain ⟨name, rfl⟩ := exists_typeName_of_mem_hoistedTypes hx
    rfl
  rw [hoistedNames, hoisted_annotated hkind, List.filterMap_append, htypes, List.nil_append]
  rfl

theorem hoistedNames_varStatement (hkind : a.kind? (some n) = some .varStatement) :
    a.hoistedNames (some n) =
      if (a.flags (some n)).isBlockScoped then [] else a.bindingNames (some n) := by
  rw [hoistedNames, hoisted_varStatement hkind]
  split
  · rfl
  · rw [List.filterMap_map]
    exact List.filterMap_some

theorem hoistedNames_functionDeclaration (hkind : a.kind? (some n) = some .functionDeclaration) :
    a.hoistedNames (some n) = (a.child (some n) 0).toList := by
  rw [hoistedNames, hoisted_functionDeclaration hkind]
  cases a.child (some n) 0 <;> rfl

theorem hoistedNames_of_isQuiet (hkind : a.kind? (some n) = some kind) (h : kind.isQuiet = true) :
    a.hoistedNames (some n) = [] := by
  have hother : a.hoisted (some n) = [] := by
    refine hoisted_of_other hkind ?_ ?_ ?_ ?_
    · cases kind <;> first
        | rfl
        | cases h
    all_goals
      rintro rfl
      cases h
  rw [hoistedNames, hother]
  rfl

/-- The names that a node declares in the scope of the function around it: those of a `var` list,
and the name of a function declaration. -/
def ownNames (a : Arena) (n : Nat) : List Nat :=
  match a.kind? (some n) with
  | some .varStatement => if (a.flags (some n)).isBlockScoped then [] else a.bindingNames (some n)
  | some .functionDeclaration => (a.child (some n) 0).toList
  | _ => []

/-- The statements of a block. -/
def blockStatements (a : Arena) (body : NodeRef) : List NodeRef :=
  if a.isKind body .block then a.children body else []

/-- The statements that are hoisted when the scope of a unit or of a function opens. -/
def scopeStatements (a : Arena) (r : NodeRef) : List NodeRef :=
  match a.kind? r with
  | some .functionDeclaration | some .functionExpression | some .method =>
    a.blockStatements (a.child r 2)
  | some .arrowFunction => a.blockStatements (a.child r 1)
  | _ => a.children r

/-- The names that are hoisted when the scope of a unit or of a function opens. -/
def scopeNames (a : Arena) (r : NodeRef) : List Nat := (a.scopeStatements r).flatMap a.hoistedNames

/-- The names that are hoisted out of what is visited from a node. -/
def innerNames (a : Arena) (n : Nat) : List Nat :=
  match a.kind? (some n) with
  | some .varStatement => []
  | some kind => if kind.isFunctionLike then a.scopeNames (some n) else a.hoistedNames (some n)
  | none => []

theorem innerNames_function (hkind : a.kind? (some n) = some kind)
    (hfunction : kind.isFunctionLike = true) : a.innerNames n = a.scopeNames (some n) := by
  rw [innerNames, hkind]
  cases kind <;> first
    | rfl
    | cases hfunction

theorem innerNames_other (hkind : a.kind? (some n) = some kind) (hvar : kind ≠ .varStatement)
    (hfunction : kind.isFunctionLike = false) : a.innerNames n = a.hoistedNames (some n) := by
  rw [innerNames, hkind]
  cases kind <;> first
    | rfl
    | exact absurd rfl hvar
    | cases hfunction

/-- **What a node hoists.** It is what the node declares, and what is hoisted out of the nodes that
are visited from there, unless these are in the scope of a function. -/
theorem hoistedNames_eq (a : Arena) (n : Nat) : a.hoistedNames (some n) =
    a.ownNames n ++ if a.isOf NodeKind.isFunctionLike (some n) then [] else a.innerNames n := by
  unfold ownNames innerNames isOf
  cases hkind : a.kind? (some n) with
  | none =>
    have hnone : a.hoisted (some n) = [] := by
      rw [hoisted, hkind]
    rw [hoistedNames, hnone]
    rfl
  | some kind =>
    rw [Option.any_some]
    cases kind with
    | varStatement => exact (hoistedNames_varStatement hkind).trans (List.append_nil _).symm
    | functionDeclaration =>
      exact (hoistedNames_functionDeclaration hkind).trans (List.append_nil _).symm
    | functionExpression | arrowFunction | method => exact hoistedNames_of_isQuiet hkind rfl
    | _ => rfl

/-! ## The nodes of a program -/

/-- A node of a tree that is no unit. -/
structure IsPart (a : Arena) (root : NodeRef) (n : Nat) : Prop where
  listed : n ∈ a.listing root
  inner : a.isOf NodeKind.isCompilationUnit (some n) = false

/-- A node of a tree out of which nothing is hoisted. -/
structure IsQuiet (a : Arena) (root : NodeRef) (n : Nat) : Prop extends a.IsPart root n where
  names : a.hoistedNames (some n) = []

theorem not_isCompilationUnit_of_isOf {r : NodeRef} {family : NodeKind → Bool}
    (h : a.isOf family r = true)
    (hfamily : ∀ kind, family kind = true → kind.isCompilationUnit = false) :
    a.isOf NodeKind.isCompilationUnit r = false := by
  obtain ⟨kind, hkind, hmem⟩ := kind?_of_isOf h
  rw [isOf, hkind, Option.any_some, hfamily kind hmem]

/-- A commented node is no unit. -/
theorem not_isCompilationUnit_of_bare {r : NodeRef}
    (h : a.isOf NodeKind.isCompilationUnit (a.bare r) = false) :
    a.isOf NodeKind.isCompilationUnit r = false := by
  by_cases hannotated : a.isKind r .annotated = true
  · rw [isOf, isKind_iff.1 hannotated]
    rfl
  · rwa [bare, if_neg hannotated] at h

/-- What hoists nothing hoists nothing under a comment. -/
theorem hoistedNames_of_bare {r : NodeRef} (h : a.isOf NodeKind.isQuiet (a.bare r) = true) :
    a.hoistedNames r = [] := by
  obtain ⟨kind, hkind, hquiet⟩ := kind?_of_isOf h
  by_cases hannotated : a.isKind r .annotated = true
  · obtain ⟨n, rfl⟩ := exists_of_kind? (isKind_iff.1 hannotated)
    rw [bare, if_pos hannotated] at hkind
    rw [hoistedNames_annotated (isKind_iff.1 hannotated)]
    cases hc : a.child (some n) 1 with
    | none => exact hoistedNames_none a
    | some c => exact hoistedNames_of_isQuiet (hc ▸ hkind) hquiet
  · rw [bare, if_neg hannotated] at hkind
    cases r with
    | none => exact hoistedNames_none a
    | some n => exact hoistedNames_of_isQuiet hkind hquiet

theorem not_isCompilationUnit_of_admits {place : Place} (hplace : place.isInner = true)
    (h : a.admits (some c) place = true) : a.isOf NodeKind.isCompilationUnit (some c) = false := by
  have hstatement : ∀ kind :
      NodeKind, kind.isStatement = true → kind.isCompilationUnit = false := by
    intro kind
    cases kind <;> decide
  have hexpression : ∀ kind :
      NodeKind, kind.isExpression = true → kind.isCompilationUnit = false := by
    intro kind
    cases kind <;> decide
  have hclause (h : (a.isOf NodeKind.isStatement (a.bare (some c)) &&
    !a.isLexical (a.bare (some c)) ||
      a.isOf NodeKind.isExpression (a.bare (some c))) = true) :
      a.isOf NodeKind.isCompilationUnit (some c) = false := by
    rcases Bool.or_eq_true _ _ ▸ h with h | h
    · obtain ⟨hfamily, -⟩ := Bool.and_eq_true _ _ ▸ h
      exact not_isCompilationUnit_of_bare (not_isCompilationUnit_of_isOf hfamily hstatement)
    · exact not_isCompilationUnit_of_bare (not_isCompilationUnit_of_isOf h hexpression)
  have hkind {kind : NodeKind} (h : a.isKind (some c) kind = true)
      (hunit : kind.isCompilationUnit = false) :
        a.isOf NodeKind.isCompilationUnit (some c) = false := by
    rw [isOf, isKind_iff.1 h, Option.any_some, hunit]
  cases place with
  | item => exact not_isCompilationUnit_of_bare (not_isCompilationUnit_of_isOf h hstatement)
  | clause => exact hclause h
  | head =>
    rw [admits, Bool.or_assoc, Bool.or_eq_true] at h
    rcases h with h | h
    · exact hkind h rfl
    · exact hclause h
  | expression => exact not_isCompilationUnit_of_bare (not_isCompilationUnit_of_isOf h hexpression)
  | body =>
    rcases Bool.or_eq_true _ _ ▸ h with h | h
    · exact hkind h rfl
    · exact not_isCompilationUnit_of_bare (not_isCompilationUnit_of_isOf h hexpression)
  | target =>
    refine not_isCompilationUnit_of_isOf h fun kind hfamily => ?_
    cases kind <;> first
      | rfl
      | cases hfamily
  | only kinds =>
    refine not_isCompilationUnit_of_isOf h fun kind hmem => ?_
    have hall := List.all_eq_true.1 hplace kind (List.contains_iff_mem.1 hmem)
    simpa using hall
  | commented kind =>
    have hbare : a.kind? (a.bare (some c)) = some kind := isKind_iff.1 h
    refine not_isCompilationUnit_of_bare ?_
    rw [isOf, hbare, Option.any_some]
    simpa [Place.isInner] using hplace
  | free => cases hplace

theorem hoistedNames_of_admits {place : Place} (hplace : place.isQuiet = true)
    (h : a.admits (some c) place = true) : a.hoistedNames (some c) = [] := by
  cases place with
  | expression =>
    obtain ⟨kind, hkind, hexpression⟩ := kind?_of_isOf h
    refine hoistedNames_of_bare ?_
    rw [isOf, hkind, Option.any_some, NodeKind.isQuiet_of_isExpression hexpression]
  | only kinds =>
    obtain ⟨kind, hkind, hmem⟩ := kind?_of_isOf h
    exact hoistedNames_of_isQuiet hkind
      (List.all_eq_true.1 hplace kind (List.contains_iff_mem.1 hmem))
  | commented kind =>
    have hbare : a.kind? (a.bare (some c)) = some kind := isKind_iff.1 h
    refine hoistedNames_of_bare ?_
    rw [isOf, hbare, Option.any_some]
    exact hplace
  | item | clause | head | body | target | free => cases hplace

namespace Shaped

variable (h : a.Shaped root)
include h

/-- What stands below a node of the code is a node of the code. -/
theorem isPart_child (hn : n ∈ a.listing root) (hkind : a.kind? (some n) = some kind)
    (hcode : kind.isCode = true) (hc : some c ∈ a.children (some n)) : a.IsPart root c := by
  obtain ⟨i, -, hi⟩ := exists_child_of_mem_children hc
  exact ⟨mem_listing_child hn hc,
    not_isCompilationUnit_of_admits (NodeKind.place_isInner hcode i) (h.admits_child hn hkind hi)⟩

/-- Below a node with quiet children nothing is hoisted. -/
theorem isQuiet_child (hn : n ∈ a.listing root) (hkind : a.kind? (some n) = some kind)
    (hquiet : kind.hasQuietChildren = true) (hc : some c ∈ a.children (some n)) :
    a.IsQuiet root c := by
  obtain ⟨i, -, hi⟩ := exists_child_of_mem_children hc
  exact ⟨h.isPart_child hn hkind (NodeKind.isCode_of_hasQuietChildren hquiet) hc,
    hoistedNames_of_admits (NodeKind.place_isQuiet hquiet i) (h.admits_child hn hkind hi)⟩

end Shaped

end Arena

/-! ## Work -/

/-- The names that are hoisted out of a piece of work. -/
def Work.names (a : Arena) : Work → List Nat
  | .visit n => a.hoistedNames (some n)
  | .exitScope | .typeNames _ => []

/-- Work on nodes of a tree, and the names that are hoisted out of them. -/
structure Hoists (a : Arena) (root : NodeRef) (names : List Nat) (works : List Work) : Prop where
  parts : ∀ n, .visit n ∈ works → a.IsPart root n
  names : works.flatMap (Work.names a) = names

section Hoists

variable {a : Arena} {root r : NodeRef} {names names' : List Nat} {works works' : List Work}

theorem hoists_nil : Hoists a root [] [] := ⟨fun _ h => (List.not_mem_nil h).elim, rfl⟩

theorem Hoists.append (h : Hoists a root names works) (h' : Hoists a root names' works') :
    Hoists a root (names ++ names') (works ++ works') := by
  constructor
  · intro n hn
    exact (List.mem_append.1 hn).elim (h.parts n) (h'.parts n)
  · rw [List.flatMap_append, h.names, h'.names]

/-- Closing a scope hoists nothing. -/
theorem Hoists.exitScope (h : Hoists a root names works) :
    Hoists a root names (works ++ [.exitScope]) := by
  have hexit : Hoists a root [] [.exitScope] := ⟨by simp, rfl⟩
  simpa using h.append hexit

theorem hoists_visit? (h : ∀ n, r = some n → a.IsPart root n) :
    Hoists a root (a.hoistedNames r) (Work.visit? r) := by
  cases r with
  | none =>
    rw [Arena.hoistedNames_none]
    exact hoists_nil
  | some n =>
    refine ⟨fun m hm => ?_, List.append_nil _⟩
    cases List.mem_singleton.1 hm
    exact h n rfl

theorem hoists_children (h : ∀ n, some n ∈ a.children r → a.IsPart root n) :
    Hoists a root ((a.children r).flatMap a.hoistedNames) (Work.children a r) := by
  constructor
  · intro n hn
    obtain ⟨m, hm, heq⟩ := List.mem_map.1 hn
    cases heq
    exact h n (Arena.mem_presentChildren.1 hm)
  · rw [Work.children, List.flatMap_map, Arena.presentChildren]
    induction a.children r with
    | nil => rfl
    | cons child rest ih =>
      cases child with
      | none =>
        rw [List.filterMap_cons_none rfl, List.flatMap_cons, Arena.hoistedNames_none,
          List.nil_append]
        exact ih
      | some c =>
        rw [List.filterMap_cons_some (f := id) rfl, List.flatMap_cons, List.flatMap_cons, ih]
        rfl

theorem hoists_flatten {lists : List (List Work)} (h : ∀ works ∈ lists, Hoists a root [] works) :
    Hoists a root [] lists.flatten := by
  induction lists with
  | nil => exact hoists_nil
  | cons works lists ih =>
    have hrest := ih fun other hother => h other (List.mem_cons_of_mem _ hother)
    exact (h works List.mem_cons_self).append hrest

theorem hoists_flatMap {α : Type} {xs : List α} {f : α → List Work}
    (h : ∀ x ∈ xs, Hoists a root [] (f x)) : Hoists a root [] (xs.flatMap f) := by
  rw [List.flatMap_def]
  refine hoists_flatten fun works hworks => ?_
  obtain ⟨x, hx, rfl⟩ := List.mem_map.1 hworks
  exact h x hx

theorem Hoists.reverse (h : Hoists a root [] works) : Hoists a root [] works.reverse := by
  constructor
  · exact fun n hn => h.parts n (List.mem_reverse.1 hn)
  · refine List.flatMap_eq_nil_iff.2 fun work hwork => ?_
    exact List.flatMap_eq_nil_iff.1 h.names work (List.mem_reverse.1 hwork)

/-- Out of a quiet node nothing is hoisted. -/
theorem hoists_quiet? (h : ∀ n, r = some n → a.IsQuiet root n) :
    Hoists a root [] (Work.visit? r) := by
  have hnames : a.hoistedNames r = [] := by
    cases r with
    | none => exact Arena.hoistedNames_none a
    | some n => exact (h n rfl).names
  rw [← hnames]
  exact hoists_visit? fun n hn => (h n hn).toIsPart

theorem hoists_quietChildren (h : ∀ n, some n ∈ a.children r → a.IsQuiet root n) :
    Hoists a root [] (Work.children a r) := by
  have hnames : (a.children r).flatMap a.hoistedNames = [] := by
    refine List.flatMap_eq_nil_iff.2 fun child hchild => ?_
    cases child with
    | none => exact Arena.hoistedNames_none a
    | some c => exact (h c hchild).names
  rw [← hnames]
  exact hoists_children fun n hn => (h n hn).toIsPart

end Hoists

/-- Where only one child of a node counts. -/
theorem Arena.flatMap_children {β : Type} (a : Arena) (r : NodeRef) (f : NodeRef → List β) (i : Nat)
    (hnone : f none = []) (h : ∀ j, j ≠ i → f (a.child r j) = []) :
    (a.children r).flatMap f = f (a.child r i) := by
  unfold child at h ⊢
  generalize a.children r = children at h ⊢
  induction children generalizing i with
  | nil => exact hnone.symm
  | cons first rest ih =>
    rw [List.flatMap_cons]
    cases i with
    | zero =>
      have hrest : rest.flatMap f = [] := by
        refine List.flatMap_eq_nil_iff.2 fun child hchild => ?_
        obtain ⟨j, hj, rfl⟩ := List.mem_iff_getElem.1 hchild
        have hj' := h (j + 1) (Nat.succ_ne_zero j)
        rwa [List.getElem?_cons_succ, List.getElem?_eq_getElem hj, Option.join_some] at hj'
      rw [hrest, List.append_nil]
      rfl
    | succ i =>
      have hfirst : f first = [] := h 0 (Nat.succ_ne_zero i).symm
      rw [hfirst, List.nil_append]
      refine ih i fun j hj => ?_
      exact h (j + 1) fun heq => hj (Nat.succ.inj heq)

/-! ## Visits -/

namespace Binder

open Arena

variable {a : Arena} {root : NodeRef} (h : a.Shaped root) {n : Nat} {kind : NodeKind}
include h

section Quiet

variable (hn : n ∈ a.listing root) (hkind : a.kind? (some n) = some kind)
  (hquiet : kind.hasQuietChildren = true)
include hn hkind hquiet

theorem hoists_child (i : Nat) : Hoists a root [] (Work.visit? (a.child (some n) i)) :=
  hoists_quiet? fun _ hc => h.isQuiet_child hn hkind hquiet (mem_children_of_child_eq_some hc)

theorem hoists_below : Hoists a root [] (Work.children a (some n)) :=
  hoists_quietChildren fun _ hc => h.isQuiet_child hn hkind hquiet hc

end Quiet

/-- Of a dotted path, at most the expression at its root is left. -/
theorem visitPath_hoists {r : NodeRef} (hr : ∀ m, r = some m → a.IsQuiet root m) (create : Bool) :
    Yields (fun found => Hoists a root [] found.2) (visitPath a r create) := by
  fun_induction visitPath a r create with
  | case1 | case2 | case5 => exact .pure hoists_nil
  | case3 => exact .after fun _ => .pure hoists_nil
  | case4 create n hkind ih =>
    have hchild : ∀ m, a.child (some n) 0 = some m → a.IsQuiet root m := fun m hm =>
      h.isQuiet_child (hr n rfl).listed hkind rfl (mem_children_of_child_eq_some hm)
    refine .bind (ih hchild) fun found hfound => ?_
    obtain ⟨object?, works⟩ := found
    cases object? with
    | none => exact .pure hfound
    | some object => exact .after fun _ => .pure hfound
  | case6 create n => exact .pure (hoists_quiet? (r := some n) hr)

/-! ### Functions -/

theorem declareParameter_hoists (id : ScopeId) {param : NodeRef}
    (hparam : ∀ m, param = some m → m ∈ a.listing root) :
    Yields (Hoists a root []) (declareParameter a id param) := by
  unfold declareParameter
  split
  · exact .after fun _ => .pure hoists_nil
  · next hkind =>
    obtain ⟨m, rfl⟩ := exists_of_kind? hkind
    have hinit := hoists_child h (hparam m rfl) hkind rfl 1
    refine .after fun _ => ?_
    split
    · exact .pure hoists_nil
    · exact .after fun _ => .pure hinit
  · exact .after fun _ => .pure hoists_nil
  · exact .pure hoists_nil

/-- The parameters of a function hoist nothing, and its body is a block or hoists nothing. -/
theorem enterBody_hoists {params body : NodeRef}
    (hparams : ∀ m, some m ∈ a.children params → m ∈ a.listing root)
    (hbody : ∀ m, body = some m → a.kind? (some m) = some .block ∧ m ∈ a.listing root ∨
      a.isKind (some m) .block = false ∧ a.IsQuiet root m) :
    Yields (Hoists a root ((a.blockStatements body).flatMap a.hoistedNames))
      (enterBody a params body) := by
  have hparam (id : ScopeId) : ∀ param ∈ a.children params,
      Yields (Hoists a root []) (declareParameter a id param) := by
    intro param hparam
    refine declareParameter_hoists h id ?_
    rintro m rfl
    exact hparams m hparam
  refine .after fun b => .bind (.mapM (hparam b.current)) fun defaults hdefaults => ?_
  have hflat := hoists_flatten hdefaults
  unfold blockStatements
  split
  · next hblock =>
    refine .after fun _ => .pure (hflat.append (hoists_children fun m hm => ?_))
    obtain ⟨k, rfl⟩ := exists_of_kind? (isKind_iff.1 hblock)
    rcases hbody k rfl with ⟨hkind, hlisted⟩ | ⟨hother, -⟩
    · exact h.isPart_child hlisted hkind rfl hm
    · rw [hother] at hblock
      cases hblock
  · next hblock =>
    refine .pure (hflat.append (hoists_quiet? fun m hm => ?_))
    rcases hbody m hm with ⟨hkind, -⟩ | ⟨-, hquiet⟩
    · exact absurd (isKind_iff.2 (hm ▸ hkind)) hblock
    · exact hquiet

/-- The body of an arrow function is a block, or an expression that hoists nothing. -/
theorem enterArrow_hoists (hn : n ∈ a.listing root)
    (hkind : a.kind? (some n) = some .arrowFunction) :
    Yields (Hoists a root (a.scopeNames (some n)))
      (enterBody a (a.child (some n) 0) (a.child (some n) 1)) := by
  unfold scopeNames scopeStatements
  rw [hkind]
  refine enterBody_hoists h (fun m hm => mem_listing_of_grandchild hn hm) fun m hm => ?_
  have hadmits : a.admits (some m) .body = true := h.admits_child hn hkind hm
  have hlisted := mem_listing_of_child hn hm
  by_cases hbody : a.isKind (some m) .block = true
  · exact .inl ⟨isKind_iff.1 hbody, hlisted⟩
  · have hexpression : a.admits (some m) .expression = true :=
      (Bool.or_eq_true _ _ ▸ hadmits).resolve_left hbody
    refine .inr ⟨by simpa using hbody, ⟨hlisted, ?_⟩, ?_⟩
    · exact not_isCompilationUnit_of_admits rfl hexpression
    · exact hoistedNames_of_admits rfl hexpression

/-- The body of any other function is a block. -/
theorem enterBlock_hoists (hn : n ∈ a.listing root) (hkind : a.kind? (some n) = some kind)
    (hfunction : kind.isFunctionLike = true) (harrow : kind ≠ .arrowFunction) :
    Yields (Hoists a root (a.scopeNames (some n)))
      (enterBody a (a.child (some n) 1) (a.child (some n) 2)) := by
  have hnames (hplace : kind.place 2 = .only [.block]) :
      Yields (Hoists a root ((a.blockStatements (a.child (some n) 2)).flatMap a.hoistedNames))
        (enterBody a (a.child (some n) 1) (a.child (some n) 2)) := by
    refine enterBody_hoists h (fun m hm => mem_listing_of_grandchild hn hm) fun m hm => .inl ?_
    exact ⟨h.kind?_child hn hkind hplace hm, mem_listing_of_child hn hm⟩
  unfold scopeNames scopeStatements
  rw [hkind]
  cases kind with
  | arrowFunction => exact absurd rfl harrow
  | functionDeclaration | functionExpression | method => exact hnames rfl
  | _ => cases hfunction

theorem finishFunction_hoists (hn : n ∈ a.listing root) (hkind : a.kind? (some n) = some kind)
    (hfunction : kind.isFunctionLike = true) :
    Yields (Hoists a root (a.scopeNames (some n))) (finishFunction a n kind) := by
  have hbody : Yields (Hoists a root (a.scopeNames (some n))) (do
      let works ←
        if kind = .arrowFunction then enterBody a (a.child (some n) 0) (a.child (some n) 1)
        else enterBody a (a.child (some n) 1) (a.child (some n) 2)
      return works ++ [Work.exitScope]) := by
    split
    · next harrow =>
      exact .bind (enterArrow_hoists h hn (harrow ▸ hkind)) fun _ hworks => .pure hworks.exitScope
    · next harrow =>
      exact .bind (enterBlock_hoists h hn hkind hfunction harrow) fun _ hworks =>
        .pure hworks.exitScope
  refine .after fun id => .ite (fun _ => ?_) fun _ => hbody
  exact .after fun _ => .after fun _ => hbody

theorem visitFunction_hoists (hn : n ∈ a.listing root) (hkind : a.kind? (some n) = some kind)
    (hfunction : kind.isFunctionLike = true) :
    Yields (Hoists a root (a.scopeNames (some n))) (visitFunction a n kind) := by
  have hname : Yields (Hoists a root (a.scopeNames (some n))) (do
      let name := a.child (some n) 0
      if kind = .functionDeclaration && name.isSome then
        if ((← get).analysis.valueOf? name).isNone then
          let variableId ← declareVariable a (← functionScope) name
          Analysis.modifyValues (·.addWrite variableId (some n))
      finishFunction a n kind) := by
    have hrest := finishFunction_hoists h hn hkind hfunction
    refine .ite (fun _ => .after fun b => .ite (fun _ => ?_) fun _ => hrest) fun _ => hrest
    exact .after fun _ => .after fun _ => .after fun _ => hrest
  exact .after fun b => .ite (fun _ => .after fun _ => hname) fun _ => hname

theorem visitMethod_hoists (hn : n ∈ a.listing root) (hkind : a.kind? (some n) = some .method) :
    Yields (Hoists a root (a.scopeNames (some n))) (visitMethod a n) := by
  have hrest : Yields (Hoists a root (a.scopeNames (some n))) (finishMethod a n) :=
    .after fun _ => .bind (enterBlock_hoists h hn hkind rfl (by decide)) fun _ hworks =>
      .pure hworks.exitScope
  refine .after fun _ => .after fun _ => .after fun b => ?_
  dsimp only
  split
  · exact hrest
  · split
    · exact hrest
    · exact .after fun _ => .after fun _ => .after fun _ => hrest

/-! ### Classes and declarations -/

theorem visitClass_hoists (hn : n ∈ a.listing root) (hkind : a.kind? (some n) = some kind)
    (hclass : kind.isClassLike = true) : Yields (Hoists a root []) (visitClass a n) := by
  have hquiet : kind.hasQuietChildren = true := by
    cases kind <;> first
      | rfl
      | cases hclass
  have hplace : kind.place 2 = .only [.classBody] := by
    cases kind <;> first
      | rfl
      | cases hclass
  have hmembers : Hoists a root [] (Work.children a (a.child (some n) 2)) := by
    cases hc : a.child (some n) 2 with
    | none => exact hoists_nil
    | some c =>
      exact hoists_below h (mem_listing_of_child hn hc) (h.kind?_child hn hkind hplace hc) rfl
  have hinner := (hoists_child h hn hkind hquiet 1).append hmembers
  refine .after fun b => .after fun cls =>
    .ite (fun _ => .ite (fun _ => ?_) fun _ => ?_) fun _ => ?_
  · exact .after fun _ => .after fun _ => .pure hinner
  · exact .pure hinner
  · refine .after fun _ => .ite (fun _ => ?_) fun _ => .pure hinner
    exact .after fun _ => .after fun _ => .pure hinner.exitScope

omit h in
/-- The end of a declaration: the comment's type and the first value of its variable. -/
theorem annotatedVariable_hoists (id : ScopeId) (doc : Option DocComment) (declaration : NodeRef)
    {init : NodeRef} (hinit : Hoists a root [] (Work.visit? init)) (variableId : ValueId) :
    Yields (fun works => Hoists a root [] works.1 ∧ Hoists a root [] works.2) (do
      match doc with
      | some x => declareAnnotated a x id declaration variableId
      | none => pure ()
      if init.isSome then Analysis.modifyValues (·.addWrite variableId init)
      return (Work.visit? init, ([] : List Work)) : Bind (List Work × List Work)) := by
  have hpair : Hoists a root [] (Work.visit? init) ∧ Hoists a root [] [] := ⟨hinit, hoists_nil⟩
  cases doc with
  | some x => exact .after fun _ => .ite (fun _ => .after fun _ => .pure hpair) fun _ => .pure hpair
  | none => exact .ite (fun _ => .after fun _ => .pure hpair) fun _ => .pure hpair

theorem visitDeclaration_hoists (hn : n ∈ a.listing root)
    (hkind : a.kind? (some n) = some .varStatement) (id : ScopeId) (doc : Option DocComment)
    {declaration : NodeRef} (hmem : declaration ∈ a.children (some n)) :
    Yields (fun works => Hoists a root [] works.1 ∧ Hoists a root [] works.2)
      (visitDeclaration a id doc declaration) := by
  have hchild (i : Nat) : Hoists a root [] (Work.visit? (a.child declaration i)) := by
    cases declaration with
    | none => exact hoists_nil
    | some d =>
      obtain ⟨j, -, hj⟩ := exists_child_of_mem_children hmem
      exact hoists_child h (mem_listing_child hn hmem) (h.kind?_child hn hkind rfl hj) rfl i
  have hlast := annotatedVariable_hoists id doc declaration (hchild 1)
  refine .ite (fun _ => .pure ⟨hoists_nil, hchild 0⟩) fun _ => .after fun b => ?_
  dsimp only
  split
  · exact hlast _
  · exact .after fun _ => hlast _

theorem visitDeclarations_hoists (hn : n ∈ a.listing root)
    (hkind : a.kind? (some n) = some .varStatement) :
    Yields (Hoists a root []) (visitDeclarations a n) := by
  have hdeclaration (id : ScopeId) (doc : Option DocComment) (declaration : NodeRef)
      (hmem : declaration ∈ a.children (some n)) := visitDeclaration_hoists h hn hkind id doc hmem
  refine .after fun id => .after fun b =>
    .bind (.mapM (hdeclaration id _)) fun works hworks => .pure ?_
  refine (hoists_flatMap fun w hw => (hworks w hw).1).append (Hoists.reverse ?_)
  exact hoists_flatMap fun w hw => (hworks w hw).2

/-! ### Expressions -/

theorem visitExpressionStatement_hoists (hn : n ∈ a.listing root)
    (hkind : a.kind? (some n) = some .expressionStatement) :
    Yields (Hoists a root []) (visitExpressionStatement a n) := by
  have hvisit := hoists_child h hn hkind rfl 0
  have hexpression : ∀ m, a.child (some n) 0 = some m → a.IsQuiet root m := fun m hm =>
    h.isQuiet_child hn hkind rfl (mem_children_of_child_eq_some hm)
  refine .after fun b => ?_
  dsimp only
  split
  · exact .pure hvisit
  · refine .ite (fun _ => .pure hvisit) fun _ => ?_
    refine .bind (visitPath_hoists h hexpression true) fun found hfound => ?_
    obtain ⟨property?, works⟩ := found
    dsimp only
    split
    · exact .pure hfound
    · refine .ite (fun _ => .after fun _ => .after fun _ => .pure hfound) fun _ => ?_
      exact .ite (fun _ => .after fun _ => .after fun _ => .pure hfound) fun _ => .pure hfound

theorem visitAssignment_hoists (hn : n ∈ a.listing root)
    (hkind : a.kind? (some n) = some .assignment) :
    Yields (Hoists a root []) (visitAssignment a n) := by
  have htarget := hoists_child h hn hkind rfl 0
  have hvalue := hoists_child h hn hkind rfl 1
  have hquiet : ∀ m, a.child (some n) 0 = some m → a.IsQuiet root m := fun m hm =>
    h.isQuiet_child hn hkind rfl (mem_children_of_child_eq_some hm)
  unfold visitAssignment
  dsimp only
  split
  · exact .pure hvalue
  · exact .after fun _ => .pure hvalue
  · refine .bind (visitPath_hoists h hquiet true) fun found hfound => ?_
    obtain ⟨property?, works⟩ := found
    have hworks := hfound.append hvalue
    dsimp only
    split
    · refine .ite (fun _ => .after fun _ => ?_) fun _ => ?_
      · exact .after fun _ => .pure hworks
      · exact .after fun _ => .pure hworks
    · exact .pure hworks
  · next hcomputed =>
    obtain ⟨t, ht⟩ := exists_of_kind? hcomputed
    rw [ht] at hcomputed ⊢
    have hlisted := (hquiet t ht).listed
    have hkey := hoists_child h hlisted hcomputed rfl 1
    have hobject : ∀ m, a.child (some t) 0 = some m → a.IsQuiet root m := fun m hm =>
      h.isQuiet_child hlisted hcomputed rfl (mem_children_of_child_eq_some hm)
    refine .bind (visitPath_hoists h hobject false) fun found hfound => ?_
    obtain ⟨object?, works⟩ := found
    have hworks := hfound.append hvalue
    dsimp only
    split
    · refine .after fun b => .after fun _ => .after fun _ => ?_
      exact .ite (fun _ => .after fun _ => .pure hworks) fun _ => .pure hworks
    · exact .pure ((hkey.append hfound).append hvalue)
  · exact .pure (htarget.append hvalue)

theorem visitProperty_hoists (hn : n ∈ a.listing root)
    (hkind : a.kind? (some n) = some .property) :
    Yields (Hoists a root []) (visitProperty a n) := by
  have hvalue := hoists_child h hn hkind rfl 1
  refine .after fun b => ?_
  dsimp only
  split
  · exact .pure hvalue
  · split
    · refine .after fun _ => .after fun _ => ?_
      exact .ite (fun _ => .after fun _ => .pure hvalue) fun _ => .pure hvalue
    · refine .ite (fun hcomputed => .pure ?_) fun _ => .pure hvalue
      obtain ⟨k, hk⟩ := exists_of_kind? (isKind_iff.1 hcomputed)
      rw [hk] at hcomputed ⊢
      exact (hoists_child h (mem_listing_of_child hn hk)
        (isKind_iff.1 hcomputed) rfl 0).append hvalue

/-! ### Statements -/

/-- A comment hoists nothing, and the statement under it hoists what it hoists by itself. -/
theorem visitAnnotated_hoists (hn : n ∈ a.listing root)
    (hkind : a.kind? (some n) = some .annotated) :
    Yields (Hoists a root (a.hoistedNames (some n))) (visitAnnotated a n) := by
  have htarget : Hoists a root (a.hoistedNames (some n)) (Work.visit? (a.child (some n) 1)) := by
    rw [hoistedNames_annotated hkind]
    exact hoists_visit? fun m hm => h.isPart_child hn hkind rfl (mem_children_of_child_eq_some hm)
  have hwork (generic : Bool) : Hoists a root (a.hoistedNames (some n))
      (.typeNames (a.child (some n) 0) ::
        (Work.visit? (a.child (some n) 1) ++ if generic then [.exitScope] else [])) := by
    have hcomment : Hoists a root [] [.typeNames (a.child (some n) 0)] := ⟨by simp, rfl⟩
    cases generic with
    | true => exact hcomment.append htarget.exitScope
    | false => simpa using hcomment.append htarget
  have hopened (doc : DocComment) : Yields (Hoists a root (a.hoistedNames (some n))) (do
      let generic := !doc.typeParameters.isEmpty
      if generic then
        let id ← enterScope .typeParameters (some n)
        doc.typeParameters.forM fun name => do
          let t ← Analysis.onTypes (·.parameter (a.atom (some name)) (some name))
          Analysis.setType (some name) t
          declareType a id (some name) t
      modify fun b => { b with comments := b.comments.insert (a.child (some n) 1) doc }
      return .typeNames (a.child (some n) 0) ::
        (Work.visit? (a.child (some n) 1) ++ if generic then [.exitScope] else [])) := by
    refine .ite (fun _ => ?_) fun _ => .after fun _ => .pure (hwork _)
    exact .after fun _ => .after fun _ => .after fun _ => .pure (hwork _)
  refine .after fun b => ?_
  generalize DocComment.compile a (a.child (some n) 0) (a.child (some n) 1)
    (some b.analysis.diagnostics) = compiled
  obtain ⟨doc, sink⟩ := compiled
  refine .after fun _ => .ite (fun _ => .after fun _ => ?_) fun _ => ?_
  · exact hopened doc
  · exact hopened doc

/-- The parts of a statement hoist together what the statement does. -/
theorem children_hoists (hn : n ∈ a.listing root) (hkind : a.kind? (some n) = some kind)
    (hpasses : kind.passes = true) :
    Hoists a root (a.hoistedNames (some n)) (Work.children a (some n)) := by
  have hcode : kind.isCode = true := by
    cases kind <;> first
      | rfl
      | cases hpasses
  rw [hoistedNames_passes hkind hpasses]
  exact hoists_children fun m hm => h.isPart_child hn hkind hcode hm

theorem visitBlock_hoists (hn : n ∈ a.listing root) (hkind : a.kind? (some n) = some .block) :
    Yields (Hoists a root (a.hoistedNames (some n))) (visitBlock a n) :=
  .after fun _ => .after fun _ => .pure (children_hoists h hn hkind rfl).exitScope

/-- The parameter of a handler is not hoisted. -/
theorem visitCatch_hoists (hn : n ∈ a.listing root) (hkind : a.kind? (some n) = some .catchClause) :
    Yields (Hoists a root (a.hoistedNames (some n))) (visitCatch a n) := by
  have hbody : Hoists a root (a.hoistedNames (some n)) (Work.visit? (a.child (some n) 1)) := by
    have hnames : a.hoistedNames (some n) = a.hoistedNames (a.child (some n) 1) := by
      rw [hoistedNames_passes hkind rfl]
      refine a.flatMap_children (some n) a.hoistedNames 1 (hoistedNames_none a) fun j hj => ?_
      cases hc : a.child (some n) j with
      | none => exact hoistedNames_none a
      | some c =>
        have hquiet : (NodeKind.place .catchClause j).isQuiet = true := by
          rcases j with _ | _ | j
          · rfl
          · exact absurd rfl hj
          · rfl
        exact hoistedNames_of_admits hquiet (h.admits_child hn hkind hc)
    rw [hnames]
    exact hoists_visit? fun m hm => h.isPart_child hn hkind rfl (mem_children_of_child_eq_some hm)
  refine .after fun _ => .ite (fun _ => .after fun _ => ?_) fun _ => ?_
  · exact .pure hbody.exitScope
  · exact .pure hbody.exitScope

theorem visitFor_hoists (hn : n ∈ a.listing root) (hkind : a.kind? (some n) = some kind)
    (hpasses : kind.passes = true) :
    Yields (Hoists a root (a.hoistedNames (some n))) (visitFor a n) := by
  have hchildren := children_hoists h hn hkind hpasses
  refine .ite (fun _ => ?_) fun _ => .pure hchildren
  exact .after fun _ => .after fun _ => .pure hchildren.exitScope

/-- **What the work of a visit hoists.** A function asks for its parts, out of which the names of
its own scope are hoisted. A declaration list asks for its values, which hoist nothing. What any
other node hoists is hoisted out of the nodes that it asks for. -/
theorem visit_hoists (hn : a.IsPart root n) :
    Yields (Hoists a root (a.innerNames n)) (visit a n) := by
  have hlisted := hn.listed
  unfold visit
  split
  · next hnone =>
    rw [innerNames, hnone]
    exact .pure hoists_nil
  · next kind hkind =>
    -- functions have names of their own, and a declaration list asks for its values alone
    have hfunction {m : Bind (List Work)} (hlike : kind.isFunctionLike = true)
        (hm : Yields (Hoists a root (a.scopeNames (some n))) m) :
        Yields (Hoists a root (a.innerNames n)) m := by
      rwa [innerNames_function hkind hlike]
    have hstatement {m : Bind (List Work)} (hvar : kind ≠ .varStatement)
        (hlike : kind.isFunctionLike = false)
        (hm : Yields (Hoists a root (a.hoistedNames (some n))) m) :
        Yields (Hoists a root (a.innerNames n)) m := by
      rwa [innerNames_other hkind hvar hlike]
    have hquiet {m : Bind (List Work)} (hkind' : kind.isQuiet = true)
        (hlike : kind.isFunctionLike = false) (hm : Yields (Hoists a root []) m) :
        Yields (Hoists a root (a.innerNames n)) m := by
      refine hstatement ?_ hlike ?_
      · rintro rfl
        cases hkind'
      · rwa [hoistedNames_of_isQuiet hkind hkind']
    split
    · exact hstatement (by decide) rfl (visitAnnotated_hoists h hlisted hkind)
    · rw [innerNames, hkind]
      exact visitDeclarations_hoists h hlisted hkind
    · exact hfunction rfl (visitFunction_hoists h hlisted hkind rfl)
    · exact hfunction rfl (visitFunction_hoists h hlisted hkind rfl)
    · exact hfunction rfl (visitFunction_hoists h hlisted hkind rfl)
    · exact hfunction rfl (visitMethod_hoists h hlisted hkind)
    · exact hquiet rfl rfl (visitClass_hoists h hlisted hkind rfl)
    · exact hquiet rfl rfl (visitClass_hoists h hlisted hkind rfl)
    · exact hstatement (by decide) rfl (visitBlock_hoists h hlisted hkind)
    · exact hstatement (by decide) rfl (visitCatch_hoists h hlisted hkind)
    · exact hstatement (by decide) rfl (visitFor_hoists h hlisted hkind rfl)
    · exact hstatement (by decide) rfl (visitFor_hoists h hlisted hkind rfl)
    · exact hstatement (by decide) rfl (visitFor_hoists h hlisted hkind rfl)
    · exact hquiet rfl rfl (visitExpressionStatement_hoists h hlisted hkind)
    · exact hquiet rfl rfl (visitAssignment_hoists h hlisted hkind)
    · exact hquiet rfl rfl (.after fun _ => .pure hoists_nil)
    · refine hquiet rfl rfl (.bind (visitPath_hoists h ?_ false) fun _ hfound => .pure hfound)
      rintro m ⟨⟩
      exact ⟨hn, hoistedNames_of_isQuiet hkind rfl⟩
    · refine hquiet rfl rfl (.after fun _ => .after fun _ => .pure ?_)
      exact hoists_below h hlisted hkind rfl
    · exact hquiet rfl rfl (visitProperty_hoists h hlisted hkind)
    all_goals first
      | exact hquiet rfl rfl (.pure hoists_nil)
      | skip
    have hunit : kind.isCompilationUnit = false := by
      have hinner := hn.inner
      rwa [isOf, hkind, Option.any_some] at hinner
    have hlike : kind.isFunctionLike = false := by
      cases kind <;> first
        | rfl
        | contradiction
    have hvar : kind ≠ .varStatement := by assumption
    split
    · next htype =>
      refine hquiet ?_ hlike (.pure hoists_nil)
      cases kind <;> first
        | rfl
        | cases htype
    · next htype =>
      by_cases hpasses : kind.passes = true
      · exact hstatement hvar hlike (.pure (children_hoists h hlisted hkind hpasses))
      · have hchildren : kind.hasQuietChildren = true := by
          cases kind <;> first
            | rfl
            | contradiction
        refine hquiet ?_ hlike (.pure (hoists_below h hlisted hkind hchildren))
        cases kind <;> first
          | rfl
          | contradiction

end Binder

end DocTypes
