import DocTypes.Proofs.Binding.Tracking
import DocTypes.Proofs.Lifecycle.Works

/-!
# What a piece of work refers to

An identifier that is visited refers to a variable, and so do the target of an assignment and the
root of a dotted path. The type names of a comment refer to types, or to the variable at the root of
a dotted name (`Binder.refers`). Each of these steps meets the references that it should, and
declares nothing in the scopes that are open but members of objects.

## Main statements

* `Binder.visitPath_refersTo`: a dotted path.
* `Binder.visitTypeNames_refersTo`: the type names of a comment.
* `Binder.visitExpressionStatement_refersTo`, `Binder.visitAssignment_refersTo`: what is declared
  for a property on the way.
-/

namespace DocTypes

open Binder

/-! ## References of the tree -/

namespace Arena

/-- The reference at the root of a dotted path, if there is an identifier. -/
def pathMentions (a : Arena) (r : NodeRef) : List Parked :=
  if a.isKind (a.pathRoot r) .identifier then [valueMention a (a.pathRoot r) none] else []

/-- What an assignment refers to besides its value. -/
def assignmentMentions (a : Arena) (n : Nat) : List Parked :=
  let target := a.child (some n) 0
  match a.kind? target with
  | some .identifier => [valueMention a target (a.child (some n) 1)]
  | some .memberExpression => a.pathMentions target
  | some .computedMemberExpression => a.pathMentions (a.child target 0)
  | _ => []

/-- What a type name refers to: a type, or the variable at the root of a dotted name. -/
def typeNameMentions (a : Arena) (n : Nat) : List Parked :=
  let reference := a.child (some n) 0
  match a.kind? reference with
  | some .identifier =>
    if (builtinType? (a.text reference)).isSome then [] else [typeMention a reference]
  | some .memberExpression => a.pathMentions reference
  | _ => []

end Arena

/-- What a piece of work refers to at once. A statement of a comment that is a dotted path is one
declaration, and refers to its root. -/
def Binder.refers (a : Arena) (b : Binder) : Work → List Parked
  | .exitScope => []
  | .typeNames document => (a.commentTypeNames document).flatMap a.typeNameMentions
  | .visit n =>
    match a.kind? (some n) with
    | some .identifier => [valueMention a (some n) none]
    | some .memberExpression => a.pathMentions (some n)
    | some .assignment => a.assignmentMentions n
    | some .expressionStatement =>
      let expression := a.child (some n) 0
      if (b.comments.get? (some n)).isSome && a.isKind expression .memberExpression then
        a.pathMentions expression
      else []
    | _ => []

namespace Arena

variable {a : Arena} {n : Nat}

theorem pathRoot_of_member (hkind : a.kind? (some n) = some .memberExpression) :
    a.pathRoot (some n) = a.pathRoot (a.child (some n) 0) := by
  rw [pathRoot, hkind]

theorem pathRoot_of_other (hkind : a.kind? (some n) ≠ some .memberExpression) :
    a.pathRoot (some n) = some n := by
  rw [pathRoot]
  split
  · next h => exact absurd h hkind
  · rfl

theorem pathMentions_of_member (hkind : a.kind? (some n) = some .memberExpression) :
    a.pathMentions (some n) = a.pathMentions (a.child (some n) 0) := by
  rw [pathMentions, pathMentions, pathRoot_of_member hkind]

theorem pathMentions_of_identifier (hkind : a.kind? (some n) = some .identifier) :
    a.pathMentions (some n) = [valueMention a (some n) none] := by
  rw [pathMentions, pathRoot_of_other (by simp [hkind]), if_pos (isKind_iff.2 hkind)]

theorem pathMentions_of_other (hmember : a.kind? (some n) ≠ some .memberExpression)
    (hidentifier : a.kind? (some n) ≠ some .identifier) : a.pathMentions (some n) = [] := by
  rw [pathMentions, pathRoot_of_other hmember, if_neg fun h => hidentifier (isKind_iff.1 h)]

theorem pathMentions_none (a : Arena) : a.pathMentions none = [] := by
  rw [pathMentions, pathRoot]
  rfl

end Arena

/-! ## Steps that refer -/

section RefersTo

variable {a : Arena} {reportUndefined : Bool} {plan : Plan} {k : Nat} {b : Binder} {α β : Type}
  {mentions mentions' : List Parked} {P : α → Binder → Prop} {Q : β → Binder → Prop}

/-- Taken from a state, a step inside a scope meets certain references and declares, and its result
is of a sort. -/
def RefersTo (a : Arena) (reportUndefined : Bool) (plan : Plan)
    (mentions : List Parked) (b : Binder)
    (m : Bind α) (P : α → Binder → Prop) : Prop :=
  Meets a reportUndefined plan mentions b (m b).2 ∧ P (m b).1 (m b).2

namespace RefersTo

theorem ofDeclares {m : Bind α} (h : Runs (Declares a plan b.scopes.size) b m P) :
    RefersTo a reportUndefined plan [] b m P := ⟨.ofDeclares h.1, h.2⟩

theorem pure {x : α} (h : P x b) :
    RefersTo a reportUndefined plan [] b (Pure.pure x) P := ⟨.refl b, h⟩

theorem get_bind {f : Binder → Bind α} (h : RefersTo a reportUndefined plan mentions b (f b) P) :
    RefersTo a reportUndefined plan mentions b (get >>= f) P := h

theorem bind {m : Bind α} {f : α → Bind β} (hm : RefersTo a reportUndefined plan mentions b m P)
    (hf : ∀ x b₁, Meets a reportUndefined plan mentions b b₁ → P x b₁ →
      RefersTo a reportUndefined plan mentions' b₁ (f x) Q) :
    RefersTo a reportUndefined plan (mentions ++ mentions') b (m >>= f) Q :=
  have h := hf (m b).1 (m b).2 hm.1 hm.2
  ⟨hm.1.trans h.1, h.2⟩

/-- After a reference is met, nothing but declarations is left. -/
theorem declaring {m : Bind α} {f : α → Bind β}
    (hm : RefersTo a reportUndefined plan mentions b m P)
    (hf : ∀ x b₁, Meets a reportUndefined plan mentions b b₁ → P x b₁ →
      Runs (Declares a plan b₁.scopes.size) b₁ (f x) Q) :
    RefersTo a reportUndefined plan mentions b (m >>= f) Q := by
  rw [← List.append_nil mentions]
  exact hm.bind fun x b₁ hb₁ hx => .ofDeclares (hf x b₁ hb₁ hx)

theorem discard {m : Bind α} (hm : RefersTo a reportUndefined plan mentions b m P) :
    RefersTo a reportUndefined plan mentions b (discard m) fun _ _ => True := ⟨hm.1, trivial⟩

/-- The references of a list of steps, from a sound state. -/
theorem forM {ι : Type} {f : ι → Bind Unit} {mentions : ι → List Parked} {xs : List ι}
    (hb : b.Sound)
    (h : ∀ x ∈ xs, ∀ b₁ : Binder, b₁.Sound →
      RefersTo a reportUndefined plan (mentions x) b₁ (f x) fun _ _ => True) :
    RefersTo a reportUndefined plan (xs.flatMap mentions) b (xs.forM f) fun _ _ => True := by
  induction xs generalizing b with
  | nil => exact pure trivial
  | cons x xs ih =>
    refine bind (h x List.mem_cons_self b hb) fun _ b₁ hb₁ _ => ih (hb₁.sound hb) fun y hy => ?_
    exact h y (List.mem_cons_of_mem _ hy)

end RefersTo

end RefersTo

namespace Binder

variable {a : Arena} {root : NodeRef} {reportUndefined : Bool} {plan : Plan} {k n : Nat}
  {b b' : Binder}

/-! ## Identifiers and paths -/

/-- Meeting an identifier. What is assigned through it has not opened a scope around it. -/
theorem visitIdentifier_refersTo (hb : b.Sound) {node : NodeRef}
    (hkind : a.isKind node .identifier = true) {assigned : NodeRef}
    (hforeign : ∀ m, assigned = some m → ∀ s ∈ b.scopes.chain b.current, ∀ scope,
      b.scopes.get? s = some scope → scope.node ≠ some m) :
    RefersTo a reportUndefined plan [valueMention a node assigned] b
      (visitIdentifier a node assigned) fun _ _ => True := by
  obtain ⟨n, rfl⟩ := Arena.exists_of_kind? (Arena.isKind_iff.1 hkind)
  exact ⟨.ofNotes (visitIdentifier_notes hb (some n) assigned) rfl hkind hforeign, trivial⟩

/-! ## Members -/

theorem setValue_declares {node : NodeRef} (hnode : a.isKind node .identifier = false)
    (hmine : ∀ m, node = some m → a.isLexicalName m = true → plan.mine m) (v : ValueId) :
    Runs (Declares a plan k) b (Bind.onAnalysis (Analysis.setValue node v)) fun _ _ => True :=
  ⟨.setValue hnode hmine v, trivial⟩

theorem addRead_declares {node : NodeRef} (hnode : a.isKind node .identifier = false)
    (v : ValueId) :
    Runs (Declares a plan k) b (Bind.onAnalysis (Analysis.modifyValues (·.addRead v node)))
      fun _ _ => True := ⟨.addRead hnode v, trivial⟩

theorem newProperty_declares (owner : ValueId) (key : PropertyKey) (node : NodeRef) :
    Runs (Declares a plan k) b (Bind.onAnalysis (Analysis.onValues (·.newProperty owner key node)))
      fun _ _ => True := ⟨.onValues (.newProperty _ _ _ _), trivial⟩

/-- A name or an object of another kind than a name of a list gets a value. -/
theorem setOther_declares {node : NodeRef} (kind : NodeKind) (hkind : ∀ m, node = some m →
      a.kind? (some m) = some kind) (hidentifier : kind ≠ .identifier) (hname : kind ≠ .bindingName)
    (v : ValueId) :
    Runs (Declares a plan k) b (Bind.onAnalysis (Analysis.setValue node v)) fun _ _ => True := by
  refine setValue_declares ?_ (fun m hm hlexical => ?_) v
  · cases node with
    | none => rfl
    | some m => simpa [Arena.isKind, hkind m rfl] using hidentifier
  · simp [Arena.isLexicalName, Arena.isKind, hkind m hm, hname] at hlexical

/-- Looking up a member, or making it, declares nothing in a scope. -/
theorem visitMember_declares (h : a.Shaped root) (hn : n ∈ a.listing root)
    (hkind : a.kind? (some n) = some .memberExpression) (object : ValueId) (create : Bool) :
    Runs (Declares a plan k) b (visitMember a n object create) fun _ _ => True := by
  have hname : ∀ m, a.child (some n) 1 = some m → a.kind? (some m) = some .propertyName :=
    fun m hm => h.kind?_child hn hkind rfl hm
  have hself : ∀ m, some n = some m → a.kind? (some m) = some .memberExpression := by
    rintro m ⟨⟩
    exact hkind
  refine .get_bind ?_
  dsimp only
  split
  · refine (newProperty_declares _ _ _).bind fun property b₁ _ _ => ?_
    refine (setOther_declares _ hname (by simp) (by simp) property).bind fun _ b₂ _ _ => ?_
    refine (setOther_declares _ hself (by simp) (by simp) property).bind fun _ b₃ _ _ => ?_
    exact .pure (.refl _) trivial
  · split
    · exact .pure (.refl _) trivial
    · next property _ =>
      refine (setOther_declares _ hname (by simp) (by simp) property).bind fun _ b₂ _ _ => ?_
      refine (setOther_declares _ hself (by simp) (by simp) property).bind fun _ b₃ _ _ => ?_
      refine (addRead_declares ?_ property).bind fun _ b₄ _ _ => .pure (.refl _) trivial
      simp [Arena.isKind, hkind]

/-! ## Paths -/

/-- A dotted path meets the reference at its root. -/
theorem visitPath_refersTo (h : a.Shaped root) (hb : b.Sound) {r : NodeRef}
    (hr : ∀ m, r = some m → m ∈ a.listing root) (create : Bool) :
    RefersTo a reportUndefined plan (a.pathMentions r) b (visitPath a r create)
      fun _ _ => True := by
  match r with
  | none =>
    rw [visitPath, Arena.pathMentions_none]
    exact .pure trivial
  | some n =>
    rw [visitPath]
    split
    · next hkind =>
      rw [Arena.pathMentions_of_other (by simp [hkind]) (by simp [hkind])]
      exact .pure trivial
    · next hkind =>
      rw [Arena.pathMentions_of_identifier hkind]
      exact (visitIdentifier_refersTo hb (Arena.isKind_iff.2 hkind)
        fun m hm => by cases hm).declaring
        fun _ _ _ _ => .pure (.refl _) trivial
    · next hkind =>
      have hn := hr n rfl
      rw [Arena.pathMentions_of_member hkind]
      refine (visitPath_refersTo h hb (fun m hm =>
        Arena.mem_listing_of_child hn hm) false).declaring
        fun found b₁ _ _ => ?_
      dsimp only
      split
      · exact .pure (.refl _) trivial
      · next object _ =>
        exact .bind (visitMember_declares h hn hkind object create) fun _ _ _ _ =>
          .pure (.refl _) trivial
    · next hkind =>
      rw [Arena.pathMentions_of_other (by simp [hkind]) (by simp [hkind])]
      exact .pure trivial
    · next hidentifier hmember _ hkind =>
      rw [Arena.pathMentions_of_other (fun h => hmember (Option.some.inj (hkind.symm.trans h)))
        fun h => hidentifier (Option.some.inj (hkind.symm.trans h))]
      exact .pure trivial
termination_by r.rank
decreasing_by exact Arena.rank_child_lt a n 0

/-- The scopes around the current one were opened by later nodes, as those above a node are. -/
def Encloses (b : Binder) (n : Nat) : Prop :=
  ∀ s ∈ b.scopes.chain b.current, ∀ scope, b.scopes.get? s = some scope →
    ∀ p, scope.node = some p → n < p

/-! ## Type names -/

/-- The step for a type name that is one identifier. -/
theorem referType_refersTo (hb : b.Sound) {node : NodeRef}
    (hkind : a.kind? node = some .identifier) :
    RefersTo a reportUndefined plan [typeMention a node] b (referType a node) fun _ _ => True := by
  obtain ⟨n, rfl⟩ := Arena.exists_of_kind? hkind
  have hforeign : ∀ m, (typeMention a (some n)).assigned = some m → ∀ s ∈ b.scopes.chain b.current,
      ∀ scope, b.scopes.get? s = some scope → scope.node ≠ some m := by
    intro m hm
    cases hm
  exact ⟨.ofNotes (referType_notes hb (some n)) rfl (Arena.isKind_iff.2 hkind) hforeign, trivial⟩

theorem visitTypeName_refersTo (hb : b.Sound) (n : Nat) :
    RefersTo a reportUndefined plan (a.typeNameMentions n) b (visitTypeName a n)
      fun _ _ => True := by
  have hmentions : a.typeNameMentions n = match a.kind? (a.child (some n) 0) with
    | some .identifier => if (builtinType? (a.text (a.child (some n) 0))).isSome then []
      else [typeMention a (a.child (some n) 0)]
    | some .memberExpression => a.pathMentions (a.child (some n) 0)
    | _ => [] := rfl
  unfold visitTypeName
  dsimp only
  split
  · next hkind =>
    rw [hmentions, hkind]
    dsimp only
    split
    · exact .pure trivial
    · exact referType_refersTo hb hkind
  · next hkind =>
    rw [hmentions, hkind]
    dsimp only [Arena.pathMentions]
    split
    · next hroot => exact visitIdentifier_refersTo hb hroot fun m hm => by cases hm
    · exact .pure trivial
  · next hidentifier hmember =>
    rw [hmentions]
    split
    · next hkind => exact (hidentifier hkind).elim
    · next hkind => exact (hmember hkind).elim
    · exact .pure trivial

/-- The type names of a comment. -/
theorem visitTypeNames_refersTo (hb : b.Sound) (document : NodeRef) :
    RefersTo a reportUndefined plan ((a.commentTypeNames document).flatMap a.typeNameMentions) b
      (visitTypeNames a document) fun _ _ => True :=
  .forM hb fun n _ _ hb₁ => visitTypeName_refersTo hb₁ n

/-! ## Statements and assignments -/

theorem addWrite_declares {v : ValueId} {node : NodeRef}
    (h : ∀ m, node = some m → a.isAssigned m = true → b.Owns m v) :
    Runs (Declares a plan k) b (Bind.onAnalysis (Analysis.modifyValues (·.addWrite v node)))
      fun _ _ => True := ⟨.addWrite h, trivial⟩

/-- What is written is not assigned to a plain name. -/
theorem addOther_declares {node : NodeRef} (h : ∀ m, node = some m → a.isAssigned m = false)
    (v : ValueId) :
    Runs (Declares a plan k) b (Bind.onAnalysis (Analysis.modifyValues (·.addWrite v node)))
      fun _ _ => True := by
  refine addWrite_declares fun m hm hassigned => ?_
  rw [h m hm] at hassigned
  cases hassigned

theorem aliasFor_declares (doc : DocComment) (name : Atom) :
    Runs (Declares a plan k) b (aliasFor doc name) fun _ _ => True := ⟨.aliasFor doc name, trivial⟩

theorem nameType_declares (v : ValueId) (t : TypeId) :
    Runs (Declares a plan k) b (Bind.onAnalysis (Analysis.nameType v t)) fun _ _ => True :=
  ⟨.nameType v t, trivial⟩

theorem declareClass_declares {site : NodeRef} (hsite : a.isKind site .identifier = false)
    (hname : a.isKind site .bindingName = false) (name : String) (doc : Option DocComment)
    (heritage reportNode : NodeRef) :
    Runs (Declares a plan k) b (declareClass a site name doc heritage reportNode) fun _ _ => True :=
  ⟨.declareClass site hsite hname name doc heritage reportNode, trivial⟩

/-- The declaration that a comment makes of a dotted path. -/
theorem declarePath_declares (h : a.Shaped root) (hn : n ∈ a.listing root)
    (hkind : a.kind? (some n) = some .expressionStatement) (doc : DocComment) (property : ValueId)
    (works : List Work) :
    Runs (Declares a plan k) b (do
      if doc.kind.isClass then
        discard (declareClass a (some n) (a.pathText (a.child (some n) 0)) (some doc) none
          (a.child (some n) 0))
        Analysis.modifyValues (·.addWrite property (some n))
      else if doc.kind.declaresType then
        let t ← aliasFor doc (a.atom (a.child (a.child (some n) 0) 1))
        Analysis.nameType property t
      return works : Bind (List Work)) fun _ _ => True := by
  have hassigned : ∀ m, some n = some m → a.isAssigned m = false := by
    rintro m ⟨⟩
    exact h.not_isAssigned hn hkind rfl rfl (by simp)
  dsimp only
  split
  · refine (declareClass_declares (by simp [Arena.isKind, hkind]) (by simp [Arena.isKind, hkind])
      _ _ _ _).discard.bind fun _ b₂ _ _ => ?_
    exact (addOther_declares hassigned property).bind fun _ _ _ _ => .pure (.refl _) trivial
  · split
    · refine (aliasFor_declares doc _).bind fun t b₂ _ _ => ?_
      exact (nameType_declares property t).bind fun _ _ _ _ => .pure (.refl _) trivial
    · exact .pure (.refl _) trivial

/-- An expression statement, and the declaration that its comment makes of it. -/
theorem visitExpressionStatement_refersTo (h : a.Shaped root) (hn : n ∈ a.listing root)
    (hkind : a.kind? (some n) = some .expressionStatement) (hb : b.Sound) :
    RefersTo a reportUndefined plan (b.refers a (.visit n)) b (visitExpressionStatement a n)
      fun _ _ => True := by
  have hidle : RefersTo a reportUndefined plan [] b
      (Pure.pure (Work.visit? (a.child (some n) 0)) : Bind (List Work)) fun _ _ =>
        True := .pure trivial
  refine .get_bind ?_
  simp only [refers, hkind]
  cases hcomment : b.comments.get? (some n) with
  | none => exact hidle
  | some doc =>
    by_cases hmember : a.isKind (a.child (some n) 0) .memberExpression = true
    · simp only [hmember, Option.isSome_some, Bool.and_self, if_true, Bool.not_true,
        Bool.false_eq_true, if_false]
      have hpath := fun m hm => Arena.mem_listing_of_child (a := a) (c := m) hn (i := 0) hm
      refine (visitPath_refersTo h hb hpath true).declaring fun found b₁ _ _ => ?_
      split
      · exact .pure (.refl _) trivial
      · next property _ => exact declarePath_declares h hn hkind doc property found.2
    · simp only [hmember, Bool.not_false, if_true, Bool.and_false, Bool.false_eq_true, if_false]
      exact hidle

/-- A value that is not assigned to a plain name. -/
theorem nameMemberType_declares (n : Nat) (property : ValueId) :
    Runs (Declares a plan k) b (nameMemberType a n property) fun _ _ => True := by
  unfold nameMemberType
  dsimp only
  split
  · exact .pure (.refl _) trivial
  · refine .get_bind ?_
    split
    · split
      · exact (aliasFor_declares _ _).bind fun t b₁ _ _ => nameType_declares property t
      · exact .pure (.refl _) trivial
    · exact .pure (.refl _) trivial

/-- An assignment. -/
theorem visitAssignment_refersTo (h : a.Shaped root) (hn : n ∈ a.listing root) (hb : b.Sound)
    (henclosed : b.Encloses n) :
    RefersTo a reportUndefined plan (a.assignmentMentions n) b (visitAssignment a n)
      fun _ _ => True := by
  have hchild : ∀ i m, a.child (some n) i = some m → m ∈ a.listing root := fun _ _ =>
    Arena.mem_listing_of_child hn
  have hvalue (hother : a.isKind (a.child (some n) 0) .identifier = false) :
      ∀ m, a.child (some n) 1 = some m → a.isAssigned m = false := by
    intro m hm
    rw [Arena.isAssigned, h.parent_child hn (Arena.mem_children_of_child_eq_some hm), hother,
      Bool.and_false]
  have hmentions : a.assignmentMentions n = match a.kind? (a.child (some n) 0) with
    | some .identifier => [valueMention a (a.child (some n) 0) (a.child (some n) 1)]
    | some .memberExpression => a.pathMentions (a.child (some n) 0)
    | some .computedMemberExpression => a.pathMentions (a.child (a.child (some n) 0) 0)
    | _ => [] := rfl
  unfold visitAssignment
  dsimp only
  split
  · next htarget =>
    rw [hmentions, htarget]
    exact .pure trivial
  · next htarget =>
    rw [hmentions, htarget]
    have hforeign : ∀ m, a.child (some n) 1 = some m → ∀ s ∈ b.scopes.chain b.current, ∀ scope,
        b.scopes.get? s = some scope → scope.node ≠ some m := by
      intro m hm s hs scope hscope hnode
      have hlt := Arena.lt_of_mem_children (Arena.mem_children_of_child_eq_some hm)
      exact Nat.lt_asymm hlt (henclosed s hs scope hscope m hnode)
    exact (visitIdentifier_refersTo hb (Arena.isKind_iff.2 htarget) hforeign).discard.declaring
      fun _ _ _ _ => .pure (.refl _) trivial
  · next htarget =>
    rw [hmentions, htarget]
    refine (visitPath_refersTo h hb (fun m => hchild 0 m) true).declaring fun found b₁ _ _ => ?_
    have hother : a.isKind (a.child (some n) 0) .identifier = false := by
      simp [Arena.isKind, htarget]
    split
    · next property _ =>
      split
      · refine (addOther_declares (hvalue hother) property).bind fun _ b₂ _ _ => ?_
        exact (nameMemberType_declares n property).bind fun _ _ _ _ => .pure (.refl _) trivial
      · exact (nameMemberType_declares n property).bind fun _ _ _ _ => .pure (.refl _) trivial
    · exact .pure (.refl _) trivial
  · next htarget =>
    rw [hmentions, htarget]
    have hother : a.isKind (a.child (some n) 0) .identifier = false := by
      simp [Arena.isKind, htarget]
    obtain ⟨t, ht⟩ := Arena.exists_of_kind? htarget
    have hobject : ∀ m, a.child (a.child (some n) 0) 0 = some m → m ∈ a.listing root := by
      intro m hm
      rw [ht] at hm
      exact Arena.mem_listing_of_child (hchild 0 t ht) hm
    refine (visitPath_refersTo h hb hobject false).declaring fun found b₁ _ _ => ?_
    split
    · refine .get_bind ?_
      refine (newProperty_declares _ _ _).bind fun property b₂ _ _ => ?_
      have hself : ∀ m, a.child (some n) 0 = some m →
          a.kind? (some m) = some .computedMemberExpression := fun m hm => hm ▸ htarget
      refine (setOther_declares _ hself (by simp) (by simp) property).bind fun _ b₃ _ _ => ?_
      split
      · exact (addOther_declares (hvalue hother) property).bind fun _ _ _ _ =>
          .pure (.refl _) trivial
      · exact .pure (.refl _) trivial
    · exact .pure (.refl _) trivial
  · next hidentifier hmember hcomputed htarget =>
    rw [hmentions, htarget]
    split
    · next hkind => exact (hidentifier (Option.some.inj hkind)).elim
    · next hkind => exact (hmember (Option.some.inj hkind)).elim
    · next hkind => exact (hcomputed (Option.some.inj hkind)).elim
    · exact .pure trivial

end Binder

end DocTypes
