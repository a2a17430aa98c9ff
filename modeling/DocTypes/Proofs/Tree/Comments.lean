import DocTypes.Proofs.Comment.Accounting
import DocTypes.Proofs.Tree.Shape
import DocTypes.Proofs.Tree.Walking
import DocTypes.Typing.Receiver
import DocTypes.Typing.Sites

/-!
# Comments and what they stand for

A comment stands on a target, and its declaration is found from both ends. The pass that binds
names climbs from a function or class to the target that governs it (`Arena.governingTarget`). The
pass that types nodes descends from the target to the node that it defines (`Arena.defined`) and to
the class that it declares (`Analysis.declaredClass?`). On the way down only one child of a node is
followed, on the way up every child of a declaration list is, so the two ends meet except below the
later declarations of a list.

## Main statements

* `Arena.Shaped.under_child`: a comment is passed on to a child, or to nothing below it.
* `Arena.Shaped.reaches_of_governingTarget`: what is climbed is descended again, unless the
  target is a declaration list.
* `Arena.Shaped.governingTarget_of_defined`, `Arena.Shaped.governingTarget_of_declaredClass?`: what
  is descended is climbed again.
* `Arena.Shaped.code_split`: a comment comes before what it governs.
-/

namespace DocTypes

/-! ## Complete trees -/

/-- What a node of a kind lists, for the kinds with a fixed layout: whether each child has to be
there. -/
def NodeKind.layout : NodeKind → Option (List Bool)
  | .annotated | .arrowFunction | .bindingWithDefault | .memberExpression
  | .computedMemberExpression | .assignment | .property => some [true, true]
  | .varDeclaration | .recordMember | .functionType => some [true, false]
  | .functionDeclaration | .functionExpression => some [false, true, true]
  | .classDeclaration | .classExpression => some [false, false, true]
  | .method | .forInStatement | .forOfStatement => some [true, true, true]
  | .forStatement => some [false, false, false, true]
  | .tryStatement => some [true, false, false]
  | .catchClause => some [false, true]
  | .expressionStatement | .restParameter | .typeName | .nullableType | .nonNullableType
  | .optionalType | .restType | .thisType | .newType => some [true]
  | _ => none

namespace Arena

/-- Whether a node lists what a node of its kind has to list, and no more. -/
def isComplete (a : Arena) (n : Nat) : Bool :=
  ((a.kind? (some n)).bind NodeKind.layout).all fun layout =>
    (a.children (some n)).length ≤ layout.length &&
      layout.zipIdx.all fun (needed, i) => !needed || (a.child (some n) i).isSome

/-- Every node of a tree lists what it has to list. -/
def Complete (a : Arena) (root : NodeRef) : Prop := ∀ n ∈ a.listing root, a.isComplete n = true

instance (a : Arena) (root : NodeRef) : Decidable (a.Complete root) :=
  inferInstanceAs (Decidable (∀ n ∈ a.listing root, a.isComplete n = true))

section Layout

variable {a : Arena} {root : NodeRef} (h : a.Complete root) {n : Nat} (hn : n ∈ a.listing root)
  {kind : NodeKind} (hkind : a.kind? (some n) = some kind) {layout : List Bool}
  (hlayout : kind.layout = some layout)
include h hn hkind hlayout

theorem Complete.child {i : Nat} (hi : layout[i]? = some true) :
    ∃ c, a.child (some n) i = some c := by
  have hcomplete := h n hn
  rw [isComplete, hkind, Option.bind_some, hlayout, Option.all_some, Bool.and_eq_true,
    List.all_eq_true] at hcomplete
  have hchild := hcomplete.2 (true, i) (List.mem_zipIdx_iff_getElem?.2 hi)
  exact Option.isSome_iff_exists.1 (by simpa using hchild)

theorem Complete.isSome_child {i : Nat} (hi : layout[i]? = some true) :
    (a.child (some n) i).isSome := by
  obtain ⟨c, hc⟩ := h.child hn hkind hlayout hi
  exact Option.isSome_of_eq_some hc

theorem Complete.length_le : (a.children (some n)).length ≤ layout.length := by
  have hcomplete := h n hn
  rw [isComplete, hkind, Option.bind_some, hlayout, Option.all_some, Bool.and_eq_true] at hcomplete
  simpa using hcomplete.1

end Layout

theorem exists_child_of_mem_children {a : Arena} {r : NodeRef} {c : Nat}
    (h : some c ∈ a.children r) : ∃ i, i < (a.children r).length ∧ a.child r i = some c := by
  obtain ⟨i, hi, hget⟩ := List.mem_iff_getElem.1 h
  exact ⟨i, hi, by rw [child, List.getElem?_eq_getElem hi, hget, Option.join_some]⟩

/-- The only child of a node is its first. -/
theorem Complete.child_zero {a : Arena} {root : NodeRef} (h : a.Complete root) {n c : Nat}
    (hn : n ∈ a.listing root) (hkind : a.kind? (some n) = some .expressionStatement)
    (hc : some c ∈ a.children (some n)) : a.child (some n) 0 = some c := by
  obtain ⟨i, hi, hchild⟩ := exists_child_of_mem_children hc
  have hlength := h.length_le hn hkind rfl
  obtain rfl : i = 0 := by simp only [List.length_singleton] at hlength; omega
  exact hchild

/-! ## Code -/

/-- The nodes of the program, each before what is below it, the insides of comments left out. -/
def code (a : Arena) (r : NodeRef) : List Nat :=
  a.preorder (fun n => a.isKind (some n) .jsDocDocument) r

/-- A tag of a comment in the program. -/
def InComment (a : Arena) (root : NodeRef) (tag : Nat) : Prop :=
  ∃ n ∈ a.code root, a.kind? (some n) = some .annotated ∧ tag ∈ a.tags (a.child (some n) 0)

section Code

variable {a : Arena} {r : NodeRef} {n c : Nat}

theorem code_none (a : Arena) : a.code none = [] := by
  rw [code, preorder]

theorem code_some (h : (a.node? (some n)).isSome) :
    a.code (some n) = if a.isKind (some n) .jsDocDocument = true then [n]
      else n :: (a.presentChildren (some n)).flatMap fun c => a.code (some c) :=
  preorder_some h _

theorem isSome_of_mem_code (h : n ∈ a.code r) : (a.node? r).isSome := by
  cases r with
  | none => simp [code_none] at h
  | some m =>
    cases hm : a.node? (some m) with
    | some node => rfl
    | none =>
      unfold code at h
      rw [preorder] at h
      simp [hm] at h

theorem mem_code_self (h : (a.node? (some n)).isSome) : n ∈ a.code (some n) := by
  rw [code_some h]
  split <;> simp

theorem code_sublist_listing (a : Arena) (r : NodeRef) : (a.code r).Sublist (a.listing r) := by
  cases r with
  | none => simp [code_none]
  | some m =>
    induction m using Nat.strongRecOn with
    | ind m ih =>
      cases hm : a.node? (some m) with
      | none =>
        have hnil : a.code (some m) = [] := List.eq_nil_iff_forall_not_mem.2 fun x hx => by
          simpa [hm] using isSome_of_mem_code hx
        rw [hnil]
        exact List.nil_sublist _
      | some node =>
        have hsome : (a.node? (some m)).isSome := Option.isSome_of_eq_some hm
        rw [code_some hsome, listing_some hsome]
        split
        · exact (List.nil_sublist _).cons_cons _
        · refine List.Sublist.cons_cons _ ?_
          rw [List.flatMap_def, List.flatMap_def]
          generalize hcs : a.presentChildren (some m) = cs
          have hlt : ∀ c ∈ cs, c < m := fun c hc => lt_of_mem_presentChildren (hcs ▸ hc)
          clear hcs
          induction cs with
          | nil => exact .refl _
          | cons c cs ihc =>
            exact (ih c (hlt c List.mem_cons_self)).append
              (ihc fun d hd => hlt d (List.mem_cons_of_mem _ hd))

theorem mem_listing_of_mem_code (h : n ∈ a.code r) : n ∈ a.listing r :=
  (code_sublist_listing a r).subset h

theorem sublist_code_child (hn : a.isKind (some n) .jsDocDocument = false)
    (hc : some c ∈ a.children (some n)) : (a.code (some c)).Sublist (a.code (some n)) := by
  have hsome : (a.node? (some n)).isSome := by
    cases hget : a.node? (some n) with
    | some node => rfl
    | none => simp [children, hget] at hc
  rw [code_some hsome, hn, if_neg (by decide), List.flatMap_def]
  exact .cons _ (List.sublist_flatten_of_mem (List.mem_map.2 ⟨c, mem_presentChildren.2 hc, rfl⟩))

/-- The code below a node is a part of all code that holds the node. -/
theorem sublist_code (h : n ∈ a.code r) : (a.code (some n)).Sublist (a.code r) := by
  cases r with
  | none => simp [code_none] at h
  | some m =>
    induction m using Nat.strongRecOn with
    | ind m ih =>
      have h' := h
      rw [code_some (isSome_of_mem_code h)] at h'
      split at h'
      · obtain rfl := List.mem_singleton.1 h'
        exact .refl _
      · next hkind =>
        rcases List.mem_cons.1 h' with rfl | h'
        · exact .refl _
        · obtain ⟨c, hc, hmem⟩ := List.mem_flatMap.1 h'
          exact (ih c (lt_of_mem_presentChildren hc) hmem).trans
            (sublist_code_child (by simpa using hkind) (mem_presentChildren.1 hc))

theorem mem_code_child (hn : n ∈ a.code r) (hkind : a.isKind (some n) .jsDocDocument = false)
    (hc : some c ∈ a.children (some n)) : c ∈ a.code r :=
  (sublist_code hn).subset ((sublist_code_child hkind hc).subset
    (mem_code_self (node?_of_mem_children hc)))

theorem mem_code_of_child {i : Nat} {kind : NodeKind} (hn : n ∈ a.code r)
    (hkind : a.kind? (some n) = some kind) (hne : kind ≠ .jsDocDocument)
    (hc : a.child (some n) i = some c) : c ∈ a.code r := by
  refine mem_code_child hn ?_ (mem_children_of_child_eq_some hc)
  rw [isKind, hkind]
  simpa using hne

/-- A node of the code is its first, or stands below a node of the code. -/
theorem exists_parent_of_mem_code (h : n ∈ a.code r) : r = some n ∨ ∃ p ∈ a.code r,
    a.isKind (some p) .jsDocDocument = false ∧ some n ∈ a.children (some p) := by
  cases r with
  | none => simp [code_none] at h
  | some m =>
    induction m using Nat.strongRecOn with
    | ind m ih =>
      have hm := isSome_of_mem_code h
      have h' := h
      rw [code_some hm] at h'
      split at h'
      · obtain rfl := List.mem_singleton.1 h'
        exact .inl rfl
      · next hkind =>
        have hdocument : a.isKind (some m) .jsDocDocument = false := by simpa using hkind
        rcases List.mem_cons.1 h' with rfl | h'
        · exact .inl rfl
        · obtain ⟨c, hc, hn⟩ := List.mem_flatMap.1 h'
          have hcm := mem_presentChildren.1 hc
          rcases ih c (lt_of_mem_presentChildren hc) hn with heq | ⟨p, hp, hpdocument, hnp⟩
          · cases heq
            exact .inr ⟨m, mem_code_self hm, hdocument, hcm⟩
          · exact .inr ⟨p, (sublist_code_child hdocument hcm).subset hp, hpdocument, hnp⟩

end Code

end Arena

/-! ## Comments -/

namespace DocComment

variable {a : Arena}

/-- What holds of no type parameters, and still holds after one more name was looked at, holds of
the type parameters of a comment. -/
theorem typeParameters_induction {P : List Nat → Prop} (hnil : P [])
    (hname : ∀ (x : DocComment × Sink) name, a.kind? (some name) = some .jsDocName →
      P x.1.typeParameters → P (scanTypeParameter a x name).1.typeParameters)
    (document target : NodeRef) : P (silent a document target).typeParameters := by
  have hnames (names : List Nat) (h : ∀ name ∈ names, a.kind? (some name) = some .jsDocName)
      (x : DocComment × Sink) (hx : P x.1.typeParameters) :
      P (names.foldl (scanTypeParameter a) x).1.typeParameters := by
    induction names generalizing x with
    | nil => exact hx
    | cons name rest ih =>
      exact ih (fun other hother => h other (List.mem_cons_of_mem _ hother)) _
        (hname x name (h name List.mem_cons_self) hx)
  have htag (x : DocComment × Sink) (tag : Nat) (hx : P x.1.typeParameters) :
      P (scanTag a x tag).1.typeParameters := by
    unfold scanTag
    dsimp only
    cases TagClass.ofName? (a.text (some tag)) with
    | none => exact hx
    | some tagClass =>
      cases tagClass with
      | ignored | extendsTag | implementsTag => exact hx
      | paramTag =>
        dsimp only
        split <;> exact hx
      | once slot =>
        dsimp only
        split
        · exact hx
        · unfold keepOnce
          cases slot <;> exact hx
      | templateTag =>
        exact hnames _ (fun name hmem => Arena.isKind_iff.1 (List.mem_filter.1 hmem).2) _ hx
  have htags (tags : List Nat) (x : DocComment × Sink) (hx : P x.1.typeParameters) :
      P (tags.foldl (scanTag a) x).1.typeParameters := by
    induction tags generalizing x with
    | nil => exact hx
    | cons tag rest ih => exact ih _ (htag x tag hx)
  exact htags _ _ hnil

/-- The type parameters of a comment are names in its tags. -/
theorem kind?_of_mem_typeParameters {document target : NodeRef} {n : Nat}
    (h : n ∈ (silent a document target).typeParameters) : a.kind? (some n) = some .jsDocName := by
  refine typeParameters_induction (P := fun names => n ∈ names → a.kind? (some n) = some .jsDocName)
    (fun hn => (List.not_mem_nil hn).elim) (fun x name hname hx hn => ?_) document target h
  unfold scanTypeParameter at hn
  dsimp only at hn
  split at hn
  · exact hx hn
  · rcases List.mem_append.1 hn with hn | hn
    · exact hx hn
    · exact List.mem_singleton.1 hn ▸ hname

/-- No name is a type parameter of a comment twice. -/
theorem nodup_typeParameters (document target : NodeRef) :
    (silent a document target).typeParameters.Nodup := by
  refine typeParameters_induction List.nodup_nil (fun x name _ hx => ?_) document target
  unfold scanTypeParameter
  dsimp only
  split
  · exact hx
  · next hseen =>
    have hnew : name ∉ x.1.typeParameters := fun hmem =>
      hseen (List.any_eq_true.2 ⟨name, hmem, beq_self_eq_true _⟩)
    exact List.nodup_append.2 ⟨hx, List.nodup_singleton name, fun m hm n hn heq =>
      hnew (List.mem_singleton.1 hn ▸ heq ▸ hm)⟩

/-- A tag in a slot is one of the comment. -/
theorem mem_tags_of_tag {document target : NodeRef} {slot : TagSlot} {tag : Nat}
    (h : (silent a document target).tag slot = some tag) : tag ∈ a.tags document :=
  List.mem_of_find?_eq_some (((accounts_compile a document target none).tag slot).symm.trans h)

/-- Where a comment is compiled, problems of comments alone are reported. -/
theorem mem_compile {document target : NodeRef} {diagnostics : Array Diagnostic} {d : Diagnostic}
    (hd : d ∈ ((compile a document target (some diagnostics)).2.getD diagnostics).toList) :
    d ∈ diagnostics.toList ∨ d.problem.category = .jsDoc := by
  rw [compile_eq, Sink.reportAll, Option.map_some, Option.getD_some, Array.toList_append,
    List.mem_append] at hd
  exact hd.imp_right (mem_problems a)

/-- The tags of a comment are tags of the program. -/
def Belongs (a : Arena) (root : NodeRef) (doc : DocComment) : Prop :=
  ∀ slot tag, doc.tag slot = some tag → a.InComment root tag

/-- The comment of an annotated node of the program is in the program. -/
theorem belongs_silent {root : NodeRef} {m : Nat} (hm : m ∈ a.code root)
    (hkind : a.kind? (some m) = some .annotated) (target : NodeRef) :
    (silent a (a.child (some m) 0) target).Belongs a root :=
  fun _ _ htag => ⟨m, hm, hkind, mem_tags_of_tag htag⟩

theorem target_scanTag (x : DocComment × Sink) (tag : Nat) :
    (scanTag a x tag).1.target = x.1.target := by
  have hnames (names : List Nat) (x : DocComment × Sink) :
      (names.foldl (scanTypeParameter a) x).1.target = x.1.target := by
    induction names generalizing x with
    | nil => rfl
    | cons name rest ih =>
      refine (ih _).trans ?_
      unfold scanTypeParameter
      dsimp only
      split <;> rfl
  obtain ⟨x, sink⟩ := x
  unfold scanTag
  dsimp only
  cases TagClass.ofName? (a.text (some tag)) with
  | none => rfl
  | some tagClass =>
    cases tagClass with
    | ignored | extendsTag | implementsTag => rfl
    | paramTag =>
      dsimp only
      split <;> rfl
    | once slot =>
      dsimp only
      split
      · rfl
      · unfold keepOnce
        cases slot <;> rfl
    | templateTag => exact hnames _ _

/-- A comment is on what it is compiled for. -/
theorem target_silent (document target : NodeRef) : (silent a document target).target = target := by
  have hscan (tags : List Nat) (x : DocComment × Sink) :
      (tags.foldl (scanTag a) x).1.target = x.1.target := by
    induction tags generalizing x with
    | nil => rfl
    | cons tag rest ih => exact (ih _).trans (target_scanTag x tag)
  exact hscan (a.tags document) ({ document, target }, none)

end DocComment

namespace Arena

/-! ## Climbing -/

/-- The comment on a node. -/
def commentOn (a : Arena) (target : Nat) : DocComment :=
  DocComment.silent a (a.child (a.parent (some target)) 0) (some target)

/-- The comment that governs a node. -/
def governingDoc (a : Arena) (n : Nat) : Option DocComment := (a.governingTarget n).map a.commentOn

/-- Whether the comment that governs a node governs its child. -/
def passesOn (a : Arena) (p n : Nat) : Bool :=
  match a.kind? (some p) with
  | some .varDeclaration | some .assignment | some .property => a.child (some p) 1 = some n
  | some .varStatement | some .expressionStatement => true
  | _ => false

section Climbing

variable {a : Arena} {n p t : Nat}

theorem governingTarget_eq (hp : a.parent (some n) = some p) :
    a.governingTarget n =
      if a.isKind (some p) .annotated && a.child (some p) 1 = some n then some n
      else if a.passesOn p n then a.governingTarget p else none := by
  rw [governingTarget]
  split
  · next h => simp [hp] at h
  · next q h =>
    cases hp.symm.trans h
    unfold passesOn isKind
    cases a.kind? (some p) with
    | none => rfl
    | some kind => cases kind <;> simp

theorem governingTarget_eq_none (hp : a.parent (some n) = none) : a.governingTarget n = none := by
  rw [governingTarget]
  split
  · rfl
  · next q h => simp [hp] at h

/-- What a comment stands on is governed by it. -/
theorem governingTarget_self (hp : a.parent (some t) = some p)
    (hkind : a.kind? (some p) = some .annotated) (hchild : a.child (some p) 1 = some t) :
    a.governingTarget t = some t := by
  rw [governingTarget_eq hp, isKind, hkind, if_pos (by simp [hchild])]

theorem governingTarget_of_passesOn (hp : a.parent (some n) = some p) (h : a.passesOn p n = true) :
    a.governingTarget n = a.governingTarget p := by
  have hannotated : a.isKind (some p) .annotated = false := by
    cases hkind : a.isKind (some p) .annotated with
    | false => rfl
    | true =>
      unfold passesOn at h
      rw [isKind_iff.1 hkind] at h
      cases h
  rw [governingTarget_eq hp, hannotated, Bool.false_and, if_neg (by decide), if_pos h]

/-- A node is governed by the comment on it or by the one that governs the node above. -/
theorem governingTarget_cases (h : a.governingTarget n = some t) :
    ∃ p, a.parent (some n) = some p ∧
      (a.kind? (some p) = some .annotated ∧ a.child (some p) 1 = some n ∧ n = t ∨
        a.passesOn p n = true ∧ a.governingTarget p = some t) := by
  cases hp : a.parent (some n) with
  | none =>
    rw [governingTarget_eq_none hp] at h
    cases h
  | some p =>
    refine ⟨p, rfl, ?_⟩
    rw [governingTarget_eq hp] at h
    split at h
    · next hannotated =>
      rw [Bool.and_eq_true, decide_eq_true_iff] at hannotated
      exact .inl ⟨isKind_iff.1 hannotated.1, hannotated.2, Option.some.inj h⟩
    · split at h
      · next hpasses => exact .inr ⟨hpasses, h⟩
      · cases h

/-- From the target of a comment down to what it governs. -/
theorem governingTarget_induction {motive : Nat → Prop} {n : Nat}
    (target : ∀ p, a.parent (some t) = some p → a.kind? (some p) = some .annotated →
      a.child (some p) 1 = some t → motive t)
    (step : ∀ n p, a.parent (some n) = some p → a.passesOn p n = true →
      a.governingTarget p = some t → motive p → motive n)
    (h : a.governingTarget n = some t) : motive n := by
  obtain ⟨p, hp, ⟨hkind, hchild, rfl⟩ | ⟨hpasses, hgoverns⟩⟩ := governingTarget_cases h
  · exact target p hp hkind hchild
  · exact step n p hp hpasses hgoverns (governingTarget_induction target step hgoverns)
termination_by a.size - n
decreasing_by
  have hlt := lt_of_parent_eq_some hp
  omega

/-- The kinds that pass a comment on. -/
theorem passesOn_cases (h : a.passesOn p n = true) :
    ((a.kind? (some p) = some .varDeclaration ∨ a.kind? (some p) = some .assignment ∨
        a.kind? (some p) = some .property) ∧ a.child (some p) 1 = some n) ∨
      a.kind? (some p) = some .varStatement ∨ a.kind? (some p) = some .expressionStatement := by
  unfold passesOn at h
  split at h <;> simp_all

end Climbing

section Under

variable {a : Arena} {root r q s : NodeRef}

/-- A node of the program that is governed by the comment on another node, if it is governed. -/
def Under (a : Arena) (root r q : NodeRef) : Prop :=
  ∀ m, q = some m → m ∈ a.code root ∧
    (a.governingTarget m = none ∨ a.governingTarget m = r.bind a.governingTarget)

theorem under_self {n : Nat} (hn : n ∈ a.code root) : a.Under root (some n) (some n) := by
  rintro m ⟨⟩
  exact ⟨hn, .inr rfl⟩

theorem Under.mem_code {m : Nat} (h : a.Under root r (some m)) : m ∈ a.code root := (h m rfl).1

theorem Under.trans (h : a.Under root r q) (h' : a.Under root q s) : a.Under root r s := by
  intro m hm
  obtain ⟨hmem, hnone | hsame⟩ := h' m hm
  · exact ⟨hmem, .inl hnone⟩
  · cases q with
    | none => exact ⟨hmem, .inl hsame⟩
    | some k => exact ⟨hmem, hsame ▸ (h k rfl).2⟩

/-- A comment stands on what is below it alone, and is passed on or not by all others. -/
theorem Shaped.under_of_mem_children (h : a.Shaped root) (hq : a.Under root r q)
    (hannotated : a.isKind q .annotated = false) (hdocument : a.isKind q .jsDocDocument = false)
    (hs : s ∈ a.children q) : a.Under root r s := by
  cases q with
  | none => simp [children, node?] at hs
  | some n =>
    refine hq.trans ?_
    rintro c rfl
    have hn := hq.mem_code
    refine ⟨mem_code_child hn hdocument hs, ?_⟩
    have hparent := h.parent_child (mem_listing_of_mem_code hn) hs
    rw [governingTarget_eq hparent, hannotated, Bool.false_and, if_neg (by decide)]
    split
    · exact .inr rfl
    · exact .inl rfl

theorem Shaped.under_child (h : a.Shaped root) (hq : a.Under root r q)
    (hannotated : a.isKind q .annotated = false) (hdocument : a.isKind q .jsDocDocument = false)
    (i : Nat) : a.Under root r (a.child q i) := by
  intro m hm
  exact h.under_of_mem_children hq hannotated hdocument (mem_children_of_child_eq_some hm) m rfl

end Under

/-! ## Descending -/

/-- A node that is found from a target through statements, assignments and properties. -/
inductive Reaches (a : Arena) : Nat → Nat → Prop
  | self (n : Nat) : Reaches a n n
  | statement {t c n : Nat} (hkind : a.kind? (some t) = some .expressionStatement)
    (hchild : a.child (some t) 0 = some c) (h : Reaches a c n) : Reaches a t n
  | value {t c n : Nat} (hkind : a.kind? (some t) = some .assignment ∨ a.kind? (some t) =
      some .property)
    (hchild : a.child (some t) 1 = some c) (h : Reaches a c n) : Reaches a t n

theorem Reaches.le {a : Arena} {t n : Nat} (h : a.Reaches t n) : n ≤ t := by
  induction h with
  | self => exact Nat.le_refl _
  | statement _ hchild _ ih | value _ hchild _ ih =>
    exact Nat.le_trans ih (Nat.le_of_lt (lt_of_mem_children (mem_children_of_child_eq_some hchild)))

theorem Reaches.trans {a : Arena} {t m n : Nat} (h : a.Reaches t m) (h' : a.Reaches m n) :
    a.Reaches t n := by
  induction h with
  | self => exact h'
  | statement hkind hchild _ ih => exact .statement hkind hchild (ih h')
  | value hkind hchild _ ih => exact .value hkind hchild (ih h')

/-- The kinds that are seen through on the way down. -/
def SeesThrough (accept : NodeKind → Bool) : Prop :=
  accept .expressionStatement = false ∧ accept .varStatement = false ∧
    accept .assignment = false ∧ accept .property = false

theorem seesThrough_isFunctionLike : SeesThrough NodeKind.isFunctionLike := ⟨rfl, rfl, rfl, rfl⟩

theorem seesThrough_isClassLike : SeesThrough NodeKind.isClassLike := ⟨rfl, rfl, rfl, rfl⟩

section Descending

variable {a : Arena} {accept : NodeKind → Bool} {t n : Nat}

theorem defined_self {kind : NodeKind} (hkind : a.kind? (some n) = some kind)
    (h : accept kind = true) : a.defined accept (some n) = some n := by
  rw [defined]
  simp [hkind, h]

theorem Reaches.defined_eq (haccept : SeesThrough accept) (h : a.Reaches t n) :
    a.defined accept (some t) = a.defined accept (some n) := by
  induction h with
  | self => rfl
  | statement hkind hchild _ ih =>
    rw [← ih, ← hchild, defined]
    simp [hkind, haccept.1]
  | value hkind hchild _ ih =>
    rw [← ih, ← hchild, defined]
    obtain ⟨-, -, hassignment, hproperty⟩ := haccept
    rcases hkind with hkind | hkind <;> simp [hkind, hassignment, hproperty]

theorem exists_of_defined {r : NodeRef} (h : a.defined accept r = some n) : ∃ m, r = some m := by
  cases r with
  | none => simp [defined] at h
  | some m => exact ⟨m, rfl⟩

theorem defined_varStatement (haccept : SeesThrough accept)
    (hkind : a.kind? (some t) = some .varStatement) :
    a.defined accept (some t) = a.defined accept (a.child (a.child (some t) 0) 1) := by
  rw [defined]
  simp [hkind, haccept.2.1]

end Descending

/-! ## Up and down -/

namespace Shaped

variable {a : Arena} {root : NodeRef} (h : a.Shaped root) {n t : Nat}
include h

theorem nodup_code : (a.code root).Nodup := (code_sublist_listing a root).nodup h.once

/-- A node of the code that is no unit has its parent there. -/
theorem exists_parent_code (hn : n ∈ a.code root) {kind : NodeKind}
    (hkind : a.kind? (some n) = some kind) (hunit : kind.isCompilationUnit = false) :
    ∃ p ∈ a.code root, some n ∈ a.children (some p) ∧ a.parent (some n) = some p ∧
      a.isKind (some p) .jsDocDocument = false := by
  rcases exists_parent_of_mem_code hn with rfl | ⟨p, hp, hdocument, hchild⟩
  · have hroot := h.unit
    rw [isOf, hkind, Option.any_some, hunit] at hroot
    cases hroot
  · exact ⟨p, hp, hchild, h.parent_child (mem_listing_of_mem_code hp) hchild, hdocument⟩

/-- What stands below a node and in the code is there by that node. -/
theorem mem_code_parent {c : Nat} (hn : n ∈ a.listing root) (hc : some c ∈ a.children (some n))
    (hcode : c ∈ a.code root) : n ∈ a.code root ∧ a.isKind (some n) .jsDocDocument = false := by
  have hparent := h.parent_child hn hc
  rcases exists_parent_of_mem_code hcode with rfl | ⟨p, hp, hdocument, hchild⟩
  · exact absurd (lt_of_mem_children hc) (Nat.not_lt.2 (le_of_mem_listing hn))
  · cases hparent.symm.trans (h.parent_child (mem_listing_of_mem_code hp) hchild)
    exact ⟨hp, hdocument⟩

/-- What stands at a place for expressions is one, or is a comment on one. -/
theorem isExpression_child {p i : Nat} {kind only : NodeKind} (hp : p ∈ a.listing root)
    (hpkind : a.kind? (some p) = some kind) (hplace : kind.place i = .expression)
    (hchild : a.child (some p) i = some n) (hkind : a.kind? (some n) = some only)
    (hannotated : only ≠ .annotated) : only.isExpression = true := by
  have hadmits := h.admits_child hp hpkind hchild
  rw [hplace, admits, bare_of_kind? hkind hannotated, isOf, hkind, Option.any_some] at hadmits
  exact hadmits

/-- Below a declaration list stand declarations, and comments are passed on to expressions
otherwise. -/
theorem kind_of_passesOn {p : Nat} (hp : p ∈ a.listing root) (hchild : some n ∈ a.children (some p))
    (hpasses : a.passesOn p n = true) {kind : NodeKind} (hkind : a.kind? (some n) = some kind)
    (hannotated : kind ≠ .annotated) :
    a.kind? (some p) = some .varStatement ∧ kind = .varDeclaration ∨
      a.kind? (some p) ≠ some .varStatement ∧ kind.isExpression = true := by
  obtain ⟨i, -, hi⟩ := exists_child_of_mem_children hchild
  rcases passesOn_cases hpasses with ⟨hpkind, hone⟩ | hpkind | hpkind
  · refine .inr ⟨?_, ?_⟩
    · rcases hpkind with hpkind | hpkind | hpkind <;> simp [hpkind]
    · rcases hpkind with hpkind | hpkind | hpkind <;>
        exact h.isExpression_child hp hpkind rfl hone hkind hannotated
  · refine .inl ⟨hpkind, ?_⟩
    have hdeclaration := h.kind?_child hp hpkind rfl hi
    exact Option.some.inj (hkind.symm.trans hdeclaration)
  · exact .inr ⟨by simp [hpkind], h.isExpression_child hp hpkind rfl hi hkind hannotated⟩

/-- A declaration list is governed by the comment on it alone. -/
theorem target_of_varStatement (hn : n ∈ a.code root)
    (hkind : a.kind? (some n) = some .varStatement) (hgoverns : a.governingTarget n = some t) :
    n = t := by
  obtain ⟨p, hp, hchild, hparent, -⟩ := h.exists_parent_code hn hkind rfl
  obtain ⟨q, hq, ⟨-, -, heq⟩ | ⟨hpasses, -⟩⟩ := governingTarget_cases hgoverns
  · exact heq
  · cases hparent.symm.trans hq
    rcases h.kind_of_passesOn (mem_listing_of_mem_code hp) hchild hpasses hkind (by decide) with
      ⟨-, hdeclaration⟩ | ⟨-, hexpression⟩
    · cases hdeclaration
    · cases hexpression

/-- A declaration is governed by the comment on its list. -/
theorem target_of_varDeclaration (hn : n ∈ a.code root)
    (hkind : a.kind? (some n) = some .varDeclaration) (hgoverns : a.governingTarget n = some t) :
    a.kind? (some t) = some .varStatement := by
  obtain ⟨p, hp, hchild, hparent, -⟩ := h.exists_parent_code hn hkind rfl
  have hplisting := mem_listing_of_mem_code hp
  obtain ⟨q, hq, ⟨hqkind, hqchild, -⟩ | ⟨hpasses, hgoverns'⟩⟩ := governingTarget_cases hgoverns
  · cases hparent.symm.trans hq
    have hadmits := h.admits_child hplisting hqkind hqchild
    rw [show NodeKind.place .annotated 1 = .target from rfl, admits, isOf, hkind] at hadmits
    cases hadmits
  · cases hparent.symm.trans hq
    rcases h.kind_of_passesOn hplisting hchild hpasses hkind (by decide) with
      ⟨hlist, -⟩ | ⟨-, hexpression⟩
    · exact h.target_of_varStatement hp hlist hgoverns' ▸ hlist
    · cases hexpression

/-- What a comment governs is in the code below it. -/
theorem code_of_governingTarget (hn : n ∈ a.code root) {kind : NodeKind}
    (hkind : a.kind? (some n) = some kind) (hunit : kind.isCompilationUnit = false)
    (hgoverns : a.governingTarget n = some t) :
    ∃ m ∈ a.code root, a.parent (some t) = some m ∧ a.kind? (some m) = some .annotated ∧
      a.child (some m) 1 = some t ∧ n < m ∧ n ∈ a.code (some m) := by
  have hbelow {p c : Nat} (hp : p ∈ a.code root)
    (hdocument : a.isKind (some p) .jsDocDocument = false)
      (hc : some c ∈ a.children (some p)) : c ∈ a.code (some p) :=
    (sublist_code_child hdocument hc).subset (mem_code_self (node?_of_mem_children hc))
  revert hn kind
  refine governingTarget_induction (motive := fun n => n ∈ a.code root → ∀ {kind : NodeKind},
    a.kind? (some n) = some kind → kind.isCompilationUnit = false → ∃ m ∈ a.code root,
      a.parent (some t) = some m ∧ a.kind? (some m) = some .annotated ∧
      a.child (some m) 1 = some t ∧ n < m ∧ n ∈ a.code (some m)) ?_ ?_ hgoverns
  · intro m hm hannotated hchild ht kind hkind hunit
    obtain ⟨p, hp, hc, hparent, hdocument⟩ := h.exists_parent_code ht hkind hunit
    cases hm.symm.trans hparent
    exact ⟨m, hp, hm, hannotated, hchild, (lt_of_parent_eq_some hm).1, hbelow hp hdocument hc⟩
  · intro n p hp hpasses _ ih hn kind hkind hunit
    obtain ⟨q, hq, hc, hparent, hdocument⟩ := h.exists_parent_code hn hkind hunit
    cases hp.symm.trans hparent
    have hpunit : ∃ pkind, a.kind? (some p) = some pkind ∧ pkind.isCompilationUnit = false := by
      rcases passesOn_cases hpasses with ⟨hpkind | hpkind | hpkind, -⟩ | hpkind | hpkind <;>
        exact ⟨_, hpkind, rfl⟩
    obtain ⟨pkind, hpkind, hpunit⟩ := hpunit
    obtain ⟨m, hm, hparent', hannotated, hchild, hlt, hmem⟩ := ih hq hpkind hpunit
    refine ⟨m, hm, hparent', hannotated, hchild, ?_, ?_⟩
    · exact Nat.lt_trans (lt_of_parent_eq_some hp).1 hlt
    · exact (sublist_code hmem).subset (hbelow hq hdocument hc)

/-- The code before a node and the code after it do not hold the node. -/
theorem exists_split (hn : n ∈ a.code root) :
    ∃ before after, a.code root = before ++ n :: after ∧ n ∉ before ++ after := by
  obtain ⟨before, after, hsplit⟩ := List.append_of_mem hn
  have hnodup := h.nodup_code
  rw [hsplit, List.nodup_middle, List.nodup_cons] at hnodup
  exact ⟨before, after, hsplit, hnodup.1⟩

/-- A comment comes before what it governs. -/
theorem code_split {m : Nat} (hm : m ∈ a.code root) (hn : n ∈ a.code (some m)) (hne : n ≠ m) :
    ∃ before after, a.code root = before ++ m :: after ∧ m ∉ before ++ after ∧ n ∉ before ∧ n ∈
      after := by
  obtain ⟨before, after, hsplit, hbeside⟩ := h.exists_split hm
  have hnodup := h.nodup_code
  rw [hsplit] at hnodup
  have hsub := sublist_code hm
  rw [hsplit] at hsub
  obtain ⟨rest, hrest⟩ : ∃ rest, a.code (some m) = m :: rest := by
    rw [code_some (isSome_of_mem_code hn)]
    split
    · exact ⟨_, rfl⟩
    · exact ⟨_, rfl⟩
  rw [hrest] at hsub hn
  have htail : (m :: rest).Sublist (m :: after) := by
    have hbefore : m ∉ before := fun hmem => hbeside (List.mem_append_left _ hmem)
    clear hsplit hnodup hbeside
    induction before with
    | nil => exact hsub
    | cons x before ih =>
      rw [List.cons_append] at hsub
      rcases List.sublist_cons_iff.1 hsub with hsub | ⟨r, hr, -⟩
      · exact ih hsub fun hmem => hbefore (List.mem_cons_of_mem _ hmem)
      · cases hr
        exact (hbefore List.mem_cons_self).elim
  have hafter : n ∈ after := (List.cons_sublist_cons.1 htail).subset (List.mem_of_ne_of_mem hne hn)
  refine ⟨before, after, hsplit, hbeside, fun hmem => ?_, hafter⟩
  exact (List.nodup_append.1 hnodup).2.2 n hmem n (List.mem_cons_of_mem _ hafter) rfl

/-- What is climbed from a node to its target is descended again, unless the target is a declaration
list. -/
theorem reaches_of_governingTarget (hcomplete : a.Complete root) (hn : n ∈ a.code root)
    {kind : NodeKind} (hkind : a.kind? (some n) = some kind)
    (hunit : kind.isCompilationUnit = false)
    (hgoverns : a.governingTarget n = some t) :
    a.Reaches t n ∨ a.kind? (some t) = some .varStatement := by
  revert hn kind
  refine governingTarget_induction (motive := fun n => n ∈ a.code root → ∀ {kind : NodeKind},
    a.kind? (some n) = some kind → kind.isCompilationUnit = false →
      a.Reaches t n ∨ a.kind? (some t) = some .varStatement) ?_ ?_ hgoverns
  · exact fun _ _ _ _ _ _ _ _ => .inl (.self t)
  · intro n p hp hpasses hgoverns' ih hn kind hkind hunit
    obtain ⟨q, hq, hc, hparent, -⟩ := h.exists_parent_code hn hkind hunit
    cases hp.symm.trans hparent
    rcases passesOn_cases hpasses with ⟨hpkind, hone⟩ | hpkind | hpkind
    · by_cases hdeclaration : a.kind? (some p) = some .varDeclaration
      · exact .inr (h.target_of_varDeclaration hq hdeclaration hgoverns')
      · have hvalue := hpkind.resolve_left hdeclaration
        have hpunit : ∃ pkind, a.kind? (some p) = some pkind ∧ pkind.isCompilationUnit = false := by
          rcases hvalue with hvalue | hvalue <;> exact ⟨_, hvalue, rfl⟩
        obtain ⟨pkind, hpkind', hpunit⟩ := hpunit
        exact (ih hq hpkind' hpunit).imp_left fun hreaches =>
          hreaches.trans (.value hvalue hone (.self n))
    · exact .inr (h.target_of_varStatement hq hpkind hgoverns' ▸ hpkind)
    · have hzero := hcomplete.child_zero (mem_listing_of_mem_code hq) hpkind hc
      exact (ih hq hpkind rfl).imp_left fun hreaches =>
        hreaches.trans (.statement hpkind hzero (.self n))

/-- A comment governs the child through which its declaration is seen. -/
theorem governingTarget_child {p c i : Nat} (hp : p ∈ a.listing root)
    (hc : a.child (some p) i = some c) (hpasses : a.passesOn p c = true) :
    a.governingTarget c = a.governingTarget p :=
  governingTarget_of_passesOn (h.parent_child hp (mem_children_of_child_eq_some hc)) hpasses

/-- What a target defines is governed by the comment that governs the target. -/
theorem governingTarget_of_defined {accept : NodeKind → Bool} (ht : t ∈ a.listing root)
    (hdefined : a.defined accept (some t) = some n) :
    a.governingTarget n = a.governingTarget t ∧ n ∈ a.listing root ∧
      ∃ kind, a.kind? (some n) = some kind ∧ accept kind = true := by
  induction t using Nat.strongRecOn with
  | ind t ih =>
    have hstep {s i : Nat} (hs : s ∈ a.listing root) (hst : s ≤ t)
        (hgoverns : a.governingTarget s = a.governingTarget t)
        (hpasses : ∀ c, a.child (some s) i = some c → a.passesOn s c = true)
        (hchild : a.defined accept (a.child (some s) i) = some n) :
        a.governingTarget n = a.governingTarget t ∧ n ∈ a.listing root ∧
          ∃ kind, a.kind? (some n) = some kind ∧ accept kind = true := by
      obtain ⟨c, hc⟩ := exists_of_defined hchild
      rw [hc] at hchild
      have hlt := lt_of_mem_children (mem_children_of_child_eq_some hc)
      rw [← hgoverns, ← h.governingTarget_child hs hc (hpasses c hc)]
      exact ih c (by omega) (mem_listing_of_child hs hc) hchild
    rw [defined] at hdefined
    split at hdefined
    · cases hdefined
    · next kind hkind =>
      split at hdefined
      · next haccept =>
        cases hdefined
        exact ⟨rfl, ht, kind, hkind, haccept⟩
      · split at hdefined
        · exact hstep ht (Nat.le_refl t) rfl (fun c _ => by simp [passesOn, hkind]) hdefined
        · obtain ⟨c, hc⟩ := exists_of_defined hdefined
          obtain ⟨d, -, hd, -⟩ := kind?_of_child hc
          have hdkind := h.kind?_child ht hkind rfl hd
          rw [hd] at hdefined
          refine hstep (mem_listing_of_child ht hd) ?_ ?_ (fun c hc => ?_) hdefined
          · exact Nat.le_of_lt (lt_of_mem_children (mem_children_of_child_eq_some hd))
          · exact h.governingTarget_child ht hd (by simp [passesOn, hkind])
          · simp [passesOn, hdkind, hc]
        · exact hstep ht (Nat.le_refl t) rfl (fun c hc => by simp [passesOn, hkind, hc]) hdefined
        · exact hstep ht (Nat.le_refl t) rfl (fun c hc => by simp [passesOn, hkind, hc]) hdefined
        · cases hdefined

end Shaped

end Arena

/-! ## The class that a declaration makes -/

open Analysis Arena

variable {x : Analysis} {a : Arena} {root : NodeRef} {t n : Nat} {v : ValueId}

theorem Analysis.declaredClass?_of_classAt? (h : x.classAt? (some n) = some v) :
    x.declaredClass? a (some n) = some v := by
  rw [declaredClass?, h]

/-- The class of a node is the one that is declared, if none is declared on the way. -/
theorem Arena.Reaches.declaredClass?_eq (h : a.Reaches t n)
    (hnone : ∀ q, a.Reaches q n → q ≠ n → x.classAt? (some q) = none) :
    x.declaredClass? a (some t) = x.declaredClass? a (some n) := by
  have hne {t c n i : Nat} (hchild : a.child (some t) i = some c) (h : a.Reaches c n) : t ≠ n := by
    have hle := h.le
    have hlt := lt_of_mem_children (mem_children_of_child_eq_some hchild)
    omega
  induction h with
  | self => rfl
  | @statement t c n hkind hchild h ih =>
    rw [← ih hnone, ← hchild, declaredClass?, hnone t (.statement hkind hchild h) (hne hchild h)]
    simp [hkind]
  | @value t c n hkind hchild h ih =>
    rw [← ih hnone, ← hchild, declaredClass?, hnone t (.value hkind hchild h) (hne hchild h)]
    rcases hkind with hkind | hkind <;> simp [hkind]

/-- The class that a declaration makes is that of a node which the same comment governs. -/
theorem Arena.Shaped.governingTarget_of_declaredClass? (h : a.Shaped root)
    (habsent : x.valueOf? none = none) (ht : t ∈ a.listing root)
    (hv : x.declaredClass? a (some t) = some v) :
    ∃ q, x.classAt? (some q) = some v ∧ a.governingTarget q = a.governingTarget t := by
  induction t using Nat.strongRecOn with
  | ind t ih =>
    have hstep {i : Nat} (hpasses : ∀ c, a.child (some t) i = some c → a.passesOn t c = true)
        (hchild : x.declaredClass? a (a.child (some t) i) = some v) :
        ∃ q, x.classAt? (some q) = some v ∧ a.governingTarget q = a.governingTarget t := by
      cases hc : a.child (some t) i with
      | none =>
        rw [hc, declaredClass?, classAt?, habsent] at hchild
        cases hchild
      | some c =>
        rw [hc] at hchild
        have hgoverns := h.governingTarget_child ht hc (hpasses c hc)
        obtain ⟨q, hq, hqgoverns⟩ := ih c (lt_of_mem_children (mem_children_of_child_eq_some hc))
          (mem_listing_of_child ht hc) hchild
        exact ⟨q, hq, hqgoverns.trans hgoverns⟩
    rw [declaredClass?] at hv
    split at hv
    · next cls hcls => exact ⟨t, hv ▸ hcls, rfl⟩
    · split at hv
      · next hkind => exact hstep (fun c _ => by simp [passesOn, hkind]) hv
      · next hkind => exact hstep (fun c _ => by simp [passesOn, hkind]) hv
      · next hkind => exact hstep (fun c hc => by simp [passesOn, hkind, hc]) hv
      · next hkind => exact hstep (fun c hc => by simp [passesOn, hkind, hc]) hv
      · next hkind => exact hstep (fun c hc => by simp [passesOn, hkind, hc]) hv
      · cases hv

end DocTypes
