import DocTypes.Proofs.Nodes.Absent
import DocTypes.Proofs.TypeExpr.Names
import DocTypes.Tree.Builder

/-!
# Types of classes

The value of a function or class body may be a class. The type of its node is then the type of the
class: the type of its constructor, or of its instances if it is an interface
(`Analysis.Describes`). That is so unless the comment that makes it a class is on a declaration list
and the node is not what initializes the first declaration of the list (`Arena.Leads`), for from the
comment only that one is found. A function elsewhere in the list is typed without its comment.

## Main statements

* `Signature.declaredType_describes`, `Typing.classType_describes`: the types that are
  made of classes.
* `Typing.annotated_types_function`, `Typing.annotated_types_class`: what the visit of a
  comment types.
* `Arena.Leads.defined_eq`, `Arena.Leads.declaredClass?_eq`: a node that leads is found
  from its comment.
* `Analysis.run_describes`: the types of nodes that stand for classes, after a run.
-/

namespace DocTypes

namespace Analysis

/-- A type is that of a class of a sort. -/
def Describes (x : Analysis) (t : TypeId) (cls : ValueId) : ClassKind → Prop
  | .ordinary => ∃ shape, x.store.types.key? t = some (.function shape) ∧ shape.kind =
      .constructor ∧
      x.store.types.key? shape.thisType = some (.instanceOf cls)
  | .interface | .record => x.store.types.key? t = some (.instanceOf cls)

/-- A node has the type of a class of a sort. -/
def Types (x : Analysis) (n : Nat) (cls : ValueId) (kind : ClassKind) : Prop :=
  ∃ t, x.typeOf? (some n) = some t ∧ x.Describes t cls kind

variable {a : Arena} {root q : NodeRef} {x y z : Analysis}

theorem Describes.mono {t : TypeId} {cls : ValueId} {kind : ClassKind} (h : x.Describes t cls kind)
    (hkeys : ∀ t key, x.store.types.key? t = some key → y.store.types.key? t = some key) :
    y.Describes t cls kind := by
  cases kind with
  | ordinary =>
    obtain ⟨shape, hkey, hkind, hthis⟩ := h
    exact ⟨shape, hkeys _ _ hkey, hkind, hkeys _ _ hthis⟩
  | interface | record => exact hkeys _ _ h

theorem Types.mono {n : Nat} {cls : ValueId} {kind : ClassKind} (h : x.Types n cls kind)
    (htype : y.typeOf? (some n) = x.typeOf? (some n))
    (hkeys : ∀ t key, x.store.types.key? t = some key → y.store.types.key? t = some key) :
    y.Types n cls kind := by
  obtain ⟨t, ht, hdescribes⟩ := h
  exact ⟨t, htype.trans ht, hdescribes.mono hkeys⟩

theorem Describes.ofInstance {t : TypeId} {cls : ValueId} {kind : ClassKind}
    (h : x.store.types.key? t = some (.instanceOf cls)) (hkind : kind ≠ .ordinary) :
    x.Describes t cls kind := by
  cases kind with
  | ordinary => exact (hkind rfl).elim
  | interface | record => exact h

/-! ## Steps -/

instance : Interpreting KeepsNames where
  interns h x := (TypeExpr.onTypes_evaluates h x).toKeepsNames
  targets t target x := (TypeExpr.setAliasTarget_evaluates t target x).toKeepsNames
  reports d hd x := (TypeExpr.report_evaluates d hd x).toKeepsNames

instance : Evaluating KeepsNames where
  applications := TypeExpr.application_moves fun node generic arguments x =>
    (TypeExpr.newConstructedClass_evaluates node generic arguments x).toKeepsNames

theorem setType_keepsNames (r : NodeRef) (t : TypeId) : Moves KeepsNames (setType r t) :=
  fun _ => ⟨rfl, rfl, .refl _, fun _ _ h => h⟩

instance (a : Arena) : Declaring a KeepsNames where
  typed _ _ _ := setType_keepsNames _ _
  cyclic _ _ := ⟨rfl, rfl, .refl _, fun _ _ h => h⟩
  aliases name tag x := by
    have hinterns : x.store.types.Interns (fun _ => True) (x.store.types.aliasOf name tag).2 :=
      .intern _ trivial
    exact .ofInterns hinterns

/-- A node is passed over, and no key changes. -/
structure Carries (a : Arena) (q : NodeRef) (x y : Analysis) : Prop where
  bypasses : Bypasses a q x y
  names : x.KeepsNames y

instance : Std.Refl (Carries a q) := ⟨fun _ => ⟨Std.Refl.refl _, .refl _⟩⟩

instance : IsTrans Analysis (Carries a q) :=
  ⟨fun _ _ _ h h' => ⟨IsTrans.trans _ _ _ h.bypasses h'.bypasses, h.names.trans h'.names⟩⟩

instance : Anchored (Carries a q) := ⟨fun _ => Std.Refl.refl _⟩

theorem carries_of {α : Type} {m : Analyze α} (hbypasses : Moves (Bypasses a q) m)
    (hnames : Moves KeepsNames m) : Moves (Carries a q) m := fun x => ⟨hbypasses x, hnames x⟩

instance : Interpreting (Carries a q) where
  interns h := carries_of (Interpreting.interns h) (Interpreting.interns h)
  targets t target := carries_of (Interpreting.targets t target) (Interpreting.targets t target)
  reports d hd := carries_of (Interpreting.reports d hd) (Interpreting.reports d hd)

instance : Evaluating (Carries a q) where
  applications a n := carries_of (Evaluating.applications a n) (Evaluating.applications a n)

instance : Declaring a (Carries a q) where
  typed n t hn := carries_of (Transforming.typed n t hn) (Transforming.typed (a := a) n t hn)
  cyclic n := carries_of (Transforming.cyclic n) (Transforming.cyclic n)
  aliases name tag := carries_of (Declaring.aliases a name tag) (Declaring.aliases a name tag)

/-- Steps of this sort leave the type of a class at its node. -/
theorem runs_types {α : Type} {m : Analyze α} {n : Nat}
    (h : MovesFrom (Carries a (some n)) x m) (hnode : ¬TypeExpr.IsTypeNode a n) {cls : ValueId}
    {kind : ClassKind} (htypes : x.Types n cls kind) :
    Runs KeepsNames x m fun _ y => y.Types n cls kind := by
  refine ⟨h.names, htypes.mono (h.bypasses.typeOf? ?_) h.names.keys⟩
  rintro k hk ⟨⟩
  exact hnode hk

/-- The node of a value stays the same. -/
theorem KeepsNames.node_eq (h : x.KeepsNames y) {v : ValueId} {node : Nat}
    (hnode : (x.store.values.get? v).bind (·.node) = some node) :
    (y.store.values.get? v).bind (·.node) = some node := by
  refine (h.values.node_eq ?_).trans hnode
  cases hget : x.store.values.get? v with
  | none => simp [hget] at hnode
  | some value => rfl

end Analysis

/-! ## Types of classes -/

theorem Binder.classKind_of_interface {doc : DocComment} (h : doc.kind = .interface) :
    classKind (some doc) ≠ .ordinary := by
  rw [classKind, if_pos h]
  split <;> decide

theorem Binder.classKind_of_not_interface {doc : Option DocComment}
    (h : ¬(doc.any fun x => x.kind = .interface) = true) : classKind doc = .ordinary := by
  cases doc with
  | none => rfl
  | some x => rw [classKind, if_neg (by simpa using h)]

namespace Signature

open Analysis TypeExpr

variable {a : Arena} {x : Analysis} {d : Declaration} {cls : ValueId}

theorem onTypes_intern_keys {f : TypeStore → TypeId × TypeStore} {key : TypeKey}
    (hf : f = (·.intern key)) (hkey : Ordinary key) (x : Analysis) :
    Runs KeepsNames x (onTypes f) fun t y => y.store.types.key? t = some key := by
  subst hf
  exact ⟨Interpreting.interns (fun types => .intern types hkey) x, x.store.types.key?_intern key⟩

theorem instanceTypeOf_keys (x : Analysis) (cls : ValueId) :
    Runs KeepsNames x (instanceTypeOf (some cls)) fun t y =>
      y.store.types.key? t = some (.instanceOf cls) :=
  onTypes_intern_keys rfl (by simp [Ordinary]) x

/-- The type of a constructor is that of its class. -/
theorem functionType_describes (doc : Option DocComment) (hd : d.cls = some cls) :
    Runs KeepsNames x (functionType a doc d .constructor) fun t y =>
      y.Describes t cls .ordinary := by
  unfold functionType
  rw [hd]
  refine (instanceTypeOf_keys x cls).bind fun thisType y _ hthis => ?_
  have hstep {α β : Type} {m : Analyze α} {f : α → Analyze β} {P : β → Analysis → Prop}
    {z : Analysis}
      (hz : y.KeepsNames z) (hm : Moves KeepsNames m)
      (hf : ∀ r w, y.KeepsNames w → Runs KeepsNames w (f r) P) : Runs KeepsNames z (m >>= f) P :=
    Runs.bind (P := fun _ _ => True) ⟨hm z, trivial⟩ fun r w hw _ => hf r w (hz.trans hw)
  refine hstep (.refl y) (parameters_moves doc _) fun parameters z hz => ?_
  refine hstep hz (returnType_moves doc) fun returnType z hz => .get_bind ?_
  refine hstep hz (internList_moves _) fun types z hz => ?_
  refine hstep hz (internList_moves _) fun typeParameters z hz => ?_
  refine (onTypes_intern_keys rfl (by simp [Ordinary]) z).weaken fun t w hw hkey => ?_
  exact ⟨_, hkey, rfl, hw.keys _ _ (hz.keys _ _ hthis)⟩

/-- The type that a comment gives to a class is that of the class. -/
theorem declaredType_describes {doc : DocComment} (hclass : doc.kind.isClass = true)
    (hd : d.cls = some cls) :
    Runs KeepsNames x (declaredType a doc d) fun t y => y.Describes t cls
      (Binder.classKind (some doc)) := by
  unfold declaredType
  cases hkind : doc.kind with
  | constructor =>
    rw [Binder.classKind_of_not_interface (by simp [hkind])]
    exact functionType_describes (some doc) hd
  | interface =>
    rw [hd]
    exact (instanceTypeOf_keys x cls).weaken fun t y _ hkey =>
      .ofInstance hkey (Binder.classKind_of_interface hkind)
  | _ => rw [hkind] at hclass; cases hclass

end Signature

namespace Typing

open Analysis Arena Signature

variable {a : Arena} {root : NodeRef} {x : Analysis} {n m t : Nat} {cls : ValueId}

/-- The type of a class body is that of its class. -/
theorem classType_describes (node : NodeRef) (doc : Option DocComment) :
    Runs KeepsNames x (classType a node cls doc) fun t y =>
      y.Describes t cls (Binder.classKind doc) := by
  unfold classType
  refine .ite (fun hdoc => ?_) fun hdoc => ?_
  · obtain ⟨doc, rfl⟩ : ∃ x, doc = some x := Option.isSome_iff_exists.1 (Option.isSome_of_any hdoc)
    refine (instanceTypeOf_keys x cls).weaken fun t y _ hkey => ?_
    exact .ofInstance hkey (Binder.classKind_of_interface (by simpa using hdoc))
  · rw [Binder.classKind_of_not_interface hdoc]
    generalize a.constructorMethod node = method
    obtain ⟨function, document⟩ := method
    refine (functionType_describes _ rfl).bind fun t y _ hdescribes => ?_
    dsimp only
    split
    · have hset := setType_keepsNames function t y
      exact ⟨hset, hdescribes.mono hset.keys⟩
    · exact .pure (.refl y) hdescribes

theorem setType_types {u : TypeId} {kind : ClassKind} (h : x.Describes u cls kind) :
    Runs KeepsNames x (setType (some n) u) fun _ y => y.Types n cls kind := by
  have hset := setType_keepsNames (some n) u x
  refine ⟨hset, u, ?_, h.mono hset.keys⟩
  rw [TypeExpr.typeOf?_setType, if_pos rfl]

theorem register_carries {site : NodeRef} (hsite : site ≠ some n) (u : TypeId) :
    Moves (Carries a (some n)) (register site u) := by
  refine carries_of (register_marks (bypasses_marking a none (some n)) hsite u)
    (.bind (setType_keepsNames site u) fun _ => .bind .get fun y => ?_)
  split
  · exact fun z => ⟨rfl, rfl, .refl _, fun _ _ h => h⟩
  · exact .pure _

theorem registerAll_carries {sites : List Nat} (hsites : ∀ site ∈ sites, some site ≠ some n)
    (u : TypeId) :
    Moves (Carries a (some n)) (sites.forM fun site => register (some site) u) :=
  .forM fun site hsite => register_carries (hsites site hsite) u

/-- A class body that has no type gets that of its class. -/
theorem classBody_types (hnode : ¬TypeExpr.IsTypeNode a n) (doc : Option DocComment)
    (huntyped : x.typeOf? (some n) = none) (hclass : x.classAt? (some n) = some cls) :
    Runs KeepsNames x (classBody a (some n) doc) fun _ y =>
      y.Types n cls (Binder.classKind doc) := by
  unfold classBody
  refine .get_bind ?_
  rw [huntyped, hclass]
  refine (classType_describes (some n) doc).bind fun u y _ hdescribes => ?_
  refine (setType_types hdescribes).bind fun _ z _ htypes => ?_
  have hname : a.child (some n) 0 ≠ some n := fun heq =>
    Nat.lt_irrefl n (lt_of_mem_children (mem_children_of_child_eq_some heq))
  dsimp only
  split
  · exact runs_types (.bind (register_carries hname u z) fun _ => .pure _) hnode htypes
  · exact .pure (.refl z) htypes

/-- A declaration gives the type of a class to the function that makes it. -/
theorem plainSites_types (hnode : ¬TypeExpr.IsTypeNode a n) {doc : DocComment}
    (hclass : doc.kind.isClass = true) (receiver : Option TypeId)
    (hsite : (x.store.values.get? cls).bind (·.node) = some n) {sites : List Nat}
    (hsites : ∀ site ∈ sites, some site ≠ some n) :
    Runs KeepsNames x (plainSites a doc { function := some n, cls := some cls, receiver } sites)
      fun _ y => y.Types n cls (Binder.classKind (some doc)) := by
  unfold plainSites
  refine (declaredType_describes hclass rfl).bind fun u y hy hdescribes => ?_
  have hfirst := setType_keepsNames (some n) u y
  refine .ite (fun _ => ?_) fun hnone => absurd rfl hnone
  have hstill : Runs KeepsNames y (setType (some n) u) fun _ z => z.Describes u cls _ :=
    ⟨hfirst, hdescribes.mono hfirst.keys⟩
  refine hstill.bind fun _ z hz hdescribes => .get_bind ?_
  dsimp only
  rw [(hy.trans hz).node_eq hsite]
  refine (setType_types hdescribes).bind fun _ w _ htypes => ?_
  refine runs_types (.bind (registerAll_carries hsites u w) fun _ =>
    .ite (fun hcast => ?_) fun _ => ?_)
    hnode htypes
  · rw [Bool.and_eq_true, decide_eq_true_iff] at hcast
    rw [hcast.2] at hclass
    cases hclass
  · exact .pure _

section Annotated

variable (hnode : ¬TypeExpr.IsTypeNode a n) (hchild : a.child (some m) 1 = some t)
  (hsites : ∀ site ∈ a.declarationSites (some t), some site ≠ some n)
  (huntyped : x.typeOf? (some n) = none)
include hnode hchild hsites huntyped

/-- The visit of a comment gives the type of a class to the class body below it. -/
theorem annotated_types_class (hfunction : a.definedFunction (some t) = none)
    (hbody : a.definedClass (some t) = some n) (hclass : x.classAt? (some n) = some cls) :
    Runs KeepsNames x (annotated a (some m)) fun _ y =>
      y.Types n cls (Binder.classKind
        (some (DocComment.silent a (a.child (some m) 0) (some t)))) := by
  unfold annotated
  refine .get_bind ?_
  rw [hchild, hfunction, hbody]
  refine (classBody_types hnode _ huntyped hclass).bind fun u y _ htypes => ?_
  exact runs_types (.bind (registerAll_carries hsites u y) fun _ => remainingOperands_moves _) hnode
    htypes

/-- The visit of a comment gives the type of a class to the function below it that
makes the class. -/
theorem annotated_types_function (hfunction : a.definedFunction (some t) = some n)
    (hbody : a.definedClass (some t) = none)
    (hclass : (DocComment.silent a (a.child (some m) 0) (some t)).kind.isClass = true)
    (hcls : x.declaredClass? a (some t) = some cls)
    (hsite : (x.store.values.get? cls).bind (·.node) = some n) :
    Runs KeepsNames x (annotated a (some m)) fun _ y =>
      y.Types n cls (Binder.classKind
        (some (DocComment.silent a (a.child (some m) 0) (some t)))) := by
  have hdeclaration :
    Runs KeepsNames x (declaration a (DocComment.silent a (a.child (some m) 0) (some t))
      (some n) (a.declarationSites (some t))) fun _ y => y.Types n cls
        (Binder.classKind (some (DocComment.silent a (a.child (some m) 0) (some t)))) := by
    unfold declaration
    refine .get_bind ?_
    rw [DocComment.target_silent, hcls]
    refine .ite (fun _ => ?_) fun hnone => absurd rfl hnone
    have hreceiver := receiverType?_moves (R := KeepsNames) a (some n) x
    refine Runs.bind (P := fun _ _ => True) ⟨hreceiver, trivial⟩ fun receiver y hy _ => ?_
    have hplain := plainSites_types hnode hclass receiver (hy.node_eq hsite) hsites
    revert hclass
    generalize DocComment.silent a (a.child (some m) 0) (some t) = doc at hplain ⊢
    intro hclass
    dsimp only
    split
    · next hkind => rw [hkind] at hclass; cases hclass
    · next hkind => rw [hkind] at hclass; cases hclass
    · exact hplain
  unfold annotated
  refine .get_bind ?_
  rw [hchild, hfunction]
  dsimp only
  rw [huntyped, hbody]
  refine hdeclaration.bind fun _ y _ htypes => ?_
  exact runs_types (remainingOperands_moves _ y) hnode htypes

end Annotated

end Typing

/-! ## Both ends of a comment -/

/-- A node is what initializes the first declaration of the list that its comment is on, if the
comment is on a list. -/
def Arena.Leads (a : Arena) (n : Nat) : Prop :=
  ∀ t, a.governingTarget n = some t → a.kind? (some t) = some .varStatement →
    a.child (a.child (some t) 0) 1 = some n

/-- Nothing is found in a node that is found in another search. -/
theorem Arena.defined_eq_none {a : Arena} {accept other : NodeKind → Bool} {n : Nat}
    {kind : NodeKind}
    (hkind : a.kind? (some n) = some kind) (haccept : accept kind = false)
    (hother : other kind = true)
    (hsees : SeesThrough other) : a.defined accept (some n) = none := by
  obtain ⟨hstatement, hlist, hassignment, hproperty⟩ := hsees
  rw [defined, hkind]
  dsimp only
  rw [haccept, if_neg (by decide)]
  split
  · exact absurd (hother.symm.trans hstatement) (by decide)
  · exact absurd (hother.symm.trans hlist) (by decide)
  · exact absurd (hother.symm.trans hassignment) (by decide)
  · exact absurd (hother.symm.trans hproperty) (by decide)
  · rfl

section Ends

open Analysis Arena

variable {a : Arena} {root : NodeRef} (h : a.Shaped root) (hc : a.Complete root) {n t : Nat}
  (hn : n ∈ a.code root)
  (hkind : a.isOf (fun kind => kind.isFunctionLike || kind.isClassLike) (some n) = true)
  (hleads : a.Leads n) (hgoverns : a.governingTarget n = some t)
include h hc hn hkind hleads hgoverns

/-- From the target of a comment the node is found that leads. -/
theorem Arena.Leads.defined_eq {accept : NodeKind → Bool} (haccept : SeesThrough accept) :
    a.defined accept (some t) = a.defined accept (some n) := by
  obtain ⟨kind, hkind, hfamily⟩ := kind?_of_isOf hkind
  have hunit : kind.isCompilationUnit = false := by revert hfamily; cases kind <;> decide
  rcases h.reaches_of_governingTarget hc hn hkind hunit hgoverns with hreaches | hlist
  · exact hreaches.defined_eq haccept
  · rw [defined_varStatement haccept hlist, hleads t hgoverns hlist]

/-- From the target of a comment the class of the node is found that leads. -/
theorem Arena.Leads.declaredClass?_eq {x : Analysis} (hx : x.Placed a root) {cls : ValueId}
    (hclass : x.classAt? (some n) = some cls) : x.declaredClass? a (some t) = some cls := by
  obtain ⟨kind, hkind', hfamily⟩ := kind?_of_isOf hkind
  have hunit : kind.isCompilationUnit = false := by revert hfamily; cases kind <;> decide
  have hnone {q : Nat} (hq : ∀ kind, ¬a.MakesClass root q kind) : x.classAt? (some q) = none := by
    cases hat : x.classAt? (some q) with
    | none => rfl
    | some v =>
      obtain ⟨data, -, -, hmakes⟩ := hx.node_of_classAt? hat
      exact (hq _ hmakes).elim
  rcases h.reaches_of_governingTarget hc hn hkind' hunit hgoverns with hreaches | hlist
  · refine (hreaches.declaredClass?_eq fun q hq hne => hnone fun _ hmakes => ?_).trans
      (declaredClass?_of_classAt? hclass)
    obtain ⟨-, hmakes⟩ := hmakes
    cases hq with
    | self => exact hne rfl
    | value hqkind _ _ => rcases hqkind with hqkind | hqkind <;> simp [hqkind] at hmakes
    | statement hqkind hchild hbelow =>
      -- what the statement consists of leads on, and no member does
      rw [hqkind, hchild, isKind_iff] at hmakes
      cases hbelow with
      | self =>
        cases hkind'.symm.trans hmakes
        cases hfamily
      | statement hckind _ _ => cases hckind.symm.trans hmakes
      | value hckind _ _ => rcases hckind with hckind | hckind <;> cases hckind.symm.trans hmakes
  · have hinit := hleads t hgoverns hlist
    obtain ⟨d, -, hd, -⟩ := kind?_of_child hinit
    obtain ⟨m, hm, -, -, ht, -, -⟩ := h.code_of_governingTarget hn hkind' hunit hgoverns
    have hdkind := h.kind?_child (mem_listing_of_child (mem_listing_of_mem_code hm) ht) hlist rfl hd
    have htnone : x.classAt? (some t) = none := hnone fun _ ⟨_, hmakes⟩ => by simp [hlist] at hmakes
    have hdnone : x.classAt? (some d) = none := hnone fun _ ⟨_, hmakes⟩ => by
      rw [hdkind, ← hd, hinit, hkind] at hmakes
      cases hmakes
    rw [declaredClass?, htnone, hlist, hd, declaredClass?, hdnone, hdkind, ← hd, hinit]
    exact declaredClass?_of_classAt? hclass

end Ends

/-! ## The third pass -/

namespace Typing

open Analysis Arena

section Visits

variable {a : Arena} {root : NodeRef} (h : a.Shaped root) (hc : a.Complete root) {x : Analysis}
  (hx : x.Placed a root) {n : Nat}
  (hkind : a.isOf (fun kind => kind.isFunctionLike || kind.isClassLike) (some n) = true)
  {cls : ValueId} (hclass : x.classAt? (some n) = some cls)
include hkind hclass

/-- The visit of a function or class that stands for a class gives it a type. -/
theorem visit_types : ((visit a n x).2.typeOf? (some n)).isSome := by
  cases htype : x.typeOf? (some n) with
  | some t =>
    rw [visit_of_typed hkind (Option.isSome_of_eq_some htype), htype]
    rfl
  | none =>
    obtain ⟨kind, hkind, hfamily⟩ := kind?_of_isOf hkind
    rcases Bool.or_eq_true _ _ ▸ hfamily with hfunction | hbody
    · rw [visit_function hkind hfunction]
      exact (function_types a (some n) x).1
    · rw [visit_class hkind hbody]
      have hnode : ¬TypeExpr.IsTypeNode a n := by
        rw [TypeExpr.IsTypeNode, hkind]
        revert hbody
        cases kind <;> decide
      obtain ⟨-, t, ht, -⟩ := classBody_types hnode none htype hclass
      exact Option.isSome_of_eq_some ht

/-- A function or class that stands for a class is typed in the end. -/
theorem run_types_some (hclosed : x.Closed) (hn : n ∈ a.code root) :
    ((run a root x).2.typeOf? (some n)).isSome := by
  obtain ⟨before, after, hsplit⟩ := List.append_of_mem hn
  have hbefore := visits_sameSites a before x
  exact run_typed hsplit hclosed (visit_types hkind ((hbefore.classAt?_eq _).trans hclass))

include h hc hx

omit hclass in
/-- What one visit types goes on to have the type of its class, if no other visit
types it before. -/
theorem run_types_of_visit (hclosed : x.Closed) (hq : a.Apart root (some n))
    {before after : List Nat}
    {m : Nat} (hsplit : a.code root = before ++ m :: after) (hbefore : n ∉ before)
    (helsewhere : ∀ k ∈ before ++ after, a.kind? (some k) = some .annotated →
      ∀ t, a.child (some k) 1 = some t → a.Elsewhere (some n) t) {kind : ClassKind}
    (hvisit : ∀ y, Bypasses a (some n) x y → (visit a m y).2.Types n cls kind) :
    (run a root x).2.Types n cls kind := by
  have hcode {k : Nat} (hk : k ∈ before ++ m :: after) : k ∈ a.code root := hsplit ▸ hk
  have hfirst : Bypasses a (some n) x (before.forM (visit a) x).2 := by
    refine visits_bypass h hc hx hq fun k hk => ⟨hcode (List.mem_append_left _ hk), ?_, ?_⟩
    · rintro ⟨⟩
      exact hbefore hk
    · exact helsewhere k (List.mem_append_left _ hk)
  have hfirstLeads := visits_lead hclosed a before
  rw [run_split hsplit]
  generalize (before.forM (visit a) x).2 = y at hfirst hfirstLeads
  have hm : m ∈ a.code root := hcode (List.mem_append_right _ List.mem_cons_self)
  have hz := (visit_moves (a := a) (R := SameSites) m y).placed (hfirst.placed hx)
  have hzLeads := (visit_runs hfirstLeads.closed a m).1
  have htypes := hvisit y hfirst
  generalize (visit a m y).2 = z at hz hzLeads htypes
  have htyped : (z.typeOf? (some n)).isSome := by
    obtain ⟨t, ht, -⟩ := htypes
    exact Option.isSome_of_eq_some ht
  have hafter : Bypasses a (some n) z (after.forM (visit a) z).2 := by
    refine visits_bypass_typed h hc hz hq hkind htyped fun k hk => ⟨?_, ?_⟩
    · exact hcode (List.mem_append_right _ (List.mem_cons_of_mem _ hk))
    · exact helsewhere k (List.mem_append_right _ hk)
  have hafterLeads := visits_lead hzLeads.closed a after
  generalize (after.forM (visit a) z).2 = w at hafter hafterLeads
  have hfinish : Bypasses a (some n) w (finish w).2 :=
    finish_bypasses (hafter.placed hz) hq.typeNode (.inr (by rwa [hafter.typeOf? hq.typeNode]))
  have hfinishLeads := finish_leads hafterLeads.closed
  refine htypes.mono ((hfinish.typeOf? hq.typeNode).trans (hafter.typeOf? hq.typeNode)) fun t key
    hkey => ?_
  exact hfinishLeads.store.keeps.key t key (hafterLeads.store.keeps.key t key hkey)

end Visits

section Classes

variable {a : Arena} {root : NodeRef} (h : a.Shaped root) (hc : a.Complete root) {x : Analysis}
  (hx : x.Placed a root) {n : Nat} {kind : NodeKind} (hkind : a.kind? (some n) = some kind)
  (hfamily : (kind.isFunctionLike || kind.isClassLike) = true) (hq : a.Apart root (some n))
  {cls : ValueId} (hclass : x.classAt? (some n) = some cls) (huntyped : x.typeOf? (some n) = none)
  {sort : ClassKind} (hmakes : a.MakesClass root n sort)
include h hc hx hkind hfamily hq hclass huntyped hmakes

/-- The visit of the comment that governs a class types the class, if it leads. -/
theorem visit_types_governed {t m : Nat} (hgoverns : a.governingTarget n = some t)
    (hleads : a.Leads n)
    (hm : m ∈ a.code root) (hparent : a.parent (some t) = some m)
    (hannotated : a.kind? (some m) = some .annotated) (hchild : a.child (some m) 1 = some t) :
    (visit a m x).2.Types n cls sort := by
  obtain ⟨hn, hmakes⟩ := hmakes
  have hisOf : a.isOf (fun kind => kind.isFunctionLike || kind.isClassLike) (some n) = true :=
    isOf_of_kind? hkind hfamily
  have hnode : ¬TypeExpr.IsTypeNode a n := fun htype => hq.typeNode n htype rfl
  have hsites : ∀ site ∈ a.declarationSites (some t), some site ≠ some n := fun site hsite =>
    have ht := mem_code_of_child hm hannotated (by decide) hchild
    hq.ne_of_isSite (h.isSite_of_mem_declarationSites ht hsite).2
  have hfound {accept : NodeKind → Bool} (haccept : SeesThrough accept) :=
    hleads.defined_eq h hc hn hisOf hgoverns haccept
  have hdoc : a.governingDoc n = some (DocComment.silent a (a.child (some m) 0) (some t)) := by
    rw [governingDoc, hgoverns, Option.map_some, commentOn, hparent]
  rw [hkind, hdoc] at hmakes
  rw [visit_annotated hannotated]
  rcases Bool.or_eq_true _ _ ▸ hfamily with hfunction | hbody
  · have hother : kind.isClassLike = false := by revert hfunction; cases kind <;> decide
    obtain ⟨hclassDoc, rfl⟩ :
      (DocComment.silent a (a.child (some m) 0) (some t)).kind.isClass = true ∧
        sort = Binder.classKind (some (DocComment.silent a (a.child (some m) 0) (some t))) := by
      revert hmakes hfunction
      cases kind <;> simp [NodeKind.isFunctionLike]
    obtain ⟨-, -, hsite, -⟩ := hx.node_of_classAt? hclass
    refine (annotated_types_function hnode hchild hsites huntyped ?_ ?_ hclassDoc ?_ hsite).2
    · exact (hfound seesThrough_isFunctionLike).trans (defined_self hkind hfunction)
    · exact (hfound seesThrough_isClassLike).trans
        (defined_eq_none hkind hother hfunction seesThrough_isFunctionLike)
    · exact hleads.declaredClass?_eq h hc hn hisOf hgoverns hx hclass
  · have hother : kind.isFunctionLike = false := by revert hbody; cases kind <;> decide
    obtain rfl :
      sort = Binder.classKind (some (DocComment.silent a (a.child (some m) 0) (some t))) := by
      revert hmakes hbody
      cases kind <;> simp [NodeKind.isClassLike]
    refine (annotated_types_class hnode hchild hsites huntyped ?_ ?_ hclass).2
    · exact (hfound seesThrough_isFunctionLike).trans
        (defined_eq_none hkind hother hbody seesThrough_isClassLike)
    · exact (hfound seesThrough_isClassLike).trans (defined_self hkind hbody)

omit h hc hx in
/-- The visit of a class body without a comment types the class. -/
theorem visit_types_ungoverned (hgoverns : a.governingTarget n = none) :
    (visit a n x).2.Types n cls sort := by
  have hnode : ¬TypeExpr.IsTypeNode a n := fun htype => hq.typeNode n htype rfl
  have hdoc : a.governingDoc n = none := by rw [governingDoc, hgoverns]; rfl
  obtain ⟨-, hmakes⟩ := hmakes
  obtain ⟨hbody, rfl⟩ : kind.isClassLike = true ∧ sort = .ordinary := by
    rw [hkind, hdoc] at hmakes
    revert hmakes hfamily
    cases kind <;> simp [NodeKind.isFunctionLike, NodeKind.isClassLike, Binder.classKind]
  rw [visit_class hkind hbody]
  exact (classBody_types hnode none huntyped hclass).2

/-- A class that leads has the type of the class in the end. -/
theorem run_types (hclosed : x.Closed) (hleads : a.Leads n) :
    (run a root x).2.Types n cls sort := by
  have hn := hmakes.1
  have hisOf : a.isOf (fun kind => kind.isFunctionLike || kind.isClassLike) (some n) = true :=
    isOf_of_kind? hkind hfamily
  have hlater {y : Analysis} (hy : Bypasses a (some n) x y) : y.Placed a root ∧
      y.classAt? (some n) = some cls ∧ y.typeOf? (some n) = none :=
    ⟨hy.placed hx, (hy.classAt?_eq (some n)).trans hclass, (hy.typeOf? hq.typeNode).trans huntyped⟩
  cases hgoverns : a.governingTarget n with
  | none =>
    obtain ⟨before, after, hsplit, hbeside⟩ := h.exists_split hn
    refine run_types_of_visit h hc hx hisOf hclosed hq hsplit
      (fun hmem => hbeside (List.mem_append_left _ hmem))
      (fun _ _ _ t _ => elsewhere_of_ungoverned hgoverns t) fun y hy => ?_
    obtain ⟨-, hclass, huntyped⟩ := hlater hy
    exact visit_types_ungoverned hkind hfamily hq hclass huntyped hmakes hgoverns
  | some t =>
    have hunit : kind.isCompilationUnit = false := by revert hfamily; cases kind <;> decide
    obtain ⟨m, hm, hparent, hannotated, hchild, hlt, hbelow⟩ :=
      h.code_of_governingTarget hn hkind hunit hgoverns
    obtain ⟨before, after, hsplit, hbeside, hbefore, -⟩ := h.code_split hm hbelow (Nat.ne_of_lt hlt)
    refine run_types_of_visit h hc hx hisOf hclosed hq hsplit hbefore (fun k hk _ t' hchild' => ?_)
      fun y hy => ?_
    · refine h.elsewhere_of_ne hgoverns hparent ?_ (fun heq => hbeside (heq ▸ hk)) hchild'
      rw [hsplit]
      exact (List.mem_append.1 hk).elim (List.mem_append_left _)
        fun hk => List.mem_append_right _ (List.mem_cons_of_mem _ hk)
    · obtain ⟨hy, hclass, huntyped⟩ := hlater hy
      exact visit_types_governed h hc hy hkind hfamily hq hclass huntyped hmakes hgoverns hleads hm
        hparent hannotated hchild

end Classes

end Typing

namespace Analysis

open Arena

variable {a : Arena} {root : NodeRef}

/-- After a run every function or class body that stands for a class has a type. It is the type of
the class if the node leads: the type of constructors whose receiver is an instance of the class, or
the type of instances if the class is an interface. -/
theorem run_describes (h : a.Shaped root) (hc : a.Complete root) (options : Options) {n : Nat}
    (hkind : a.isOf (fun kind => kind.isFunctionLike || kind.isClassLike) (some n) = true)
    {cls : ValueId} (hclass : (run a root options).classAt? (some n) = some cls) {data : ClassData}
    (hdata : (run a root options).store.values.class? cls = some data) :
    ((run a root options).typeOf? (some n)).isSome ∧
      (a.Leads n → (run a root options).Types n cls data.kind) := by
  obtain ⟨hplaced, huntyped⟩ := runPasses_placed h hc (options.reports a root)
  have hclosed := (runPasses_steps a (options.reports a root) root 2).closed
  rw [run, runPasses_three] at hclass hdata ⊢
  generalize runPasses a (options.reports a root) root 2 =
    x at hplaced huntyped hclosed hclass hdata ⊢
  have hsame := Typing.run_sameSites a root x
  rw [hsame.classAt?_eq] at hclass
  obtain ⟨data', hdata', -, hmakes⟩ := hplaced.node_of_classAt? hclass
  have hsort : data'.kind = data.kind := by
    obtain ⟨data'', hdata'', hsort, -⟩ := ValueStore.classSite?_eq_some_iff.1
      ((hsame.sites.classes cls).symm.trans
        (ValueStore.classSite?_eq_some_iff.2 ⟨data, hdata, rfl, rfl⟩))
    cases hdata'.symm.trans hdata''
    exact hsort
  obtain ⟨kind, hkind', hfamily⟩ := kind?_of_isOf hkind
  have hmethod : kind ≠ .method := by
    rintro rfl
    obtain ⟨-, hmakes⟩ := hmakes
    rw [hkind'] at hmakes
    exact hmakes
  have hq : a.Apart root (some n) := by
    refine apart_of_kind? hkind' ?_ hmethod ?_ <;> revert hfamily <;> cases kind <;> decide
  refine ⟨Typing.run_types_some hkind hclass hclosed hmakes.1, fun hleads => ?_⟩
  rw [← hsort]
  exact Typing.run_types h hc hplaced hkind' hfamily hq hclass (huntyped _ hq) hmakes hclosed hleads

/-- `/** @constructor */ var A = function () {}, B = function () {};` -/
def constructorPair : Build NodeRef := do
  let document ← Builder.document [← Builder.tag "constructor" []]
  let first ← Builder.functionExpression none (← Builder.parameters []) []
  let second ← Builder.functionExpression none (← Builder.parameters []) []
  let list ← Builder.declarationList Flags.empty
    [← Builder.declaration (← Builder.bindingName "A") first,
      ← Builder.declaration (← Builder.bindingName "B") second]
  Builder.script [← Builder.annotated document list]

/-- Both functions in this tree make a class and have a type. That of the first is the type of its
class. -/
theorem constructorPair_describes :
    let tree := constructorPair Builder.new
    let x := run tree.2.arena tree.1 {}
    x.classAt? (some 4) = some ⟨1003⟩ ∧ x.Types 4 ⟨1003⟩ .ordinary ∧
      x.classAt? (some 7) = some ⟨1005⟩ ∧ (x.typeOf? (some 7)).isSome := by
  intro tree x
  obtain ⟨hshaped, hcomplete⟩ : tree.2.arena.Shaped tree.1 ∧ tree.2.arena.Complete tree.1 := by
    decide +kernel
  have hkinds : tree.2.arena.kind? (some 4) = some .functionExpression ∧
      tree.2.arena.kind? (some 7) = some .functionExpression := by decide +kernel
  have hleads : tree.2.arena.Leads 4 := by
    have hgoverns : tree.2.arena.governingTarget 4 = some 12 := by decide +kernel
    intro t ht _
    cases hgoverns.symm.trans ht
    decide +kernel
  obtain ⟨hfirst, hsecond, hsort, hthere⟩ : x.classAt? (some 4) = some ⟨1003⟩ ∧
      x.classAt? (some 7) = some ⟨1005⟩ ∧
      (x.store.values.class? ⟨1003⟩).map (·.kind) = some .ordinary ∧
      (x.store.values.class? ⟨1005⟩).isSome := by decide +kernel
  obtain ⟨data, hdata, hsort⟩ := Option.map_eq_some_iff.1 hsort
  obtain ⟨data', hdata'⟩ := Option.isSome_iff_exists.1 hthere
  refine ⟨hfirst, ?_, hsecond, ?_⟩
  · rw [← hsort]
    exact (run_describes hshaped hcomplete {} (by rw [Arena.isOf, hkinds.1]; rfl) hfirst hdata).2
      hleads
  · exact (run_describes hshaped hcomplete {} (by rw [Arena.isOf, hkinds.2]; rfl) hsecond hdata').1

/-- The type of the second function in this tree is not that of its class. -/
theorem constructorPair_differs :
    let tree := constructorPair Builder.new
    ¬(run tree.2.arena tree.1 {}).Types 7 ⟨1005⟩ .ordinary := by
  rintro tree ⟨t, ht, shape, hkey, hkind, -⟩
  have hnormal : (((run tree.2.arena tree.1 {}).typeOf? (some 7)).bind
      (run tree.2.arena tree.1 {}).store.types.key?).any
        (fun key => key.shape?.any (·.kind = .normal)) = true := by decide +kernel
  rw [ht, Option.bind_some, hkey, Option.any_some, TypeKey.shape?, Option.any_some,
    decide_eq_true_iff, hkind] at hnormal
  cases hnormal

end Analysis

end DocTypes
