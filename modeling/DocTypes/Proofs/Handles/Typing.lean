import DocTypes.Proofs.Handles.Ancestors
import DocTypes.Proofs.Handles.Signature
import DocTypes.Typing.Declare

/-!
# Handles in the types of nodes

Giving types to nodes leads from a closed state to a closed one: a declared type is noted for
a value that is there, and every type that a node gets is known.

## Main statements

* `Typing.visit_runs`: typing one node leads to a closed state.
* `Typing.run_runs`: so does typing a whole tree.
-/

namespace DocTypes

namespace Typing

open Analysis

variable {x : Analysis}

/-! ## Sites -/

theorem valueKnown_of_slotAt? (hx : x.Closed) {site : NodeRef} {v : ValueId}
    (h : slotAt? x site = some v) : x.store.ValueKnown v :=
  hx.values site v (Option.filter_eq_some_iff.1 h).1

theorem isSome_class?_of_classAt? {r : NodeRef} {cls : ValueId} (h : x.classAt? r = some cls) :
    (x.store.values.class? cls).isSome := (Option.filter_eq_some_iff.1 h).2

theorem register_runs (hx : x.Closed) (site : NodeRef) {t : TypeId} (ht : x.store.Known t) :
    Runs Leads x (register site t) fun _ _ => True := by
  refine (setType_runs hx site ht).bind fun _ y hy _ => .get_bind ?_
  split
  · next v hv => exact declareType_runs hy.closed (valueKnown_of_slotAt? hy.closed hv) (hy.known ht)
  · exact pure_runs hy.closed trivial

theorem registerIfNew_runs (hx : x.Closed) (site : NodeRef) {t : TypeId} (ht : x.store.Known t) :
    Runs Leads x (registerIfNew site t) fun _ _ => True := by
  refine (setTypeIfNew_runs hx site ht).bind fun _ y hy _ => .get_bind ?_
  split
  · next v hv =>
    refine .ite (fun _ => ?_) fun _ => pure_runs hy.closed trivial
    exact declareType_runs hy.closed (valueKnown_of_slotAt? hy.closed hv) (hy.known ht)
  · exact pure_runs hy.closed trivial

theorem registerAll_runs (hx : x.Closed) (sites : List Nat) {t : TypeId} (ht : x.store.Known t) :
    Runs Leads x (sites.forM fun site => register (some site) t) fun _ _ => True :=
  .forM (.refl hx) fun _ _ _ hy => register_runs hy.closed _ (hy.known ht)

/-! ## Receivers -/

theorem isClassLike_of_class? {s : Store} {v : ValueId} (h : (s.values.class? v).isSome) :
    s.values.isClassLike v = true := ValueStore.isClassLike_iff.2 (.inl h)

/-- The class of the receiver of a function is a class or constructed class. -/
theorem isClassLike_of_receiverClass? (a : Arena) {function : NodeRef} {cls : ValueId}
    (h : x.receiverClass? a function = some cls) : x.store.values.isClassLike cls = true := by
  unfold receiverClass? at h
  split at h
  · split at h
    · cases h
    · exact isClassLike_of_class? (isSome_class?_of_classAt? h)
  · obtain ⟨v, -, hv⟩ := Option.bind_eq_some_iff.1 h
    exact isClassLike_of_classOf? hv

theorem isSome_class?_of_declaredClass? (a : Arena) {target : NodeRef} {cls : ValueId}
    (h : x.declaredClass? a target = some cls) : (x.store.values.class? cls).isSome := by
  fun_induction declaredClass? x a target with
  | case1 r c hc => exact isSome_class?_of_classAt? (hc.trans h)
  | case2 => cases h
  | case3 n _ _ ih => exact ih h
  | case4 n _ _ ih => exact ih h
  | case5 n _ _ ih => exact ih h
  | case6 n _ _ ih => exact ih h
  | case7 n _ _ ih => exact ih h
  | case8 => cases h

theorem receiverType?_runs (hx : x.Closed) (a : Arena) (function : NodeRef) :
    Runs Leads x (receiverType? a function) fun r y => ∀ t, r = some t → y.store.Known t := by
  refine .get_bind ?_
  split
  · next cls hcls =>
    have hlike := isClassLike_of_receiverClass? a hcls
    refine (onStore_runs hx (Store.instanceType_runs hx.store hlike)).bind fun t y hy ht => ?_
    exact pure_runs hy.closed fun u hu => Option.some.inj hu ▸ ht
  · exact pure_runs hx (by simp)

/-! ## Functions and classes -/

theorem function_runs (hx : x.Closed) (a : Arena) (node : NodeRef) :
    Runs Leads x (function a node) fun _ _ => True := by
  refine .get_bind (.ite (fun _ => pure_runs hx trivial) fun _ => ?_)
  refine (receiverType?_runs hx a node).bind fun receiver y hy hreceiver => ?_
  have hd : Signature.DeclarationKnown { function := node, receiver } y :=
    ⟨fun v hv => (Option.some_ne_none v hv.symm).elim, hreceiver⟩
  refine (Signature.functionType_runs hy.closed a none hd .normal).bind fun t z hz ht => ?_
  refine (setType_runs hz.closed node ht).bind fun _ w hw _ => ?_
  refine .ite (fun _ => ?_) fun _ => pure_runs hw.closed trivial
  exact registerIfNew_runs hw.closed _ (hw.known ht)

theorem classType_runs (hx : x.Closed) (a : Arena) (node : NodeRef) {cls : ValueId}
    (hcls : (x.store.values.class? cls).isSome) (doc : Option DocComment) :
    Runs Leads x (classType a node cls doc) fun t y => y.store.Known t := by
  refine .ite (fun _ => onStore_runs hx (Store.instanceOf_runs hx.store hcls)) fun _ => ?_
  generalize a.constructorMethod node = method
  obtain ⟨function, document⟩ := method
  have hd : Signature.DeclarationKnown { function, cls := some cls } x :=
    ⟨fun v hv => Option.some.inj hv ▸ hcls, fun t ht => nomatch ht⟩
  refine (Signature.functionType_runs hx a _ hd .constructor).bind fun t y hy ht => ?_
  dsimp only
  split
  · exact (setType_runs hy.closed _ ht).bind fun _ z hz _ => pure_runs hz.closed (hz.known ht)
  · exact pure_runs hy.closed ht

theorem classBody_runs (hx : x.Closed) (a : Arena) (node : NodeRef) (doc : Option DocComment) :
    Runs Leads x (classBody a node doc) fun t y => y.store.Known t := by
  refine .get_bind ?_
  split
  · next t ht => exact pure_runs hx (hx.types _ t ht)
  · exact pure_runs hx (x.store.known_of_lt (by decide))
  · next cls hcls =>
    have hclass := isSome_class?_of_classAt? hcls
    refine (classType_runs hx a node hclass doc).bind fun t y hy ht => ?_
    refine (setType_runs hy.closed node ht).bind fun _ z hz _ => ?_
    dsimp only
    split
    · exact (register_runs hz.closed _ (hz.known ht)).bind fun _ w hw _ =>
        pure_runs hw.closed (hw.known (hz.known ht))
    · exact pure_runs hz.closed (hz.known ht)

/-! ## Commented declarations -/

theorem enumMembers_runs (hx : x.Closed) (a : Arena) (site : NodeRef) (t : TypeId) :
    Runs Leads x (enumMembers a site t) fun _ _ => True := by
  have helement : x.store.Known ((x.store.types.aliasTarget? t).getD .unspecified) := by
    cases htarget : x.store.types.aliasTarget? t with
    | none => exact @Store.known_of_lt x.store .unspecified (by decide)
    | some target => exact hx.known_aliasTarget? htarget
  exact .get_bind (.forM (.refl hx) fun key _ y hy =>
    register_runs hy.closed key (hy.known helement))

theorem aliasSites_runs (hx : x.Closed) (a : Arena) (doc : DocComment) {d : Declaration}
    (hd : Signature.DeclarationKnown d x) (sites : List Nat) :
    Runs Leads x (aliasSites a doc d sites) fun _ _ => True := by
  induction sites generalizing x with
  | nil => exact pure_runs hx trivial
  | cons site rest ih =>
    have hnamed : Signature.DeclarationKnown { d with name := a.siteName (some site) } x :=
      ⟨hd.cls, hd.receiver⟩
    refine (Signature.declaredType_runs hx a doc hnamed).bind fun t x₁ h₁ ht => ?_
    refine (setType_runs h₁.closed _ ht).bind fun _ x₂ h₂ _ => ?_
    have hd₂ := (hd.mono h₁).mono h₂
    dsimp only
    split
    · refine (enumMembers_runs h₂.closed a _ t).bind fun _ x₃ h₃ _ => ?_
      exact ih h₃.closed (hd₂.mono h₃)
    · exact ih h₂.closed hd₂

theorem plainSites_runs (hx : x.Closed) (a : Arena) (doc : DocComment) {d : Declaration}
    (hd : Signature.DeclarationKnown d x) (sites : List Nat) :
    Runs Leads x (plainSites a doc d sites) fun _ _ => True := by
  have hnamed (name : Atom) : Signature.DeclarationKnown { d with name } x := ⟨hd.cls, hd.receiver⟩
  refine (Signature.declaredType_runs hx a doc (hnamed _)).bind fun t x₁ h₁ ht => ?_
  -- what follows the types of the function and of the node of the class
  have hcast {y : Analysis} (hy : y.Closed) (ht : y.store.Known t) :
      Runs Leads y (do
        sites.forM fun site => register (some site) t
        if sites.isEmpty && doc.kind = .type then
          Analysis.setType (a.castExpression doc.target) t) fun _ _ => True := by
    refine (registerAll_runs hy sites ht).bind fun _ z hz _ => ?_
    exact .ite (fun _ => setType_runs hz.closed _ (hz.known ht)) fun _ =>
      pure_runs hz.closed trivial
  refine .ite (fun _ => (setType_runs h₁.closed _ ht).bind fun _ y hy _ => ?_) fun _ =>
    have hy : x₁.Leads x₁ := .refl h₁.closed
    ?_
  all_goals
    have ht := hy.known ht
    refine .get_bind ?_
    dsimp only
    split
    · exact (setType_runs hy.closed _ ht).bind fun _ z hz _ => hcast hz.closed (hz.known ht)
    · exact hcast hy.closed ht

theorem declaration_runs (hx : x.Closed) (a : Arena) (doc : DocComment) (function : NodeRef)
    (sites : List Nat) : Runs Leads x (declaration a doc function sites) fun _ _ => True := by
  refine .get_bind ?_
  have hcls : ∀ v, x.declaredClass? a doc.target = some v → (x.store.values.class? v).isSome :=
    fun v hv => isSome_class?_of_declaredClass? a hv
  generalize x.declaredClass? a doc.target = cls at hcls
  have hnone : Runs Leads x (pure none : Analyze (Option TypeId)) fun receiver y =>
      ∀ t, receiver = some t → y.store.Known t := pure_runs hx (by simp)
  refine .ite (fun _ => (receiverType?_runs hx a function).bind fun receiver y hy hreceiver => ?_)
    fun _ => hnone.bind fun receiver y hy hreceiver => ?_
  all_goals
    have hd : Signature.DeclarationKnown { function, cls, receiver } y :=
      ⟨fun v hv => hy.class? (hcls v hv), hreceiver⟩
    split
    · exact aliasSites_runs hy.closed a doc hd sites
    · exact aliasSites_runs hy.closed a doc hd sites
    · exact plainSites_runs hy.closed a doc hd sites

theorem remainingOperands_runs (hx : x.Closed) (a : Arena) (document : NodeRef) :
    Runs Leads x (remainingOperands a document) fun _ _ => True := by
  refine .forM (.refl hx) fun tag _ y hy => .get_bind ?_
  refine .ite (fun _ => ?_) fun _ => pure_runs hy.closed trivial
  exact (TypeExpr.transform_runs hy.closed a _ _).discard

theorem annotated_runs (hx : x.Closed) (a : Arena) (node : NodeRef) :
    Runs Leads x (annotated a node) fun _ _ => True := by
  refine .get_bind ?_
  dsimp only
  split
  · split
    · refine (classBody_runs hx a _ _).bind fun t y hy ht => ?_
      exact (registerAll_runs hy.closed _ ht).bind fun _ z hz _ =>
        remainingOperands_runs hz.closed a _
    · exact (declaration_runs hx a _ _ _).bind fun _ y hy _ => remainingOperands_runs hy.closed a _
  · exact remainingOperands_runs hx a _

/-! ## The pass -/

theorem known_literalType? (s : Store) {kind : NodeKind} {t : TypeId}
    (h : literalType? kind = some t) :
    s.Known t := by
  unfold literalType? at h
  split at h
  all_goals first
    | cases h
      done
    | cases h
      exact s.known_of_lt (by decide)

/-- Typing one node leads to a closed state. -/
theorem visit_runs (hx : x.Closed) (a : Arena) (n : Nat) :
    Runs Leads x (visit a n) fun _ _ => True := by
  unfold visit
  split
  · exact pure_runs hx trivial
  · exact annotated_runs hx a _
  · exact (classBody_runs hx a _ none).discard
  · exact (classBody_runs hx a _ none).discard
  · refine .get_bind (.ite (fun _ => ?_) fun _ => pure_runs hx trivial)
    exact setTypeIfNew_runs hx _ (x.store.known_of_lt (by decide))
  · refine .ite (fun _ => function_runs hx a _) fun _ => ?_
    split
    · next t ht => exact setTypeIfNew_runs hx _ (known_literalType? x.store ht)
    · exact pure_runs hx trivial

theorem propagate_runs (hx : x.Closed) (v : ValueId) :
    Runs Leads x (propagate v) fun _ _ => True := by
  refine .get_bind ?_
  split
  · next t slot ht _ =>
    refine .forM (.refl hx) fun node _ y hy => ?_
    exact setTypeIfNew_runs hy.closed node (hy.known (hx.known_declaredType? ht))
  · exact pure_runs hx trivial

/-- Giving types to the nodes of a tree leads to a closed state. -/
theorem run_runs (hx : x.Closed) (a : Arena) (root : NodeRef) :
    Runs Leads x (run a root) fun _ _ => True := by
  refine (Runs.forM (.refl hx) fun n _ y hy => visit_runs hy.closed a n).bind
    fun _ y hy _ => .get_bind ?_
  refine (Runs.forM (.refl hy.closed) fun v _ z hz => propagate_runs hz.closed v).bind
    fun _ z hz _ => ?_
  exact onStore_runs hz.closed (Store.finalizeAllConstructed_runs hz.closed.store)

end Typing

end DocTypes
