import DocTypes.Proofs.Handles.Steps
import DocTypes.TypeExpr.Transform

/-!
# Handles in type expressions

Working out a type expression leads from a closed state to a closed one, whatever nodes the
expression is made of, and what it means is a known type.

## Main statements

* `TypeExpr.meaning_runs`: the meaning of one node is known.
* `TypeExpr.enter_runs`, `TypeExpr.transform_runs`: so are those of all nodes below one.
-/

namespace DocTypes

namespace TypeExpr

open Analysis

variable {x : Analysis}

/-- The type in a meaning is known. -/
def MeaningKnown (x : Analysis) : Meaning → Prop
  | .type t | .expansion t _ => x.store.Known t
  | .nothing => True

theorem known_builtinType? (s : Store) {name : String} {t : TypeId}
    (h : builtinType? name = some t) :
    s.Known t := by
  unfold builtinType? at h
  split at h
  all_goals first
    | cases h
      done
    | cases h
      exact s.known_of_lt (by decide)

theorem union2_runs (hx : x.Closed) {t u : TypeId} (ht : x.store.Known t) (hu : x.store.Known u) :
    Runs Leads x (union2 t u) fun r y => y.store.Known r := by
  refine onStore_runs hx (Store.union_runs hx.store ?_)
  rintro v (_ | ⟨_, _ | ⟨_, hv⟩⟩)
  · exact ht
  · exact hu
  · cases hv

/-- The union of a type with an intrinsic type. -/
theorem unionWith_runs (hx : x.Closed) {t u : TypeId} (ht : x.store.Known t)
    (hu : u.index < TypeKey.intrinsics.length) :
    Runs Leads x (do return Meaning.type (← union2 t u)) fun m y => MeaningKnown y m :=
  (union2_runs hx ht (x.store.known_of_lt hu)).bind fun _ _ hy hr => pure_runs hy.closed hr

theorem setAliasTarget_runs (hx : x.Closed) {t target : TypeId} (ht : x.store.Known t)
    (htarget : x.store.Known target) :
    Runs Leads x (onTypes fun types => ((), types.setAliasTarget t target)) fun _ _ => True :=
  onStore_runs hx (Store.setAliasTarget_runs hx.store ht htarget)

theorem defaultTarget_runs (hx : x.Closed) (a : Arena) {t : TypeId} (ht : x.store.Known t)
    (tag : NodeRef) : Runs Leads x (defaultTarget a t tag) fun r y => y.store.Known r := by
  have htarget (s : Store) :
      s.Known (if a.text tag = "enum" then TypeId.number else .unspecified) := by
    split <;> exact s.known_of_lt (by decide)
  exact (setAliasTarget_runs hx ht (htarget _)).bind fun _ _ hy _ => pure_runs hy.closed (htarget _)

/-! ## Names -/

theorem named_runs (hx : x.Closed) (a : Arena) {t : TypeId} (ht : x.store.Known t) :
    Runs Leads x (named a t) fun m y => MeaningKnown y m := by
  refine .get_bind ?_
  dsimp only
  split
  · exact unionWith_runs hx ht (by decide)
  · exact unionWith_runs hx ht (by decide)
  · split
    · next target htarget => exact pure_runs hx (hx.known_aliasTarget? htarget)
    · split
      · exact pure_runs hx ht
      · exact (defaultTarget_runs hx a ht _).bind fun _ _ hy hr => pure_runs hy.closed hr
  · exact pure_runs hx ht

theorem typeName_runs (hx : x.Closed) (a : Arena) (n : Nat) :
    Runs Leads x (typeName a n) fun m y => MeaningKnown y m := by
  have hunspecified {y : Analysis} (hy : y.Closed) : Runs Leads y
      (pure (Meaning.type TypeId.unspecified) : Analyze Meaning) fun m y => MeaningKnown y m :=
    pure_runs hy (y.store.known_of_lt (by decide))
  refine .get_bind ?_
  split
  · split
    · next t ht => exact named_runs hx a (hx.types _ t ht)
    · refine pure_runs hx ?_
      cases hbuiltin : builtinType? (a.text (a.child (some n) 0)) with
      | some t => exact known_builtinType? x.store hbuiltin
      | none => exact x.store.known_of_lt (by decide)
  · split
    · next v hv =>
      split
      · next t ht => exact named_runs hx a (hx.known_namedType? ht)
      · have hdenoted := hx.valueKnown_denote (hx.valueKnown_resolvePath a hv)
        have hmeaning (t : TypeId) (y : Analysis) (hy : x.Leads y) (ht : y.store.Known t) :=
          unionWith_runs hy.closed ht (u := .null) (by decide)
        dsimp only
        split
        · next hclass =>
          exact (onStore_runs hx (Store.instanceType_runs hx.store hclass)).bind hmeaning
        · exact (onStore_runs hx (Store.reference_runs hx.store hdenoted)).bind hmeaning
    · dsimp only
      split
      · exact (reportAt_runs hx a _ _).bind fun _ _ hy _ => hunspecified hy.closed
      · exact hunspecified hx
  · exact hunspecified hx

/-- What an applied name is bound to is a class. -/
theorem isSome_class?_appliedClass? (hx : x.Closed) {a : Arena} {name : NodeRef} {cls : ValueId}
    (h : appliedClass? x a name = some (some cls)) : (x.store.values.class? cls).isSome :=
  isSome_class?_of_appliedClass? h hx.store.named

theorem childType_runs (hx : x.Closed) (a : Arena) (r : NodeRef) (i : Nat) :
    Runs Leads x (childType a r i) fun t y => y.store.Known t :=
  .get_bind (pure_runs hx (hx.known_typeOf _))

theorem childTypes_runs (hx : x.Closed) (a : Arena) (n skip : Nat) :
    Runs Leads x (childTypes a n skip) fun ts y => ∀ t ∈ ts, y.store.Known t := by
  refine .get_bind (pure_runs hx fun t ht => ?_)
  obtain ⟨r, -, rfl⟩ := List.mem_map.1 ht
  exact hx.known_typeOf r

theorem application_runs (hx : x.Closed) (a : Arena) (n : Nat) :
    Runs Leads x (application a n) fun t y => y.store.Known t := by
  have hunspecified (y : Analysis) : y.store.Known .unspecified := y.store.known_of_lt (by decide)
  refine .get_bind ?_
  split
  · exact pure_runs hx (hunspecified x)
  · exact (reportAt_runs hx a _ _).bind fun _ y hy _ => pure_runs hy.closed (hunspecified y)
  · next cls hcls =>
    have hclass := isSome_class?_appliedClass? hx hcls
    refine (childTypes_runs hx a n 1).bind fun types x₁ h₁ htypes => ?_
    refine (onStore_runs h₁.closed
      (Store.instanceOf_runs h₁.closed.store (h₁.class? hclass))).bind ?_
    intro raw x₂ h₂ hraw
    -- with the wrong number of types it is the class itself
    have hplain (problem : Problem) :=
      (reportAt_runs h₂.closed a problem (some n)).bind fun _ y hy _ =>
      union2_runs hy.closed (hy.known hraw) (y.store.known_of_lt (t := .null) (by decide))
    refine .ite (fun _ => hplain _) fun _ => .ite (fun _ => hplain _) fun _ => ?_
    have hlist := onStore_runs h₂.closed
      (Store.internList_runs h₂.closed.store fun t ht => h₂.known (htypes t ht))
    refine hlist.bind fun arguments x₃ h₃ harguments => ?_
    have hgeneric := h₃.class? (h₂.class? (h₁.class? hclass))
    refine (onStore_runs h₃.closed (Store.newConstructedClass_runs h₃.closed.store (some n) hgeneric
      harguments)).bind fun constructed x₄ h₄ hconstructed => ?_
    refine (onStore_runs h₄.closed (Store.constructedInstanceOf_runs h₄.closed.store
      hconstructed)).bind fun t x₅ h₅ ht => ?_
    exact union2_runs h₅.closed ht (x₅.store.known_of_lt (by decide))

/-! ## Composite types -/

theorem nonNullable_runs (hx : x.Closed) (a : Arena) (n : Nat) :
    Runs Leads x (nonNullable a n) fun t y => y.store.Known t := by
  refine (childType_runs hx a _ _).bind fun inner y hy hinner => .get_bind ?_
  refine .ite (fun _ => ?_) fun _ => .ite (fun _ => ?_) fun _ => pure_runs hy.closed hinner
  · exact onStore_runs hy.closed
      (Store.removeMember_runs hy.closed.store hinner (y.store.known_of_lt (by decide)))
  · exact (reportAt_runs hy.closed a _ _).bind fun _ _ hz _ => pure_runs hz.closed (hz.known hinner)

theorem known_memberType (hx : x.Closed) (a : Arena) (member : NodeRef) :
    x.store.Known (memberType x a member) := by
  unfold memberType
  split
  · exact x.store.known_of_lt (by decide)
  · exact hx.known_typeOf _

theorem fields_runs (hx : x.Closed) (a : Arena) (members : List NodeRef)
    {read : List (Atom × TypeId)} (reported : List Atom)
    (hread : ∀ field ∈ read, x.store.Known field.2) :
    Runs Leads x (fields a read reported members) fun fields y =>
      ∀ field ∈ fields, y.store.Known field.2 := by
  induction members generalizing x read reported with
  | nil => exact pure_runs hx hread
  | cons member rest ih =>
    unfold fields
    refine .ite (fun _ => .ite (fun _ => ih hx reported hread) fun _ => ?_) fun _ => .get_bind ?_
    · exact (reportAt_runs hx a _ _).bind fun _ y hy _ =>
        ih hy.closed _ fun field hfield => hy.known (hread field hfield)
    · refine ih hx reported fun field hfield => ?_
      rcases List.mem_append.1 hfield with hfield | hfield
      · exact hread field hfield
      · rw [List.mem_singleton.1 hfield]
        exact known_memberType hx a member

/-- The types in a function type under construction are known. -/
def SignatureKnown (x : Analysis) (s : Signature) : Prop :=
  x.store.Known s.thisType ∧ ∀ t ∈ s.parameters, x.store.Known t

theorem SignatureKnown.mono {y : Analysis} (h : x.Leads y) {s : Signature}
    (hs : SignatureKnown x s) :
    SignatureKnown y s := ⟨h.known hs.1, fun t ht => h.known (hs.2 t ht)⟩

theorem pushParameter_runs (hx : x.Closed) (a : Arena) {s : Signature} (hs : SignatureKnown x s)
    (param : NodeRef) :
    Runs Leads x (pushParameter a s param) fun s y => SignatureKnown y s := by
  have hpush {y : Analysis} (h : x.Leads y) (count : ArityCount) : SignatureKnown y
      { s with parameters := s.parameters ++ [y.typeOf param], count } := by
    refine ⟨h.known hs.1, fun t ht => ?_⟩
    rcases List.mem_append.1 ht with ht | ht
    · exact h.known (hs.2 t ht)
    · exact List.mem_singleton.1 ht ▸ h.closed.known_typeOf param
  unfold pushParameter
  split
  · exact (childType_runs hx a _ _).bind fun t y hy ht => pure_runs hy.closed ⟨ht, (hs.mono hy).2⟩
  · exact (childType_runs hx a _ _).bind fun t y hy ht => pure_runs hy.closed ⟨ht, (hs.mono hy).2⟩
  · dsimp only
    split
    · exact (reportAt_runs hx a _ _).bind fun _ y hy _ =>
        .get_bind (pure_runs hy.closed (hpush hy _))
    · exact .get_bind (pure_runs hx (hpush (.refl hx) _))

theorem function_runs (hx : x.Closed) (a : Arena) (n : Nat) :
    Runs Leads x (function a n) fun t y => y.store.Known t := by
  have hstart : SignatureKnown x {} :=
    ⟨x.store.known_of_lt (by decide), fun t ht => (List.not_mem_nil ht).elim⟩
  refine (Runs.foldlM (Q := fun s y => SignatureKnown y s) (.refl hx) hstart
    fun s param _ y hy hs =>
    pushParameter_runs hy.closed a hs param).bind fun s x₁ h₁ hs => .get_bind ?_
  refine (onStore_runs h₁.closed (Store.internList_runs h₁.closed.store hs.2)).bind ?_
  intro parameters x₂ h₂ hparameters
  refine onStore_runs h₂.closed (Store.function_runs h₂.closed.store
    ⟨hparameters, h₂.known hs.1, ?_, h₂.closed.store.emptyList⟩)
  dsimp only
  split
  · exact @Store.known_of_lt x₂.store .void (by decide)
  · exact h₂.known (h₁.closed.known_typeOf _)

/-- What a node of a type expression means is known. -/
theorem meaning_runs (hx : x.Closed) (a : Arena) (n : Nat) (position : Position) :
    Runs Leads x (meaning a n position) fun m y => MeaningKnown y m := by
  have htype {m : Analyze TypeId} (hm : Runs Leads x m fun t y => y.store.Known t) :
      Runs Leads x (do return Meaning.type (← m)) fun m y => MeaningKnown y m :=
    hm.bind fun _ _ hy ht => pure_runs hy.closed ht
  have hintrinsic (t : TypeId) (ht : t.index < TypeKey.intrinsics.length) :
      Runs Leads x (pure (Meaning.type t) : Analyze Meaning) fun m y => MeaningKnown y m :=
    pure_runs hx (x.store.known_of_lt ht)
  unfold meaning
  split
  · exact hintrinsic .any (by decide)
  · exact hintrinsic .unspecified (by decide)
  · exact hintrinsic .void (by decide)
  · exact typeName_runs hx a n
  · exact htype (application_runs hx a n)
  · exact (childType_runs hx a _ _).bind fun t y hy ht => unionWith_runs hy.closed ht (by decide)
  · exact htype (nonNullable_runs hx a n)
  · refine (childType_runs hx a _ _).bind fun t y hy ht => ?_
    split
    · exact unionWith_runs hy.closed ht (by decide)
    · exact (reportAt_runs hy.closed a _ _).bind fun _ _ hz _ => pure_runs hz.closed (hz.known ht)
  · refine .ite (fun _ => (reportAt_runs hx a _ _).bind fun _ y hy _ => ?_) fun _ => ?_
    · exact (childType_runs hy.closed a _ _).bind fun _ _ hz ht => pure_runs hz.closed ht
    · exact htype (childType_runs hx a _ _)
  · refine (childTypes_runs hx a n 0).bind fun types y hy htypes => ?_
    exact (onStore_runs hy.closed (Store.union_runs hy.closed.store htypes)).bind fun _ _ hz ht =>
      pure_runs hz.closed ht
  · refine (childTypes_runs hx a n 0).bind fun types y hy htypes => ?_
    exact (onStore_runs hy.closed (Store.tuple_runs hy.closed.store htypes)).bind fun _ _ hz ht =>
      pure_runs hz.closed ht
  · exact .get_bind (htype (onStore_runs hx
      (Store.labeled_runs hx.store _ (known_memberType hx a (some n)))))
  · refine (fields_runs hx a _ [] fun field hfield => (List.not_mem_nil hfield).elim).bind ?_
    intro fields y hy hfields
    exact (onStore_runs hy.closed (Store.record_runs hy.closed.store hfields)).bind fun _ _ hz ht =>
      pure_runs hz.closed ht
  · exact htype (function_runs hx a n)
  · exact htype (childType_runs hx a _ _)
  · exact htype (childType_runs hx a _ _)
  · exact pure_runs hx trivial

/-! ## Whole expressions -/

/-- Working out a type expression leads to a closed state. -/
theorem enter_runs {x : Analysis} (hx : x.Closed) (a : Arena)
    (expandable : List TypeId) (r : NodeRef)
    (position : Position) : Runs Leads x (enter a expandable r position) fun _ _ => True := by
  match r with
  | none =>
    rw [enter]
    exact pure_runs hx trivial
  | some n =>
    rw [enter]
    refine .get_bind (.ite (fun _ => pure_runs hx trivial) fun _ => ?_)
    refine (Runs.forM (Leads.refl hx) fun operand _ y hy =>
      enter_runs hy.closed a expandable operand.1.1 operand.1.2).bind fun _ x₁ h₁ _ => ?_
    refine (meaning_runs h₁.closed a n position).bind fun meaning x₂ h₂ hmeaning => ?_
    split
    · exact pure_runs h₂.closed trivial
    · exact setType_runs h₂.closed _ hmeaning
    · next t operand =>
      split
      · next ht =>
        refine (enter_runs h₂.closed a (expandable.erase t) (some operand) .plain).bind
          fun _ x₃ h₃ _ =>
          .get_bind ?_
        have htarget : x₃.store.Known ((x₃.typeOf? (some operand)).getD .invalid) := by
          cases h : x₃.typeOf? (some operand) with
          | some u => exact h₃.closed.types _ u h
          | none => exact x₃.store.known_of_lt (by decide)
        refine (setAliasTarget_runs h₃.closed (h₃.known hmeaning) htarget).bind fun _ x₄ h₄ _ => ?_
        exact setType_runs h₄.closed _ (h₄.known htarget)
      · refine (reportAt_runs h₂.closed a _ _).bind fun _ x₃ h₃ _ => ?_
        exact setType_runs h₃.closed _ (x₃.store.known_of_lt (by decide))
termination_by effort a expandable r
decreasing_by
  · exact effort_operand_lt operand.2 expandable
  · exact effort_erase_lt (by assumption) a _ _

theorem transform_runs (hx : x.Closed) (a : Arena) (r : NodeRef) (position : Position) :
    Runs Leads x (transform a r position) fun t y => y.store.Known t := by
  refine .ite (fun _ => pure_runs hx (x.store.known_of_lt (by decide))) fun _ => .get_bind ?_
  refine (enter_runs hx a _ r position).bind fun _ y hy _ => .get_bind ?_
  exact pure_runs hy.closed (hy.closed.known_typeOf r)

theorem resolveAlias_runs (hx : x.Closed) (a : Arena) {t : TypeId} (ht : x.store.Known t) :
    Runs Leads x (resolveAlias a t) fun t y => y.store.Known t := by
  refine .get_bind ?_
  dsimp only
  split
  · next target htarget => exact pure_runs hx (hx.known_aliasTarget? htarget)
  · split
    · split
      · exact defaultTarget_runs hx a ht _
      · next operand _ =>
        refine (enter_runs hx a _ (some operand) .plain).bind fun _ y hy _ => .get_bind ?_
        split
        · next target htarget => exact pure_runs hy.closed (hy.closed.known_aliasTarget? htarget)
        · have htarget := hy.closed.known_typeOf (some operand)
          exact (setAliasTarget_runs hy.closed (hy.known ht) htarget).bind fun _ z hz _ =>
            pure_runs hz.closed (hz.known htarget)
    · exact pure_runs hx ht

end TypeExpr

end DocTypes
