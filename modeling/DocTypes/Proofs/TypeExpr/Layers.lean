import DocTypes.Proofs.Handles.TypeExpr
import DocTypes.Proofs.TypeExpr.Semantics
import DocTypes.Proofs.Types.Formers

/-!
# The meaning of a node and its structure

When the meaning of a node is worked out, the nodes below it have types already. The type that
comes out unfolds to one level (`TypeExpr.layer`) over the structures of these types. Types
are made on the way and problems are reported, and both leave the types of nodes and the
structures of types as they are.

## Main statements

* `TypeExpr.meaning_comes`: the meaning of a node unfolds to one level.
* `TypeExpr.Later.layer_eq`: one level is the same in later states.
-/

namespace DocTypes

open Structure

/-! ## Steps that keep structures -/

namespace Analysis

/-- The store is widened, and nodes keep their types. -/
structure Widens (x y : Analysis) : Prop where
  store : x.store.Widens y.store
  typeTable : y.typeTable = x.typeTable

/-- Nothing changes in the store and in the types of nodes: problems are reported. -/
structure Murmurs (x y : Analysis) : Prop where
  store : y.store = x.store
  typeTable : y.typeTable = x.typeTable

/-- A type has a structure. -/
structure Shows (x : Analysis) (s : Structure) (t : TypeId) : Prop where
  known : x.store.Known t
  same : Same (x.store.unfold t) s

/-- The structure of the type that a node has. -/
def recorded (x : Analysis) (r : NodeRef) (_ : Position) : Structure := x.store.unfold (x.typeOf r)

variable {x y : Analysis}

instance : IsTrans Analysis Widens :=
  ⟨fun _ _ _ h h' => ⟨h.store.trans h'.store, h'.typeTable.trans h.typeTable⟩⟩

instance : Std.Refl Murmurs := ⟨fun _ => ⟨rfl, rfl⟩⟩

instance : IsTrans Analysis Murmurs :=
  ⟨fun _ _ _ h h' => ⟨h'.store.trans h.store, h'.typeTable.trans h.typeTable⟩⟩

theorem Widens.refl (hs : x.store.Sound) : x.Widens x := ⟨.refl hs, rfl⟩

theorem Murmurs.typeOf_eq (h : x.Murmurs y) : y.typeOf = x.typeOf := by
  funext r
  rw [typeOf, typeOf?, h.typeTable]
  rfl

theorem Murmurs.widens (h : x.Murmurs y) (hs : x.store.Sound) : x.Widens y :=
  ⟨by rw [h.store]; exact .refl hs, h.typeTable⟩

theorem reportAt_murmurs (a : Arena) (problem : Problem) (node : NodeRef) :
    Moves Murmurs (reportAt a problem node) := fun _ => ⟨rfl, rfl⟩

/-- A step on the store is a step of the analysis. -/
theorem onStore_widens {α : Type} {m : StateM Store α} {P : α → Store → Prop}
    (h : Runs Store.Widens x.store m P) :
    Runs Widens x (Analyze.onStore m) fun r y => P r y.store := ⟨⟨h.1, rfl⟩, h.2⟩

/-- Problems are reported first. -/
theorem murmurs_widens {α β : Type} {m : Analyze α} {f : α → Analyze β} {P : α → Analysis → Prop}
    {Q : β → Analysis → Prop} (hs : x.store.Sound) (hm : Runs Murmurs x m P)
    (hf : ∀ r y, x.Murmurs y → P r y → Runs Widens y (f r) Q) : Runs Widens x (m >>= f) Q := by
  have hrest := hf _ _ hm.1 hm.2
  exact ⟨IsTrans.trans _ _ _ (hm.1.widens hs) hrest.1, hrest.2⟩

namespace Shows

variable {s : Structure} {t : TypeId}

theorem self (ht : x.store.Known t) : x.Shows (x.store.unfold t) t := ⟨ht, .refl _⟩

theorem of_eq (ht : x.store.Known t) (h : x.store.unfold t = s) : x.Shows s t := ⟨ht, h ▸ .refl _⟩

theorem widens (h : x.Shows s t) (hx : x.store.Sound) (hy : x.Widens y) : y.Shows s t :=
  ⟨hy.store.known h.known, hy.store.unfold_eq hx h.known ▸ h.same⟩

theorem murmurs (h : x.Shows s t) (hy : x.Murmurs y) : y.Shows s t := by
  constructor
  · rw [hy.store]
    exact h.known
  · rw [hy.store]
    exact h.same

/-- The intrinsic types are structures without parts. -/
theorem intrinsic (hx : x.store.Sound) {key : TypeKey}
    (hkey : TypeKey.intrinsics[t.index]? = some key)
    (hlayer : ∀ f, x.store.layer f key = .leaf key) : x.Shows (.leaf key) t :=
  ⟨x.store.known_of_lt (List.getElem?_eq_some_iff.1 hkey).1,
    hx.unfold_intrinsic hkey hlayer ▸ .refl _⟩

end Shows

end Analysis

namespace TypeExpr

open Analysis

variable {a : Arena} {x : Analysis} {n : Nat}

section Store

variable (hs : x.store.Sound)
include hs

theorem shows_any : x.Shows (.leaf .any) .any := .intrinsic hs rfl fun _ => rfl

theorem shows_unspecified : x.Shows (.leaf .unspecified) .unspecified :=
  .intrinsic hs rfl fun _ => rfl

theorem shows_void : x.Shows (.leaf .void) .void := .intrinsic hs rfl fun _ => rfl

theorem unfold_null : x.store.unfold .null = .leaf .null := hs.unfold_intrinsic rfl fun _ => rfl

/-! ## Unions -/

theorem union2_shows {s s' : Structure} {t u : TypeId} (ht : x.Shows s t) (hu : x.Shows s' u) :
    Runs Widens x (union2 t u) fun r y => y.Shows (unite [s, s']) r := by
  have hknown : ∀ v ∈ [t, u], x.store.Known v := by
    rintro v (_ | ⟨_, _ | ⟨_, hv⟩⟩)
    · exact ht.known
    · exact hu.known
    · cases hv
  refine (onStore_widens (hs.union_widens hknown)).weaken fun r y _ hr => ⟨hr.1, hr.2.trans ?_⟩
  exact unite_congr (.of_forall₂ (.cons ht.same (.cons hu.same .nil)))

theorem orNull_shows {s : Structure} {t : TypeId} (ht : x.Shows s t) :
    Runs Widens x (union2 t .null) fun r y => y.Shows s.orNull r :=
  union2_shows hs ht (.intrinsic hs rfl fun _ => rfl)

/-- Whether a type has the member `null` can be seen from its structure. -/
theorem hasMember_null_eq {t : TypeId} (ht : x.store.Known t) :
    x.store.types.hasMember t .null = (x.store.unfold t).members.any (·.isLeaf .null) := by
  have hnull : x.store.Known .null := x.store.known_of_lt (by decide)
  rw [TypeStore.hasMember, Bool.eq_iff_iff, List.contains_iff_mem, any_isLeaf_iff,
    hs.members_unfold ht, List.mem_map, ← unfold_null hs]
  constructor
  · exact fun hmem => ⟨_, hmem, rfl⟩
  · rintro ⟨u, hu, heq⟩
    exact (hs.unfold_inj (hs.canonical.known_of_mem_members ht hu) hnull).1 heq ▸ hu

/-- The type of the instances of a class or of a class that is applied to types. -/
theorem instanceType_shows {v : ValueId} (hv : x.store.ValueKnown v) :
    Runs Widens x (Analyze.onStore (Store.instanceType v)) fun t y =>
      y.Shows (if (x.store.values.constructed? v).isSome then
          .constructedInstanceOf (x.store.valueStructure x.store.unfold v)
        else .instanceOf (x.store.valueStructure x.store.unfold v)) t := by
  have hruns : Runs Store.Widens x.store (Store.instanceType v) fun t s => s.Known t ∧
      s.unfold t = if (x.store.values.constructed? v).isSome then
        .constructedInstanceOf (x.store.valueStructure x.store.unfold v)
      else .instanceOf (x.store.valueStructure x.store.unfold v) := by
    refine .get_bind ?_
    split
    · exact hs.constructedInstanceOf_widens hv
    · exact hs.instanceOf_widens hv
  exact (onStore_widens hruns).weaken fun t y _ ht => .of_eq ht.1 ht.2

end Store

/-! ## Names -/

/-- A simple name that is bound nowhere means a builtin type, or nothing is known of it. -/
theorem known_builtin (s : Store) (name : String) :
    s.Known ((builtinType? name).getD .unspecified) := by
  cases hbuiltin : builtinType? name with
  | some t => exact known_builtinType? s hbuiltin
  | none => exact s.known_of_lt (by decide)

/-- What a meaning comes to: a type of a structure, nothing, or what the alias stands for that is to
be expanded. -/
def Comes (targetOf : TypeId → Structure) (s? : Option Structure) (y : Analysis) : Meaning → Prop
  | .type t => ∃ s, s? = some s ∧ y.Shows s t
  | .nothing => s? = none
  | .expansion t _ => s? = some (targetOf t)

variable {targetOf : TypeId → Structure}

theorem runs_comes {m : Analyze TypeId} {s : Structure}
    (h : Runs Widens x m fun t y => y.Shows s t) :
    Runs Widens x (do return Meaning.type (← m)) fun m y => Comes targetOf (some s) y m :=
  ⟨h.1, s, rfl, h.2⟩

/-- What is known of the aliases that a node names: their targets have the structures that they
should have. -/
structure Targets (a : Arena) (x : Analysis) (n : Nat) (targetOf : TypeId → Structure) : Prop where
  known : ∀ t target, Names x a n t → x.store.types.aliasTarget? t = some target →
    Same (x.store.unfold target) (targetOf t)
  default : ∀ t, Names x a n t → x.store.types.aliasTarget? t = none → aliasOperand x a t = none →
    targetOf t = x.store.unfold (defaultType a x t)

section Meaning

variable (hx : x.Closed) (hs : x.store.Sound)
include hx hs

omit hx in
theorem defaultTarget_shows {t : TypeId} {name : Atom} {tag : NodeRef}
    (hkey : x.store.types.key? t = some (.aliasOf name tag)) :
    Runs Widens x (defaultTarget a t tag) fun u y =>
      y.Shows (x.store.unfold (defaultType a x t)) u := by
  have htarget : defaultType a x t = if a.text tag = "enum" then TypeId.number
      else .unspecified := by
    rw [defaultType, hkey]
  have hdefault : x.store.Known (defaultType a x t) := by
    rw [htarget]
    split <;> exact x.store.known_of_lt (by decide)
  have hop : (Operation.setAliasTarget t (defaultType a x t)).Admissible x.store :=
    ⟨Option.isSome_of_eq_some hkey, hdefault⟩
  have hstep : Runs Widens x (onTypes fun types => ((), types.setAliasTarget t (defaultType a x t)))
      fun _ _ => True := ⟨⟨hs.run hop, rfl⟩, trivial⟩
  unfold defaultTarget
  rw [← htarget]
  exact hstep.bind fun _ y hy _ =>
    .pure (.refl hy.store.sound) (Shows.widens (.self hdefault) hs hy)

theorem named_comes (htargets : Targets a x n targetOf) {t : TypeId}
    (hkind : a.kind? (some n) = some .typeName) (hbound : boundType? x a n = some t)
    (ht : x.store.Known t) :
    Runs Widens x (named a t) fun m y =>
      Comes targetOf (some (boundStructure x targetOf t)) y m := by
  have hpure {u : TypeId} {s : Structure} (h : x.Shows s u) :
      Runs Widens x (pure (Meaning.type u) : Analyze Meaning) fun m y =>
        Comes targetOf (some s) y m :=
    .pure (.refl hs) ⟨s, rfl, h⟩
  refine .get_bind ?_
  unfold boundStructure
  dsimp only
  cases hkey : x.store.types.key? t with
  | none => exact hpure (.self ht)
  | some key =>
    cases key with
    | instanceOf cls | constructedInstanceOf cls => exact runs_comes (orNull_shows hs (.self ht))
    | aliasOf name tag =>
      have hnames : Names x a n t := ⟨hkind, hbound, name, tag, hkey⟩
      have hoperand : aliasOperand x a t = a.typeOperand tag := by rw [aliasOperand, hkey]
      dsimp only
      split
      · next target htarget =>
        exact hpure ⟨hx.known_aliasTarget? htarget, htargets.known t target hnames htarget⟩
      · next hopen =>
        split
        · exact .pure (.refl hs) rfl
        · next hnone =>
          rw [htargets.default t hnames hopen (hoperand.trans hnone)]
          exact runs_comes (defaultTarget_shows hs hkey)
    | _ => exact hpure (.self ht)

omit hx in
/-- A value comes to its instances if it is a class, and to the value itself if not. -/
theorem value_comes {v : ValueId} (hv : x.store.ValueKnown v) :
    Runs Widens x (do
      let t ←
        if x.store.values.isClassLike v then (Store.instanceType v : StateM Store _)
        else onTypes (·.reference v)
      return Meaning.type (← union2 t .null))
      fun m y => Comes targetOf (some (valueStructure x v)) y m := by
  have horNull {s : Structure} (t : TypeId) (y : Analysis) (hy : x.Widens y) (ht : y.Shows s t) :
      Runs Widens y (do return Meaning.type (← union2 t .null))
        fun m z => Comes targetOf (some s.orNull) z m := runs_comes (orNull_shows hy.store.sound ht)
  unfold valueStructure
  dsimp only
  split
  · exact (instanceType_shows hs hv).bind horNull
  · exact (onStore_widens (hs.reference_widens hv)).bind fun t y hy ht =>
      horNull t y hy (.of_eq ht.1 ht.2)

/-- A type name comes to what it means. -/
theorem typeName_comes (htargets : Targets a x n targetOf)
    (hkind : a.kind? (some n) = some .typeName) :
    Runs Widens x (typeName a n) fun m y =>
      Comes targetOf (some (nameStructure a x targetOf n)) y m := by
  have hunspecified {y : Analysis} (hy : y.store.Sound) : Runs Widens y
      (pure (Meaning.type TypeId.unspecified) : Analyze Meaning) fun m y =>
        Comes targetOf (some (.leaf .unspecified)) y m :=
          .pure (.refl hy) ⟨_, rfl, shows_unspecified hy⟩
  unfold nameStructure
  cases hbound : boundType? x a n with
  | some t => exact .of_eq (typeName_of_bound hbound) (named_comes hx hs htargets hkind hbound
      (known_of_boundType? hx hbound))
  | none =>
    unfold boundType? at hbound
    dsimp only at hbound ⊢
    refine .get_bind ?_
    cases hreference : a.kind? (a.child (some n) 0) with
    | none => exact hunspecified hs
    | some kind =>
      rw [hreference] at hbound
      cases kind with
      | identifier =>
        dsimp only at hbound ⊢
        rw [hbound]
        exact .pure (.refl hs) ⟨_, rfl, .self (known_builtin x.store _)⟩
      | memberExpression =>
        dsimp only at hbound ⊢
        cases hpath : x.resolvePath a (a.child (some n) 0) with
        | none =>
          dsimp only
          refine .ite (fun _ => ?_) fun _ => hunspecified hs
          refine murmurs_widens (P := fun _ _ => True) hs ((reportAt_murmurs a _ _).runs x)
            fun _ y hy _ => hunspecified ?_
          rw [hy.store]
          exact hs
        | some v =>
          rw [hpath, Option.bind_some] at hbound
          dsimp only
          rw [hbound]
          exact value_comes hs (hx.valueKnown_denote (hx.valueKnown_resolvePath a hpath))
      | _ => exact hunspecified hs

/-! ## Types of children -/

omit hx hs in
theorem childType_bind {R : Analysis → Analysis → Prop} {β : Type} {r : NodeRef} {i : Nat}
    {f : TypeId → Analyze β} {Q : β → Analysis → Prop}
    (h : Runs R x (f (x.typeOf (a.child r i))) Q) :
    Runs R x (childType a r i >>= f) Q := h

omit hx hs in
theorem childTypes_bind {β : Type} {skip : Nat} {f : List TypeId → Analyze β}
    {Q : β → Analysis → Prop}
    (h : Runs Widens x (f (((a.children (some n)).drop skip).map x.typeOf)) Q) :
    Runs Widens x (childTypes a n skip >>= f) Q := h

omit hs in
theorem recorded_shows (r : NodeRef) (q : Position) : x.Shows (x.recorded r q) (x.typeOf r) :=
  .self (hx.known_typeOf r)

omit hs in
theorem known_of_mem_types (rs : List NodeRef) : ∀ t ∈ rs.map x.typeOf, x.store.Known t := by
  intro t ht
  obtain ⟨r, -, rfl⟩ := List.mem_map.1 ht
  exact hx.known_typeOf r

omit hx hs in
theorem map_unfold_typeOf (rs : List NodeRef) :
    (rs.map x.typeOf).map x.store.unfold = rs.map (x.recorded · .plain) := by
  rw [List.map_map]
  rfl

omit hx in
/-- A class that is applied to types comes to the instances of that. -/
theorem constructed_shows {generic : ValueId} {types : List TypeId}
    (hgeneric : x.store.ValueKnown generic)
    (htypes : ∀ t ∈ types, x.store.Known t) (node : NodeRef) :
    Runs Widens x (do
      let arguments ← onTypes (·.internList types)
      let constructed ← onValues (·.newConstructedClass node generic arguments)
      onTypes (·.constructedInstanceOf constructed))
      fun t y => y.Shows (.constructedInstanceOf
        (.applied (x.store.valueStructure x.store.unfold generic)
          (types.map x.store.unfold))) t := by
  refine (onStore_widens (hs.internList_widens htypes)).bind fun l y hy hl => ?_
  have hgeneric' := hy.store.keeps.valueKnown _ hgeneric
  refine (onStore_widens (hy.store.sound.newConstructedClass_widens node hgeneric' hl.1)).bind
    fun v z hz hv => ?_
  refine (onStore_widens (hz.store.sound.constructedInstanceOf_widens hv.1)).weaken
    fun t w _ ht => ⟨ht.1, ?_⟩
  rw [ht.2, hv.2, hl.2, hy.store.valueStructure_eq hs hgeneric, hy.store.map_unfold_eq hs htypes]
  exact .refl _

/-- An application comes to the instances of a class. -/
theorem application_shows (n : Nat) :
    Runs Widens x (application a n) fun t y =>
      y.Shows (applicationStructure a x x.recorded n) t := by
  unfold applicationStructure
  refine .get_bind ?_
  cases happlied : appliedClass? x a (a.child (some n) 0) with
  | none => exact .pure (.refl hs) (shows_unspecified hs)
  | some found =>
    cases found with
    | none =>
      dsimp only
      refine murmurs_widens (P := fun _ _ => True) hs ((reportAt_murmurs a _ _).runs x)
        fun _ y hy _ => ?_
      have hy := hy.widens hs
      exact .pure (.refl hy.store.sound) (shows_unspecified hy.store.sound)
    | some cls =>
      dsimp only
      have hgeneric := Store.valueKnown_of_class? (isSome_class?_appliedClass? hx happlied)
      refine childTypes_bind ?_
      have htypes := known_of_mem_types hx ((a.children (some n)).drop 1)
      rw [← map_unfold_typeOf]
      generalize ((a.children (some n)).drop 1).map x.typeOf = types at htypes
      rw [List.length_map]
      refine (onStore_widens (hs.instanceOf_widens hgeneric)).bind fun raw y hy hraw => ?_
      -- with the wrong number of types it is the class itself
      have hplain (problem : Problem) := murmurs_widens (P := fun _ _ => True) hy.store.sound
        ((reportAt_murmurs a problem (some n)).runs y) fun _ z hz _ =>
          have hz := hz.widens hy.store.sound
          orNull_shows hz.store.sound ((Shows.of_eq hraw.1 hraw.2).widens hy.store.sound hz)
      generalize ((x.store.values.class? cls).map (·.typeParameters.length)).getD 0 = count
      by_cases hnone : count = 0
      · rw [if_pos hnone, if_pos (Or.inl hnone)]
        exact hplain _
      rw [if_neg hnone]
      by_cases hcount : count ≠ types.length
      · rw [if_pos hcount, if_pos (Or.inr hcount)]
        exact hplain _
      · rw [if_neg hcount, if_neg (not_or.2 ⟨hnone, hcount⟩)]
        have hconstructed := constructed_shows hy.store.sound (hy.store.keeps.valueKnown _ hgeneric)
          (fun t ht => hy.store.known (htypes t ht)) (some n)
        rw [hy.store.valueStructure_eq hs hgeneric,
          hy.store.map_unfold_eq hs htypes] at hconstructed
        exact hconstructed.bind fun t z hz ht => orNull_shows hz.store.sound ht

/-! ## Composite types -/

theorem nonNullable_shows (n : Nat) : Runs Widens x (nonNullable a n) fun t y =>
    y.Shows (x.recorded (a.child (some n) 0) .plain).withoutNull t := by
  have hinner := hx.known_typeOf (a.child (some n) 0)
  refine childType_bind (.get_bind ?_)
  unfold withoutNull recorded
  rw [← hasMember_null_eq hs hinner]
  dsimp only
  by_cases hmember : x.store.types.hasMember (x.typeOf (a.child (some n) 0)) .null = true
  · rw [if_pos hmember, if_pos hmember]
    have hnull : x.store.Known .null := x.store.known_of_lt (by decide)
    exact (onStore_widens (hs.removeMember_widens hinner hnull (unfold_null hs))).weaken
      fun _ _ _ h => ⟨h.1, h.2⟩
  · rw [if_neg hmember, if_neg hmember]
    refine .ite (fun _ => murmurs_widens (P := fun _ _ => True) hs ((reportAt_murmurs a _ _).runs x)
      fun _ y hy _ => ?_) fun _ => .pure (.refl hs) (.self hinner)
    have hy := hy.widens hs
    exact .pure (.refl hy.store.sound) (Shows.widens (.self hinner) hs hy)

omit hx hs in
theorem memberType_eq {y : Analysis} (h : x.Murmurs y) (member : NodeRef) :
    memberType y a member = memberType x a member := by
  unfold memberType
  rw [h.typeOf_eq]

omit hx in
theorem memberStructure_recorded (member : NodeRef) :
    memberStructure a x.recorded member = x.store.unfold (memberType x a member) := by
  unfold memberStructure memberType
  cases a.child member 1 with
  | none => exact hs.unfold_any.symm
  | some type => rfl

omit hx hs in
/-- A label that was met already is not looked up again. -/
theorem lookup_append_of_any {read : List (Atom × TypeId)} {label : Atom}
    (h : read.any (·.1 = label) = true) (t : TypeId) (rest : List (Atom × TypeId)) (l : Atom) :
    (read ++ (label, t) :: rest).lookup l = (read ++ rest).lookup l := by
  rw [List.lookup_append, List.lookup_append]
  by_cases hl : l = label
  · subst hl
    cases hread : read.lookup l with
    | some u => rfl
    | none =>
      obtain ⟨field, hfield, heq⟩ := List.any_eq_true.1 h
      have hne := List.lookup_eq_none_iff.1 hread field hfield
      simp [of_decide_eq_true heq] at hne
  · rw [List.lookup_cons, beq_eq_false_iff_ne.2 hl]

/-- Fields that were read already or are those of members, the first one of each label. -/
structure ReadFrom (a : Arena) (x : Analysis) (read : List (Atom × TypeId)) (members : List NodeRef)
    (found : List (Atom × TypeId)) : Prop where
  origin : ∀ field ∈ found, field ∈ read ∨ ∃ member ∈ members, field.2 = memberType x a member
  lookup : ∀ label, found.lookup label =
    (read ++ members.map fun m => (a.atom (a.child m 0), memberType x a m)).lookup label

omit hx hs in
theorem fields_murmurs (members : List NodeRef) (read : List (Atom × TypeId))
    (reported : List Atom) :
    Runs Murmurs x (fields a read reported members) fun found _ =>
      ReadFrom a x read members found := by
  induction members generalizing x read reported with
  | nil =>
    refine .pure (Std.Refl.refl x) ⟨fun _ => .inl, fun label => ?_⟩
    rw [List.map_nil, List.append_nil]
  | cons member rest ih =>
    unfold fields
    dsimp only
    by_cases hseen : read.any (·.1 = a.atom (a.child member 0)) = true
    · rw [if_pos hseen]
      have hskip (y : Analysis) (hy : x.Murmurs y) (reported : List Atom) :
          Runs Murmurs y (fields a read reported rest) fun found _ =>
            ReadFrom a x read (member :: rest) found := by
        refine (@ih y read reported).weaken fun found _ _ hfound =>
          ⟨fun field hfield => ?_, fun label => ?_⟩
        · refine (hfound.origin field hfield).imp_right ?_
          rintro ⟨m, hm, heq⟩
          exact ⟨m, List.mem_cons_of_mem _ hm, heq.trans (memberType_eq hy m)⟩
        · rw [hfound.lookup, List.map_cons, lookup_append_of_any hseen]
          simp only [memberType_eq hy]
      refine .ite (fun _ => hskip x (Std.Refl.refl x) _) fun _ => ?_
      exact ((reportAt_murmurs a _ _).runs x).bind fun _ y hy _ => hskip y hy _
    · rw [if_neg hseen]
      refine Runs.get_bind ((@ih x _ reported).weaken fun found _ _ hfound => ?_)
      refine ⟨fun field hfield => ?_, fun label => ?_⟩
      · rcases hfound.origin field hfield with hread | ⟨m, hm, heq⟩
        · rcases List.mem_append.1 hread with hread | hlast
          · exact .inl hread
          · exact .inr ⟨member, List.mem_cons_self, congrArg Prod.snd (List.mem_singleton.1 hlast)⟩
        · exact .inr ⟨m, List.mem_cons_of_mem _ hm, heq⟩
      · rw [hfound.lookup, List.append_assoc]
        rfl

theorem record_shows (n : Nat) :
    Runs Widens x (do let found ← fields a [] [] (a.children (some n)); onTypes (·.record found))
      fun t y => y.Shows (.record ((a.children (some n)).map fun member =>
        (a.atom (a.child member 0), memberStructure a x.recorded member))) t := by
  refine murmurs_widens hs (fields_murmurs _ _ _) fun found y hy hfound => ?_
  obtain ⟨hmem, hlookup⟩ := hfound
  have hknown : ∀ field ∈ found, y.store.Known field.2 := by
    intro field hfield
    rw [hy.store]
    rcases hmem field hfield with hread | ⟨member, -, heq⟩
    · cases hread
    · exact heq ▸ known_memberType hx a member
  have hsy : y.store.Sound := hy.store ▸ hs
  refine (onStore_widens (hsy.record_widens hknown)).weaken fun t z _ ht => ⟨ht.1, ht.2.trans ?_⟩
  have hmembers : ((a.children (some n)).map fun member =>
      (a.atom (a.child member 0), memberStructure a x.recorded member)) =
        ((a.children (some n)).map fun member =>
          (a.atom (a.child member 0), memberType x a member)).map
          fun field => (field.1, x.store.unfold field.2) := by
    rw [List.map_map]
    exact List.map_congr_left fun member _ => congrArg _ (memberStructure_recorded hs member)
  refine same_record_iff.2 ⟨_, rfl, fun label => ?_⟩
  rw [hmembers, lookup_map, lookup_map, hlookup, List.nil_append, hy.store]
  cases List.lookup label _ with
  | none => exact .none
  | some u => exact .some (.refl _)

/-! ## Function types -/

/-- What the entries of a parameter list come to, over the types of nodes. -/
def signatureOf (a : Arena) (typeOf : NodeRef → TypeId) (entries : List NodeRef) : Signature :=
  let parameters := entries.filter (!isReceiver a ·)
  { kind := if entries.any (a.isKind · .newType) then .constructor else .normal
    thisType := (entries.filter (isReceiver a ·)).getLast?.elim .unspecified fun r =>
      typeOf (a.child r 0)
    parameters := parameters.map typeOf
    count := .of (parameters.map fun p => .ofTypeKind (a.kind? p)) }

omit hx hs in
/-- One more entry is added to a function type. -/
theorem pushParameter_murmurs (entries : List NodeRef) (p : NodeRef) :
    Runs Murmurs x (pushParameter a (signatureOf a x.typeOf entries) p) fun s _ =>
      s = signatureOf a x.typeOf (entries ++ [p]) := by
  unfold pushParameter
  split
  · next hkind =>
    refine childType_bind (.pure (Std.Refl.refl x) ?_)
    simp [signatureOf, isReceiver, Arena.isKind, hkind]
  · next hkind =>
    refine childType_bind (.pure (Std.Refl.refl x) ?_)
    simp [signatureOf, isReceiver, Arena.isKind, hkind]
  · next hthis hnew =>
    have hthis : a.kind? p ≠ some .thisType := hthis
    have hnew : a.kind? p ≠ some .newType := hnew
    have hpushed (y : Analysis) (hy : x.Murmurs y) :
        { signatureOf a x.typeOf entries with
          parameters := (signatureOf a x.typeOf entries).parameters ++ [y.typeOf p]
          count := ((signatureOf a x.typeOf entries).count.push (.ofTypeKind (a.kind? p))).2 } =
        signatureOf a x.typeOf (entries ++ [p]) := by
      rw [hy.typeOf_eq]
      simp [signatureOf, isReceiver, Arena.isKind, hthis, hnew, ArityCount.of_concat]
    dsimp only
    split
    · exact ((reportAt_murmurs a _ _).runs x).bind fun _ y hy _ =>
        .get_bind (.pure (Std.Refl.refl y) (hpushed y hy))
    · exact .get_bind (.pure (Std.Refl.refl x) (hpushed x (Std.Refl.refl x)))

omit hx hs in
theorem pushParameters_murmurs (done entries : List NodeRef) :
    Runs Murmurs x (entries.foldlM (pushParameter a) (signatureOf a x.typeOf done)) fun s _ =>
      s = signatureOf a x.typeOf (done ++ entries) := by
  induction entries generalizing x done with
  | nil =>
    rw [List.foldlM_nil, List.append_nil]
    exact .pure (Std.Refl.refl x) rfl
  | cons p entries ih =>
    rw [List.foldlM_cons]
    refine (pushParameter_murmurs done p).bind fun s y hy hs => ?_
    subst hs
    have hrest := @ih y (done ++ [p])
    rwa [hy.typeOf_eq, List.append_assoc] at hrest

omit hx hs in
/-- A function type comes to the function over the structures of its parts. -/
theorem signature_shows (hreached : x.store.Reached) {signature : Signature} {result : TypeId}
    {receiver s : Structure} (hparameters : ∀ t ∈ signature.parameters, x.store.Known t)
    (hthis : x.Shows receiver signature.thisType) (hresult : x.Shows s result) :
    Runs Widens x (do
      let parameters ← onTypes (·.internList signature.parameters)
      onTypes (·.function { kind := signature.kind, parameters, arity := signature.count.arity
                            thisType := signature.thisType, returnType := result }))
      fun t y => y.Shows (.function signature.kind signature.count.arity
        (signature.parameters.map x.store.unfold) receiver s []) t := by
  have hs := hreached.sound
  obtain ⟨hempty, hnil⟩ := hreached.list_empty
  refine (onStore_widens (hs.internList_widens hparameters)).bind fun l y hy hl => ?_
  have hthis := hthis.widens hs hy
  have hresult := hresult.widens hs hy
  have hshape : y.store.KeyKnown
      (.function { kind := signature.kind, parameters := l, arity := signature.count.arity
                   thisType := signature.thisType, returnType := result }) :=
    ⟨hl.1, hthis.known, hresult.known, hy.store.keeps.listKnown _ hempty⟩
  refine (onStore_widens (hy.store.sound.function_widens hshape)).weaken fun t z _ ht => ⟨ht.1, ?_⟩
  rw [ht.2, Store.layer, hl.2, hy.store.keeps.list _ hempty, hnil,
    hy.store.map_unfold_eq hs hparameters]
  exact same_function_iff.2
    ⟨_, _, _, _, rfl, List.forall₂_same.2 fun _ _ => .refl _, hthis.same, hresult.same, .nil⟩

/-- The receiver of a function type. -/
theorem signature_thisType_shows (entries : List NodeRef) :
    x.Shows ((entries.filter (isReceiver a ·)).getLast?.elim (.leaf .unspecified) fun receiver =>
      x.recorded (a.child receiver 0) .plain) (signatureOf a x.typeOf entries).thisType := by
  unfold signatureOf
  dsimp only
  cases (entries.filter (isReceiver a ·)).getLast? with
  | none => exact shows_unspecified hs
  | some receiver => exact recorded_shows hx _ .plain

omit hs in
theorem function_shows (hreached : x.store.Reached) (n : Nat) :
    Runs Widens x (function a n) fun t y => y.Shows (functionStructure a x.recorded n) t := by
  have hs := hreached.sound
  unfold function
  refine murmurs_widens hs (pushParameters_murmurs [] (a.children (a.child (some n) 0)))
    fun signature y hy hsignature => ?_
  subst hsignature
  rw [List.nil_append]
  refine .get_bind ?_
  have hreached : y.store.Reached := by rwa [hy.store]
  have hthis :=
    (signature_thisType_shows (a := a) hx hs (a.children (a.child (some n) 0))).murmurs hy
  unfold functionStructure
  dsimp only
  generalize a.children (a.child (some n) 0) = entries at hthis ⊢
  have hparameters : ∀ t ∈ (signatureOf a x.typeOf entries).parameters, y.store.Known t := by
    rw [hy.store]
    exact known_of_mem_types hx _
  have hstructures : (signatureOf a x.typeOf entries).parameters.map y.store.unfold =
      (entries.filter (!isReceiver a ·)).map (x.recorded · .parameter) := by
    rw [hy.store, signatureOf, List.map_map]
    rfl
  have hformed {result : TypeId} {s : Structure} (hresult : x.Shows s result) :=
    signature_shows hreached hparameters hthis (hresult.murmurs hy)
  rw [hstructures] at hformed
  rw [hy.typeOf_eq]
  cases hresult : a.child (some n) 1 with
  | none => exact hformed (shows_void hs)
  | some result => exact hformed (recorded_shows hx (some result) .plain)

omit hs in
/-- What a node means comes to one level over the structures of the types below it. -/
theorem meaning_comes (hreached : x.store.Reached) (htargets : Targets a x n targetOf)
    (position : Position) :
    Runs Widens x (meaning a n position) fun m y =>
      Comes targetOf (layer a x x.recorded targetOf n position) y m := by
  have hs := hreached.sound
  have hfirst := recorded_shows hx (a.child (some n) 0) .plain
  have hchildren := known_of_mem_types hx (a.children (some n))
  have hstructures := map_unfold_typeOf (x := x) (a.children (some n))
  cases hkind : a.kind? (some n) with
  | none =>
    unfold meaning layer
    rw [hkind]
    exact .pure (.refl hs) rfl
  | some kind =>
    unfold meaning layer
    rw [hkind]
    cases kind with
    | anyType => exact .pure (.refl hs) ⟨_, rfl, shows_any hs⟩
    | unknownType => exact .pure (.refl hs) ⟨_, rfl, shows_unspecified hs⟩
    | voidType => exact .pure (.refl hs) ⟨_, rfl, shows_void hs⟩
    | typeName => exact typeName_comes hx hs htargets hkind
    | typeApplication => exact runs_comes (application_shows hx hs n)
    | nullableType => exact childType_bind (runs_comes (orNull_shows hs hfirst))
    | nonNullableType => exact runs_comes (nonNullable_shows hx hs n)
    | optionalType =>
      refine childType_bind ?_
      cases position with
      | parameter => exact runs_comes (union2_shows hs hfirst (shows_void hs))
      | plain =>
        refine murmurs_widens (P := fun _ _ => True) hs ((reportAt_murmurs a _ _).runs x)
          fun _ y hy _ => ?_
        have hy := hy.widens hs
        exact .pure (.refl hy.store.sound) ⟨_, rfl, hfirst.widens hs hy⟩
    | restType =>
      refine .ite (fun _ => ?_) fun _ => childType_bind (.pure (.refl hs) ⟨_, rfl, hfirst⟩)
      refine murmurs_widens (P := fun _ _ => True) hs ((reportAt_murmurs a _ _).runs x)
        fun _ y hy _ => ?_
      refine childType_bind ?_
      rw [hy.typeOf_eq]
      have hy := hy.widens hs
      exact .pure (.refl hy.store.sound) ⟨_, rfl, hfirst.widens hs hy⟩
    | unionType =>
      refine childTypes_bind (runs_comes ?_)
      rw [List.drop_zero, ← hstructures]
      exact (onStore_widens (hs.union_widens hchildren)).weaken fun _ _ _ h => ⟨h.1, h.2⟩
    | tupleType =>
      refine childTypes_bind (runs_comes ?_)
      rw [List.drop_zero, ← hstructures]
      exact (onStore_widens (hs.tuple_widens hchildren)).weaken fun _ _ _ h => .of_eq h.1 h.2
    | recordMember =>
      refine .get_bind (runs_comes ?_)
      rw [memberStructure_recorded hs]
      exact (onStore_widens (hs.labeled_widens _ (known_memberType hx a (some n)))).weaken
        fun _ _ _ h => .of_eq h.1 h.2
    | recordType => exact runs_comes (record_shows hx hs n)
    | functionType => exact runs_comes (function_shows hx hreached n)
    | thisType | newType => exact childType_bind (.pure (.refl hs) ⟨_, rfl, hfirst⟩)
    | _ => exact .pure (.refl hs) rfl

end Meaning

/-! ## Later states -/

/-- A state that comes later while type expressions are worked out. -/
structure Later (a : Arena) (x y : Analysis) : Prop where
  fills : Fills a x y
  classes : x.store.SameClasses y.store
  widens : x.store.Widens y.store

namespace Later

variable {y : Analysis}

theorem unfold_eq (h : Later a x y) (hs : x.store.Sound) {t : TypeId} (ht : x.store.Known t) :
    y.store.unfold t = x.store.unfold t := h.widens.unfold_eq hs ht

theorem key?_eq (h : Later a x y) {t : TypeId} (ht : x.store.Known t) :
    y.store.types.key? t = x.store.types.key? t := by
  obtain ⟨key, hkey⟩ := Option.isSome_iff_exists.1 ht
  rw [hkey, h.fills.keys t key hkey]

/-- A node that is no part of a type expression keeps its type. -/
theorem typeOf?_eq (h : Later a x y) {r : NodeRef} {kind : NodeKind} (hkind : a.kind? r = some kind)
    (hexpression : kind.isTypeExpression = false) : y.typeOf? r = x.typeOf? r := by
  refine h.fills.others r fun n hn hnode => ?_
  subst hn
  rw [IsTypeNode, hkind, Option.any_some, hexpression] at hnode
  cases hnode

variable (h : Later a x y) (hx : x.Closed) (hs : x.store.Sound)
include h hx hs

omit hx hs in
theorem constructed?_eq {v : ValueId} (hv : x.store.ValueKnown v) :
    (y.store.values.constructed? v).isSome = (x.store.values.constructed? v).isSome := by
  have happlication := h.widens.keeps.application v hv
  unfold ValueStore.application? at happlication
  simpa only [Option.isSome_map] using congrArg Option.isSome happlication

omit hx in
theorem valueStructure_eq {v : ValueId} (hv : x.store.ValueKnown v) :
    valueStructure y v = valueStructure x v := by
  have hclassLike : y.store.values.isClassLike v = x.store.values.isClassLike v := by
    rw [Bool.eq_iff_iff, ValueStore.isClassLike_iff, ValueStore.isClassLike_iff, h.classes v,
      h.constructed?_eq hv]
  unfold valueStructure
  rw [h.widens.valueStructure_eq hs hv, hclassLike, h.constructed?_eq hv]

omit hx in
theorem boundStructure_eq (targetOf : TypeId → Structure) {t : TypeId} (ht : x.store.Known t) :
    boundStructure y targetOf t = boundStructure x targetOf t := by
  unfold boundStructure
  rw [h.key?_eq ht, h.unfold_eq hs ht]

theorem nameStructure_eq (targetOf : TypeId → Structure) (n : Nat) :
    nameStructure a y targetOf n = nameStructure a x targetOf n := by
  unfold nameStructure
  rw [h.fills.boundType?_eq hx]
  cases hbound : boundType? x a n with
  | some t => exact h.boundStructure_eq hs targetOf (known_of_boundType? hx hbound)
  | none =>
    dsimp only
    cases hreference : a.kind? (a.child (some n) 0) with
    | none => rfl
    | some kind =>
      cases kind with
      | identifier => exact h.unfold_eq hs (known_builtin x.store _)
      | memberExpression =>
        dsimp only
        rw [h.fills.resolvePath_eq hx]
        cases hpath : x.resolvePath a (a.child (some n) 0) with
        | none => rfl
        | some v =>
          have hv := hx.valueKnown_resolvePath a hpath
          dsimp only
          rw [h.fills.denote_eq hx hv, h.valueStructure_eq hs (hx.valueKnown_denote hv)]
      | _ => rfl

omit hs in
/-- The name of an applied type goes on to be bound to the same class. -/
theorem appliedClass?_eq (name : NodeRef) : appliedClass? y a name = appliedClass? x a name := by
  unfold appliedClass?
  dsimp only
  cases hreference : a.kind? (a.child name 0) with
  | none => rfl
  | some kind =>
    cases kind with
    | identifier =>
      dsimp only
      rw [h.typeOf?_eq hreference rfl]
      cases htype : x.typeOf? (a.child name 0) with
      | none => rfl
      | some t =>
        dsimp only
        rw [h.key?_eq (hx.types _ t htype)]
    | memberExpression =>
      dsimp only
      rw [h.fills.resolvePath_eq hx]
      cases hpath : x.resolvePath a (a.child name 0) with
      | none => rfl
      | some v =>
        rw [Option.map_some, Option.map_some,
          h.fills.denote_eq hx (hx.valueKnown_resolvePath a hpath),
          h.classes]
    | _ => rfl

theorem applicationStructure_eq (f : NodeRef → Position → Structure) (n : Nat) :
    applicationStructure a y f n = applicationStructure a x f n := by
  unfold applicationStructure
  rw [h.appliedClass?_eq hx]
  cases happlied : appliedClass? x a (a.child (some n) 0) with
  | none => rfl
  | some found =>
    cases found with
    | none => rfl
    | some cls =>
      dsimp only
      rw [h.classes, h.widens.valueStructure_eq hs
        (Store.valueKnown_of_class? (isSome_class?_appliedClass? hx happlied))]

/-- One level of the meaning of a node goes on to be the same. -/
theorem layer_eq (f : NodeRef → Position → Structure) (targetOf : TypeId → Structure) (n : Nat)
    (position : Position) : layer a y f targetOf n position = layer a x f targetOf n position := by
  unfold layer
  rw [h.nameStructure_eq hx hs, h.applicationStructure_eq hx hs]

end Later

end TypeExpr

end DocTypes
