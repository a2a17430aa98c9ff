import DocTypes.Binding.State
import DocTypes.Proofs.Hierarchy.Resolution
import DocTypes.Proofs.Types.Canonical

/-!
# How an analysis stays ready

While names are bound, classes are made in one place, which also declares them, and the type
of a class's instances is asked for only after the class was made. Everything else leaves
classes alone. `Analysis.Prepares` is what every step keeps.

## Main statements

* `Analysis.Prepares.ofSteady`: steps that leave classes alone.
* `Analysis.Prepares.declareClass`, `Analysis.Prepares.instanceOf`: the two that do not.
-/

namespace DocTypes

/-- No class is lost, a ready analysis stays ready, and no ancestors are listed. -/
structure Analysis.Prepares (x y : Analysis) : Prop where
  ready : x.Ready → y.Ready
  class? : ∀ v, (x.store.values.class? v).isSome → (y.store.values.class? v).isSome
  unlisted : x.store.Unlisted → y.store.Unlisted

/-- A change of the values that leaves classes alone keeps a store steady. -/
theorem Store.Steady.ofValues {s : Store} {values : ValueStore} (h : s.values.SameClasses values) :
    s.Steady { s with values } where
  toStill := ⟨h.class?, fun v cls hv => (h.constructed? v).trans hv,
    fun v cls hv => .inl ((h.constructed? v).symm.trans hv)⟩
  named hs :=
    { instanceOf := fun t v hk => by
        show (values.class? v).isSome
        rw [h.class? v]
        exact hs.instanceOf t v hk
      constructedInstanceOf := fun t v hk => by
        show (values.constructed? v).isSome
        rw [h.constructed? v]
        exact hs.constructedInstanceOf t v hk
      generic := fun v cls hv => by
        show (values.class? cls.generic).isSome
        rw [h.class? cls.generic]
        exact hs.generic v cls ((h.constructed? v).symm.trans hv)
      applied := fun x v hx => by
        show (values.constructed? v).isSome
        rw [h.constructed? v]
        refine hs.applied x v ?_
        rw [← h.applications]
        exact hx }

namespace Analysis

namespace Prepares

variable {x y z : Analysis}

theorem ofSteady (h : x.store.Steady y.store) (hclasses : y.classes = x.classes) :
    x.Prepares y where
  ready := ready_of_steady h hclasses
  class? v hv := by rwa [h.classes v]
  unlisted := h.keepsUnlisted

theorem refl (x : Analysis) : x.Prepares x := ⟨id, fun _ h => h, id⟩

theorem trans (h : x.Prepares y) (h' : y.Prepares z) : x.Prepares z :=
  ⟨fun hx => h'.ready (h.ready hx), fun v hv => h'.class? v (h.class? v hv),
    fun hx => h'.unlisted (h.unlisted hx)⟩

/-- Steps that do not touch the store, and declare no class. -/
theorem ofStore (hstore : y.store = x.store) (hclasses : y.classes = x.classes) : x.Prepares y :=
  ofSteady (hstore ▸ Std.Refl.refl _) hclasses

theorem ofTypes {types : TypeStore} (h : x.store.types.Plain types) :
    x.Prepares { x with store := { x.store with types } } :=
  ofSteady (.ofTypes h) rfl

theorem ofValues {values : ValueStore} (h : x.store.values.SameClasses values) :
    x.Prepares { x with store := { x.store with values } } :=
  ofSteady (.ofValues h) rfl

/-- The type of the instances of a class that was made. -/
theorem instanceOf {cls : ValueId} (h : (x.store.values.class? cls).isSome) :
    x.Prepares { x with store := { x.store with types := (x.store.types.instanceOf cls).2 } } :=
  ofSteady (.instanceOf fun _ => h) rfl

/-- A class that is made and declared. -/
theorem newClass (x : Analysis) (site : NodeRef) (kind : ClassKind) (name : String)
    (typeParameters : List TypeId) (valueTable : NodeTable ValueId) (node : NodeRef)
    (bases : List BaseRef) :
    let made := x.store.values.newClass site kind name typeParameters
    x.Prepares { x with
      store := { x.store with values := made.2 }
      valueTable
      classes := x.classes ++ [{ cls := made.1, node, bases }] } ∧
      (made.2.class? made.1).isSome := by
  intro made
  obtain ⟨⟨prototype, hclass⟩, hconstructed, happlications, -⟩ :=
    x.store.values.newClass_spec site kind name typeParameters
  have hmade : made.2.class? made.1 = some { kind, name, typeParameters, prototype } := by
    rw [hclass, if_pos rfl]
  have hkept : ∀ v, (x.store.values.class? v).isSome → (made.2.class? v).isSome := by
    intro v hv
    rw [hclass]
    split
    · rfl
    · exact hv
  have hlike : ∀ v, x.store.values.isClassLike v = true → made.2.isClassLike v = true := by
    intro v hv
    rw [ValueStore.isClassLike_iff] at hv ⊢
    rw [hconstructed v]
    exact hv.imp_left (hkept v)
  refine ⟨⟨fun hx => ⟨fun v hv => ?_, fun v cls hv => ?_, ⟨fun t v hk => ?_, fun t v hk => ?_,
    fun v cls hv => ?_, fun y v hy => ?_⟩, fun v cls hv b hb => ?_⟩, hkept,
    fun hx v cls hv => hx v cls ((hconstructed v).symm.trans hv)⟩, by rw [hmade]; rfl⟩
  · by_cases heq : v = made.1
    · exact ⟨_, List.mem_append_right _ List.mem_cons_self, heq.symm⟩
    · have hold : (x.store.values.class? v).isSome := by
        have hv' : (made.2.class? v).isSome := hv
        rwa [hclass, if_neg heq] at hv'
      obtain ⟨decl, hmem, hdecl⟩ := hx.declared v hold
      exact ⟨decl, List.mem_append_left _ hmem, hdecl⟩
  · have hv' : made.2.class? v = some cls := hv
    rw [hclass] at hv'
    split at hv'
    · cases hv'
      rfl
    · exact hx.fresh v cls hv'
  · exact hkept v (hx.named.instanceOf t v hk)
  · show (made.2.constructed? v).isSome
    rw [hconstructed v]
    exact hx.named.constructedInstanceOf t v hk
  · refine hkept _ (hx.named.generic v cls ?_)
    rw [← hconstructed v]
    exact hv
  · show (made.2.constructed? v).isSome
    rw [hconstructed v]
    refine hx.named.applied y v ?_
    rw [← happlications]
    exact hy
  · have hv' : made.2.class? v = some cls := hv
    rw [hclass] at hv'
    split at hv'
    · cases hv'
      cases hb
    · exact hlike b (hx.bases v cls hv' b hb)

end Prepares

/-- Before the first pass there is one value, which is undefined. -/
theorem data_new {a : Arena} {v : ValueId} {value : Value}
    (hv : (Analysis.new a).store.values.get? v = some value) : value.data = .undefinedValue := by
  have hnew : (Analysis.new a).store.values.get? v = if v = _ then some _ else _ :=
    ValueStore.get?_alloc _ _ v
  rw [hnew] at hv
  split at hv
  · cases hv
    rfl
  · simp [ValueStore.get?, Store.new, ValueStore.new] at hv

theorem class?_new (a : Arena) (v : ValueId) : (Analysis.new a).store.values.class? v = none := by
  unfold ValueStore.class?
  cases hv : (Analysis.new a).store.values.get? v with
  | none => rfl
  | some value => simp [Value.class?, data_new hv]

theorem constructed?_new (a : Arena) (v : ValueId) :
    (Analysis.new a).store.values.constructed? v = none := by
  unfold ValueStore.constructed?
  cases hv : (Analysis.new a).store.values.get? v with
  | none => rfl
  | some value => simp [Value.constructed?, data_new hv]

/-- Before the first pass there are no classes. -/
theorem ready_new (a : Arena) : (Analysis.new a).Ready := by
  have hclass := class?_new a
  have hconstructed := constructed?_new a
  refine ⟨fun v hv => ?_, fun v cls hv => ?_, ⟨fun t v hk => ?_, fun t v hk => ?_,
    fun v cls hv => ?_, fun x v hx => ?_⟩, fun v cls hv => ?_⟩
  · exact absurd (hclass v ▸ hv) (by simp)
  · exact absurd ((hclass v).symm.trans hv) (by simp)
  · exact absurd (Store.intrinsic_of_key?_new hk).1 (by simp [TypeKey.intrinsic?])
  · exact absurd (Store.intrinsic_of_key?_new hk).1 (by simp [TypeKey.intrinsic?])
  · exact absurd ((hconstructed v).symm.trans hv) (by simp)
  · exact absurd hx (by simp [Analysis.new, Store.new, ValueStore.newUndefined, ValueStore.new,
      ValueStore.alloc])
  · exact absurd ((hclass v).symm.trans hv) (by simp)

theorem unlisted_new (a : Arena) : (Analysis.new a).store.Unlisted :=
  fun v _ hv => absurd ((constructed?_new a v).symm.trans hv) (by simp)

end Analysis

end DocTypes
