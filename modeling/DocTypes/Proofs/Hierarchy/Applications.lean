import DocTypes.Proofs.Hierarchy.Inheritance
import DocTypes.Proofs.Hierarchy.Templates

/-!
# Applied classes at every step

After the first pass no class has a type parameter twice and none is applied. The later passes apply
classes to as many types as they take, so in the end all of them are applied well. What is in the
end was there as soon as it was made: a class never gets other type parameters, and a constructed
class never applies anything else. So the constructed classes are applied well at every step.

## Main statements

* `Store.Change.wellApplied`: what is applied well in the end was applied well before.
* `Analysis.runPasses_wellApplied`: constructed classes at every step of a run.
-/

namespace DocTypes

open Relation

/-! ## The later passes -/

namespace Hierarchy

theorem build_keepsArity (a : Arena) : Moves Analysis.KeepsArity (build a) := build_moves

end Hierarchy

namespace Typing

open Analysis

theorem run_keepsArity (a : Arena) (root : NodeRef) : Moves KeepsArity (run a root) := by
  refine .bind (.forM fun n _ => visit_moves n) fun _ => .bind .get fun x => ?_
  refine .bind (.forM fun v _ => propagate_moves v) fun _ => ?_
  exact onStore_keepsArity Store.finalizeAllConstructed_keepsArity

end Typing

namespace Analysis

/-- After some of the passes every constructed class is applied well. -/
theorem wellApplied_runPasses (a : Arena) (reportUndefined : Bool) (root : NodeRef) (count : Nat) :
    (runPasses a reportUndefined root count).store.WellApplied := by
  have hnames := (bindNames_templated a reportUndefined root).wellApplied
  have hbuilt := (Hierarchy.build_keepsArity a _).wellApplied hnames
  have htyped := (Typing.run_keepsArity a root _).wellApplied hbuilt
  unfold runPasses passes
  exact @foldl_take_cases (fun x => x.store.WellApplied) _ _ _ _
    (templated_new a).wellApplied hnames
    hbuilt htyped count

end Analysis

/-! ## Going back -/

/-- The number of a new class is new. -/
theorem ValueStore.get?_fst_newClass (s : ValueStore) (node : NodeRef) (kind : ClassKind)
    (name : String) (typeParameters : List TypeId) :
    s.get? (s.newClass node kind name typeParameters).1 = none :=
  s.get?_fst_alloc
    { node, data := .classValue { kind, name, typeParameters, prototype := ⟨0⟩ } }

/-- Most operations leave the classes as they are. -/
theorem Operation.class?_run (op : Operation) (s : Store) :
    (∀ v, (op.run s).values.class? v = s.values.class? v) ∨
      ∃ node kind name typeParameters, op = .newClass node kind name typeParameters := by
  cases op with
  | newClass node kind name typeParameters => exact .inr ⟨node, kind, name, typeParameters, rfl⟩
  | newConstructedClass node generic arguments =>
    exact .inl (s.values.class?_newConstructedClass node generic arguments)
  | newVariable | newFunction | newUndefined => exact .inl (ValueStore.class?_alloc rfl)
  | newObject node => exact .inl (ValueStore.SameClasses.newObject s.values node).class?
  | newProperty owner key node =>
    exact .inl (ValueStore.SameClasses.newProperty s.values owner key node).class?
  | ensureMembers v => exact .inl (ValueStore.SameClasses.ensureMembers s.values v).class?
  | addWrite v node | addRead v node =>
      exact .inl (ValueStore.SameClasses.mapSlot s.values v _).class?
  | _ => exact .inl fun _ => rfl

namespace Store.Change

variable {s t : Store}

/-- A class keeps its type parameters. -/
theorem typeParameters (h : s.Change t) {v : ValueId} {cls : ClassData}
    (hcls : s.values.class? v = some cls) :
    ∃ later, t.values.class? v = some later ∧ later.typeParameters = cls.typeParameters := by
  have hupdated (w : ValueId) (f : ClassData → ClassData)
      (hf : ∀ data, (f data).typeParameters = data.typeParameters) :
      ∃ later, (s.values.updateClass w f).class? v = some later ∧
        later.typeParameters = cls.typeParameters := by
    rw [ValueStore.class?_updateClass, hcls]
    split
    · exact ⟨f cls, rfl, hf cls⟩
    · exact ⟨cls, rfl, rfl⟩
  cases h with
  | operation op =>
    rcases op.class?_run s with hsame | ⟨node, kind, name, typeParameters, rfl⟩
    · exact ⟨cls, (hsame v).trans hcls, rfl⟩
    · obtain ⟨⟨_, hclass⟩, -⟩ := s.values.newClass_spec node kind name typeParameters
      have hnew : v ≠ (s.values.newClass node kind name typeParameters).1 := by
        rintro rfl
        obtain ⟨value, hvalue, -⟩ := Option.bind_eq_some_iff.1 hcls
        cases hvalue.symm.trans (s.values.get?_fst_newClass node kind name typeParameters)
      exact ⟨cls, (hclass v).trans ((if_neg hnew).trans hcls), rfl⟩
  | noteBases w bases => exact hupdated w _ fun _ => rfl
  | noteAncestors w ancestors => exact hupdated w _ fun _ => rfl
  | noteConstructedAncestors w ancestors =>
    exact ⟨cls, (class?_updateConstructed s.values w v _).trans hcls, rfl⟩

/-- What is applied well after a change was applied well before. -/
theorem wellApplied (h : s.Change t) (hs : s.Closed) (ht : t.WellApplied) : s.WellApplied := by
  have hkeeps := (h.retains hs).keeps
  refine ⟨fun v cls hcls => ?_, fun v data hdata => ?_⟩
  · obtain ⟨later, hlater, hsame⟩ := h.typeParameters hcls
    exact hsame ▸ ht.distinct v later hlater
  · have happlied : s.values.application? v = some ⟨data.generic, data.arguments⟩ := by
      rw [ValueStore.application?, hdata]
      rfl
    have happlied' := hkeeps.application v (valueKnown_of_application? happlied)
    obtain ⟨later, hlater, heq⟩ := Option.map_eq_some_iff.1 (happlied'.trans happlied)
    obtain ⟨hgeneric, harguments⟩ := Application.mk.inj heq
    obtain ⟨cls', hcls', hsome, -, hlength⟩ := ht.takes v later hlater
    obtain ⟨cls, hcls⟩ := Option.isSome_iff_exists.1 (hs.named.generic v data hdata)
    obtain ⟨_, hnow, hsame⟩ := h.typeParameters hcls
    rw [hgeneric] at hcls'
    obtain rfl := Option.some.inj (hnow.symm.trans hcls')
    have hknown := (hs.canonical.applicationsKnown v _ happlied).2
    rw [harguments, hkeeps.list _ hknown] at hlength
    exact ⟨cls, hcls, hsame ▸ hsome, hknown, hlength.trans (congrArg _ hsame)⟩

end Store.Change

namespace Analysis

/-- What is applied well after changes was applied well before. -/
theorem wellApplied_of_changes {x y : Analysis} (hx : x.Closed) (h : ReflTransGen Change x y)
    (hy : y.store.WellApplied) : x.store.WellApplied := by
  induction h using ReflTransGen.head_induction_on with
  | refl => exact hy
  | head hstep _ ih =>
    have hwell := ih (hstep.closed hx).1
    cases hstep with
    | store s hchange => exact hchange.wellApplied hx.store hwell
    | _ => exact hwell

end Analysis

/-! ## Every step -/

namespace Store.WellApplied

variable {s : Store} {v : ValueId} {data : ConstructedData}

/-- The class that is applied is no constructed class, and each of its type parameters gets the type
in its place. -/
theorem substitutes (hs : s.WellApplied) (hdata : s.values.constructed? v = some data) :
    ∃ cls, s.values.class? data.generic = some cls ∧ s.values.constructed? data.generic = none ∧
      cls.typeParameters ≠ [] ∧ cls.typeParameters.Nodup ∧
      (s.types.list data.arguments).length = cls.typeParameters.length ∧
      cls.typeParameters.map
          (Substitution.ofArguments cls.typeParameters (s.types.list data.arguments)).get? =
        (s.types.list data.arguments).map some := by
  obtain ⟨cls, hcls, hsome, -, hlength⟩ := hs.takes v data hdata
  have hnodup := hs.distinct data.generic cls hcls
  exact ⟨cls, hcls, constructed?_of_class? hcls, hsome, hnodup, hlength,
    Substitution.map_get?_ofArguments hnodup hlength⟩

end Store.WellApplied

namespace Analysis

/-- **Constructed classes are well applied.** At every step of a run, a constructed class applies a
class, and no constructed class, to as many types as it has type parameters. It has some, and all
are different, so that its bases are worked out with one type for each parameter. From any state
with such classes, a type expression in any position, putting types in for parameters and working
out bases and ancestors lead to another. -/
theorem runPasses_wellApplied (a : Arena) (reportUndefined : Bool) (root : NodeRef) (count : Nat) :
    ReflTransGen Change (new a) (runPasses a reportUndefined root count) ∧
      (∀ x, ReflTransGen Change (new a) x →
        ReflTransGen Change x (runPasses a reportUndefined root count) → x.store.WellApplied) ∧
      (∀ s : Store, s.WellApplied →
        (∀ v data, s.values.constructed? v = some data → ∃ cls,
          s.values.class? data.generic = some cls ∧ s.values.constructed? data.generic = none ∧
          cls.typeParameters ≠ [] ∧ cls.typeParameters.Nodup ∧
          (s.types.list data.arguments).length = cls.typeParameters.length ∧
          cls.typeParameters.map
              (Substitution.ofArguments cls.typeParameters (s.types.list data.arguments)).get? =
            (s.types.list data.arguments).map some) ∧
        (∀ sub t, (Store.instantiate sub t s).2.WellApplied) ∧
        (∀ sub v, (Store.instantiateClass sub v s).2.WellApplied) ∧
        (∀ v, (Store.directBases v s).2.WellApplied) ∧
        ∀ bases, (Store.linearize bases s).2.WellApplied) ∧
      ∀ x : Analysis, x.store.WellApplied → ∀ r position,
        (TypeExpr.transform a r position x).2.store.WellApplied := by
  refine ⟨(runPasses_steps a _ root count).steps, fun x hx hend => ?_, fun s hs =>
    ⟨fun v data hdata =>
    hs.substitutes hdata, fun sub t => ?_, fun sub v => ?_, fun v => ?_, fun bases => ?_⟩,
    fun x hx r position => ?_⟩
  · have hclosed := ((closed_new a).leads hx).closed
    exact wellApplied_of_changes hclosed hend (wellApplied_runPasses a reportUndefined root count)
  · exact (Store.instantiateTo_applies (R := Store.KeepsArity) sub _ t s).wellApplied hs
  · exact (Store.instantiateClassWith_keepsArity
      (Store.instantiateTo_applies sub _) v s).wellApplied hs
  · exact (Store.directBases_applies (R := Store.KeepsArity) v s).wellApplied hs
  · exact (Store.linearize_applies (R := Store.KeepsArity) bases s).wellApplied hs
  · exact (TypeExpr.transform_moves (R := KeepsArity) r position x).wellApplied hx

/-- In the shared tree, the class `A` is applied to numbers, after all passes and in what they come
to. -/
theorem sharedTypes_wellApplied :
    ReflTransGen Change (new (sharedTree Builder.new).2.arena) sharedTypes ∧
      sharedTypes.store.WellApplied ∧
      sharedTypes.store.values.constructed? ⟨1023⟩ =
        some ⟨⟨1012⟩, ⟨7⟩, [⟨1014⟩, ⟨1025⟩, ⟨1019⟩, ⟨1026⟩, ⟨1021⟩], true⟩ ∧
      (∃ cls, sharedTypes.store.values.class? ⟨1012⟩ = some cls ∧ cls.typeParameters ≠ [] ∧
        cls.typeParameters.Nodup ∧
        (sharedTypes.store.types.list ⟨7⟩).length = cls.typeParameters.length) ∧
      (Store.directBases ⟨1023⟩ sharedTypes.store).2.WellApplied := by
  obtain ⟨hsteps, hwell, hkeeps, -⟩ := runPasses_wellApplied (sharedTree Builder.new).2.arena true
    (sharedTree Builder.new).1 3
  have hend := hwell sharedTypes hsteps .refl
  obtain ⟨hdata, -, -, hbases, -⟩ := hkeeps sharedTypes.store hend
  obtain ⟨-, -, -, -, -, -, hcls, -⟩ := sharedTypes_lookups
  obtain ⟨cls, hclass, -, hsome, hnodup, hlength, -⟩ := hdata ⟨1023⟩ _ hcls
  exact ⟨hsteps, hend, hcls, ⟨cls, hclass, hsome, hnodup, hlength⟩, hbases ⟨1023⟩⟩

end Analysis

end DocTypes
