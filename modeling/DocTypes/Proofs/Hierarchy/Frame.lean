import DocTypes.Hierarchy.Build
import DocTypes.Proofs.Run
import DocTypes.Proofs.Types.Shapes
import DocTypes.Proofs.Values.Changes

/-!
# What happens to classes

Between the declarations and the hierarchy, classes change in two places only: their bases
are filled in, and they are marked as finalized with their ancestors. Everything else that
the second pass does, from type expressions to ancestor lists, makes types and constructed
classes and leaves the classes alone.

`Store.Named` says that the types of instances name classes, and that what is applied to
types is a class. It is kept along with the classes (`Store.Steady`).

## Main statements

* `TypeExpr.enter_steady`: working out a type expression leaves the classes alone.
* `Store.linearize_applies`: listing the ancestors of a class makes types and constructed
  classes only.
-/

namespace DocTypes

namespace TypeExpr

/-- The keys that are no aliases. -/
def Ordinary (key : TypeKey) : Prop := ∀ name tag, key ≠ .aliasOf name tag

/-- The keys that are neither aliases nor functions. -/
def Simple (key : TypeKey) : Prop := Ordinary key ∧ key.Shapeless

end TypeExpr

namespace TypeStore

/-- No type of instances is new. -/
def Plain (s s' : TypeStore) : Prop :=
  ∀ t v, (s'.key? t = some (.instanceOf v) → s.key? t = some (.instanceOf v)) ∧
    (s'.key? t = some (.constructedInstanceOf v) → s.key? t = some (.constructedInstanceOf v))

namespace Plain

theorem refl (s : TypeStore) : s.Plain s := fun _ _ => ⟨id, id⟩

/-- Numbering keys that are no types of instances. -/
theorem ofInterns {s s' : TypeStore}
    (h : s.Interns
      (fun key => (∀ v, key ≠ .instanceOf v) ∧ ∀ v, key ≠ .constructedInstanceOf v) s') :
    s.Plain s' := by
  refine fun t v => ⟨fun hk => ?_, fun hk => ?_⟩
  · exact (h.key?_cases hk).resolve_right fun hkey => hkey.1 v rfl
  · exact (h.key?_cases hk).resolve_right fun hkey => hkey.2 v rfl

theorem intern (s : TypeStore) {key : TypeKey} (hinstance : ∀ v, key ≠ .instanceOf v)
    (hconstructed : ∀ v, key ≠ .constructedInstanceOf v) : s.Plain (s.intern key).2 :=
  ofInterns (.intern s ⟨hinstance, hconstructed⟩)

theorem internList (s : TypeStore) (types : List TypeId) : s.Plain (s.internList types).2 :=
  refl s

theorem union (s : TypeStore) (types : List TypeId) : s.Plain (s.union types).2 :=
  ofInterns (.union s (by simp) types)

theorem removeMember (s : TypeStore) (t m : TypeId) : s.Plain (s.removeMember t m).2 :=
  ofInterns (.removeMember s (by simp) t m)

theorem tuple (s : TypeStore) (elements : List TypeId) : s.Plain (s.tuple elements).2 :=
  ofInterns (.tuple s (by simp) elements)

theorem record (s : TypeStore) (fields : List (Atom × TypeId)) : s.Plain (s.record fields).2 :=
  ofInterns (.record s (by simp) (by simp) fields)

end Plain

end TypeStore

namespace ValueStore

/-- What applying a class to types leaves at a number: what was there, or the constructed
class that was made. -/
theorem get?_newConstructedClass (s : ValueStore) (node : NodeRef) (generic : ValueId)
    (arguments : ListId) (v : ValueId) :
    (s.newConstructedClass node generic arguments).2.get? v = s.get? v ∨
      (s.get? v = none ∧ (s.newConstructedClass node generic arguments).2.get? v
        = some { node, data := .constructedClass { generic, arguments } }) := by
  unfold newConstructedClass
  split
  · exact .inl rfl
  · show (s.alloc _).2.get? v = s.get? v ∨ (s.get? v = none ∧ (s.alloc _).2.get? v = _)
    rw [get?_alloc]
    split
    · next hv =>
      refine .inr ⟨?_, rfl⟩
      rw [hv]
      simp [alloc, get?]
    · exact .inl rfl

theorem class?_newConstructedClass (s : ValueStore) (node : NodeRef) (generic : ValueId)
    (arguments : ListId) (v : ValueId) :
    (s.newConstructedClass node generic arguments).2.class? v = s.class? v := by
  rcases s.get?_newConstructedClass node generic arguments v with h | ⟨hnone, h⟩
  · simp only [class?, h]
  · simp only [class?, h, hnone]
    rfl

theorem constructed?_newConstructedClass (s : ValueStore) (node : NodeRef) (generic : ValueId)
    (arguments : ListId) (v : ValueId) :
    (s.newConstructedClass node generic arguments).2.constructed? v = s.constructed? v ∨
      (s.constructed? v = none ∧ (s.newConstructedClass node generic arguments).2.constructed? v
        = some { generic, arguments }) := by
  rcases s.get?_newConstructedClass node generic arguments v with h | ⟨hnone, h⟩
  · exact .inl (by simp only [constructed?, h])
  · refine .inr ⟨?_, ?_⟩
    · simp only [constructed?, hnone, Option.bind_none]
    · simp only [constructed?, h]
      rfl

end ValueStore

namespace Store

/-! ## Stores -/

/-- The types of instances name classes, and what is applied to types is a class. -/
structure Named (s : Store) : Prop where
  instanceOf : ∀ t v, s.types.key? t = some (.instanceOf v) → (s.values.class? v).isSome
  constructedInstanceOf : ∀ t v, s.types.key? t = some (.constructedInstanceOf v) →
    (s.values.constructed? v).isSome
  generic : ∀ v cls, s.values.constructed? v = some cls → (s.values.class? cls.generic).isSome
  applied : ∀ (x : Application) v, s.values.applications[x]? = some v →
    (s.values.constructed? v).isSome

/-- No class comes or changes. -/
def SameClasses (s s' : Store) : Prop := ∀ v, s'.values.class? v = s.values.class? v

instance : Std.Refl SameClasses := ⟨fun _ _ => rfl⟩

instance : IsTrans Store SameClasses := ⟨fun _ _ _ h h' v => (h' v).trans (h v)⟩

/-- No class and no constructed class changes, no class comes, and a constructed class that
comes has no ancestors listed yet. -/
structure Still (s s' : Store) : Prop where
  classes : s.SameClasses s'
  constructed : ∀ v cls, s.values.constructed? v = some cls → s'.values.constructed? v = some cls
  unlisted : ∀ v cls, s'.values.constructed? v = some cls →
    s.values.constructed? v = some cls ∨ cls.finalized = false

theorem Still.refl (s : Store) : s.Still s := ⟨fun _ => rfl, fun _ _ => id, fun _ _ => .inl⟩

theorem Still.trans {s s' s'' : Store} (h : s.Still s') (h' : s'.Still s'') : s.Still s'' where
  classes v := (h'.classes v).trans (h.classes v)
  constructed v cls hv := h'.constructed v cls (h.constructed v cls hv)
  unlisted v cls hv := (h'.unlisted v cls hv).elim (h.unlisted v cls) .inr

/-- A constructed class stays one. -/
theorem Still.isSome_constructed? {s s' : Store} (h : s.Still s') {v : ValueId}
    (hv : (s.values.constructed? v).isSome) : (s'.values.constructed? v).isSome := by
  obtain ⟨cls, hcls⟩ := Option.isSome_iff_exists.1 hv
  exact Option.isSome_iff_exists.2 ⟨cls, h.constructed v cls hcls⟩

instance : Std.Refl Still := ⟨Still.refl⟩

instance : IsTrans Store Still := ⟨fun _ _ _ => Still.trans⟩

/-- No constructed class has its ancestors listed. -/
def Unlisted (s : Store) : Prop :=
  ∀ v cls, s.values.constructed? v = some cls → cls.finalized = false

theorem Still.keepsUnlisted {s s' : Store} (h : s.Still s') (hs : s.Unlisted) : s'.Unlisted :=
  fun v cls hv => (h.unlisted v cls hv).elim (hs v cls) id

/-- A class applied to types changes nothing that was there. -/
theorem Still.newConstructedClass (s : Store) (node : NodeRef) (generic : ValueId)
    (arguments : ListId) :
    s.Still { s with values := (s.values.newConstructedClass node generic arguments).2 } where
  classes v := s.values.class?_newConstructedClass node generic arguments v
  constructed v cls hv := by
    rcases s.values.constructed?_newConstructedClass node generic arguments v with heq | ⟨hn, _⟩
    · exact heq.trans hv
    · simp [hn] at hv
  unlisted v cls hv := by
    rcases s.values.constructed?_newConstructedClass node generic arguments v with heq | ⟨_, heq⟩
    · exact .inl (heq ▸ hv)
    · obtain rfl := Option.some.inj (heq.symm.trans hv)
      exact .inr rfl

/-- Classes and constructed classes stay as they are, and types go on to name classes. -/
structure Steady (s s' : Store) : Prop extends s.Still s' where
  named : s.Named → s'.Named

instance : Std.Refl Steady := ⟨fun s => ⟨.refl s, id⟩⟩

instance : IsTrans Store Steady :=
  ⟨fun _ _ _ h h' => ⟨h.toStill.trans h'.toStill, fun hs => h'.named (h.named hs)⟩⟩

namespace Steady

variable {s : Store}

/-- New types that are no types of instances. -/
theorem ofTypes {types : TypeStore} (h : s.types.Plain types) : s.Steady { s with types } where
  toStill := ⟨fun _ => rfl, fun _ _ => id, fun _ _ => .inl⟩
  named hs := ⟨fun t v hk => hs.instanceOf t v ((h t v).1 hk),
    fun t v hk => hs.constructedInstanceOf t v ((h t v).2 hk), hs.generic, hs.applied⟩

/-- The type of the instances of a class. -/
theorem instanceOf {cls : ValueId} (h : s.Named → (s.values.class? cls).isSome) :
    s.Steady { s with types := (s.types.instanceOf cls).2 } where
  toStill := ⟨fun _ => rfl, fun _ _ => id, fun _ _ => .inl⟩
  named hs := by
    refine ⟨fun t v hk => ?_, fun t v hk => ?_, hs.generic, hs.applied⟩
    · rcases TypeStore.key?_intern_cases hk with hk | ⟨_, hkey, _⟩
      · exact hs.instanceOf t v hk
      · exact TypeKey.instanceOf.inj hkey ▸ h hs
    · rcases TypeStore.key?_intern_cases hk with hk | ⟨_, hkey, _⟩
      · exact hs.constructedInstanceOf t v hk
      · simp at hkey

/-- The type of the instances of a constructed class. -/
theorem constructedInstanceOf {cls : ValueId}
    (h : s.Named → (s.values.constructed? cls).isSome) :
    s.Steady { s with types := (s.types.constructedInstanceOf cls).2 } where
  toStill := ⟨fun _ => rfl, fun _ _ => id, fun _ _ => .inl⟩
  named hs := by
    refine ⟨fun t v hk => ?_, fun t v hk => ?_, hs.generic, hs.applied⟩
    · rcases TypeStore.key?_intern_cases hk with hk | ⟨_, hkey, _⟩
      · exact hs.instanceOf t v hk
      · simp at hkey
    · rcases TypeStore.key?_intern_cases hk with hk | ⟨_, hkey, _⟩
      · exact hs.constructedInstanceOf t v hk
      · exact TypeKey.constructedInstanceOf.inj hkey ▸ h hs

/-- A class applied to types. -/
theorem newConstructedClass (node : NodeRef) {generic : ValueId} (arguments : ListId)
    (h : s.Named → (s.values.class? generic).isSome) :
    s.Steady { s with values := (s.values.newConstructedClass node generic arguments).2 } where
  toStill := .newConstructedClass s node generic arguments
  named hs := by
    have hstays (v : ValueId) (hv : (s.values.constructed? v).isSome) :
        ((s.values.newConstructedClass node generic arguments).2.constructed? v).isSome := by
      rcases s.values.constructed?_newConstructedClass node generic arguments v with heq | ⟨hn, _⟩
      · exact heq ▸ hv
      · simp [hn] at hv
    refine ⟨fun t v hk => ?_, fun t v hk => hstays v (hs.constructedInstanceOf t v hk),
      fun v cls hv => ?_, fun x v hx => ?_⟩
    · rw [ValueStore.class?_newConstructedClass]
      exact hs.instanceOf t v hk
    · rw [ValueStore.class?_newConstructedClass]
      rcases s.values.constructed?_newConstructedClass node generic arguments v with heq | ⟨_, heq⟩
      · exact hs.generic v cls (heq ▸ hv)
      · obtain rfl := Option.some.inj (heq.symm.trans hv)
        exact h hs
    · unfold ValueStore.newConstructedClass at hx hstays ⊢
      split at hx
      · next hfound =>
        simp only [hfound] at hstays ⊢
        exact hs.applied x v hx
      · next hfound =>
        simp only [hfound] at hstays ⊢
        rw [Std.TreeMap.getElem?_insert] at hx
        split at hx
        · obtain rfl := Option.some.inj hx
          simp [ValueStore.constructed?, ValueStore.alloc, ValueStore.get?, Value.constructed?]
        · exact hstays v (hs.applied x v hx)

end Steady

/-! ## Ancestor lists -/

/-- A relation of stores along which types and constructed classes are made. -/
class Applies (R : Store → Store → Prop) : Prop where
  types : ∀ (s : Store) (types : TypeStore), R s { s with types }
  constructed : ∀ (s : Store) (node : NodeRef) (generic : ValueId) (arguments : ListId),
    R s { s with values := (s.values.newConstructedClass node generic arguments).2 }

/-- A relation of stores along which types are put in for parameters: types are numbered, a function
type gets what becomes of its parts, and a class that is applied to types is applied to what becomes
of these. -/
class Substituting (R : Store → Store → Prop) : Prop extends Std.Refl R, IsTrans Store R where
  interns {α : Type} {f : TypeStore → α × TypeStore}
    (h : ∀ types : TypeStore, types.Interns TypeExpr.Simple (f types).2) : Moves R (onTypes f)
  instantiates {inst : TypeId → StateM Store TypeId} (h : ∀ t, Moves R (inst t)) (cls : ValueId) :
    Moves R (instantiateClassWith inst cls)
  shapes {inst : TypeId → StateM Store TypeId} (h : ∀ t, Moves R (inst t)) {s : Store} {t : TypeId}
    {shape : FunctionShape} (ht : s.types.key? t = some (.function shape)) : MovesFrom R s (do
      let parameters ← ((← get).types.list shape.parameters).mapM inst
      let parameters ← onTypes (·.internList parameters)
      let thisType ← inst shape.thisType
      let returnType ← inst shape.returnType
      onTypes (·.function { shape with parameters, thisType, returnType }))

/-- A relation of stores along which any types are numbered, and classes are applied to what becomes
of their types. -/
class Instantiating (R : Store → Store → Prop) : Prop extends Std.Refl R, IsTrans Store R where
  interns {α : Type} {f : TypeStore → α × TypeStore}
    (h : ∀ types : TypeStore, types.Interns TypeExpr.Ordinary (f types).2) : Moves R (onTypes f)
  instantiates {inst : TypeId → StateM Store TypeId} (h : ∀ t, Moves R (inst t)) (cls : ValueId) :
    Moves R (instantiateClassWith inst cls)

section Applying

variable {R : Store → Store → Prop}

instance [Std.Refl R] [IsTrans Store R] [Applies R] : Instantiating R where
  interns {_ f} _ := fun s => Applies.types s (f s.types).2
  instantiates h cls := by
    refine .bind .get fun s => ?_
    split
    · next node members data hdata =>
      refine .bind .get fun s => .bind (.mapM fun t _ => h t) fun arguments => ?_
      refine .bind (fun s => Applies.types s _) fun arguments s => ?_
      exact Applies.constructed s node data.generic arguments
    · exact .pure cls

instance [Instantiating R] : Substituting R where
  interns h := Instantiating.interns fun types => (h types).mono fun _ hkey => hkey.1
  instantiates := Instantiating.instantiates
  shapes {_} h {_ _ _} _ := by
    refine Moves.movesFrom (.bind .get fun _ => .bind (.mapM fun u _ => h u) fun _ => ?_) _
    refine .bind (Instantiating.interns fun types => .internList types _) fun _ => ?_
    exact .bind (h _) fun _ => .bind (h _) fun _ =>
      Instantiating.interns fun types => .intern types (by simp [TypeExpr.Ordinary])

variable [Substituting R]

theorem instantiateFields_applies {inst : TypeId → StateM Store TypeId}
    (h : ∀ t, Moves R (inst t)) (fields : List TypeId) :
    Moves R (instantiateFields inst fields) := by
  induction fields with
  | nil => exact .pure []
  | cons field rest ih =>
    refine .bind .get fun s => ?_
    split
    · exact .bind (h _) fun _ => .bind ih fun _ => .pure _
    · exact ih

/-- Putting types in for parameters makes types and constructed classes only. -/
theorem instantiateTo_applies (sub : Substitution) (depth : Nat) (t : TypeId) :
    Moves R (instantiateTo sub depth t) := by
  induction depth generalizing t with
  | zero => exact .pure t
  | succ depth ih =>
    have hlist (types : List TypeId) : Moves R (types.mapM (instantiateTo sub depth)) :=
      .mapM fun u _ => ih u
    unfold instantiateTo
    refine .ite (fun _ => .pure t) fun _ => .get_bind fun s => ?_
    split
    · exact (Moves.pure _).movesFrom s
    · exact Moves.movesFrom (.bind .get fun _ => .bind (hlist _) fun _ =>
        Substituting.interns fun types =>
          .union types (by simp [TypeExpr.Simple, TypeExpr.Ordinary, TypeKey.Shapeless]) _) s
    · exact Moves.movesFrom (.bind .get fun _ => .bind (hlist _) fun _ =>
        Substituting.interns fun types =>
          .tuple types (by simp [TypeExpr.Simple, TypeExpr.Ordinary, TypeKey.Shapeless]) _) s
    · exact Moves.movesFrom (.bind .get fun _ => .bind (instantiateFields_applies ih _) fun _ =>
        Substituting.interns fun types =>
          .record types (by simp [TypeExpr.Simple, TypeExpr.Ordinary, TypeKey.Shapeless])
            (by simp [TypeExpr.Simple, TypeExpr.Ordinary, TypeKey.Shapeless]) _) s
    · exact Moves.movesFrom (.bind (ih _) fun _ =>
        Substituting.interns fun types =>
          .intern types (by simp [TypeExpr.Simple, TypeExpr.Ordinary, TypeKey.Shapeless])) s
    · exact Substituting.shapes ih ‹_›
    · exact Moves.movesFrom (.bind (Substituting.instantiates ih _) fun _ =>
        Substituting.interns fun types =>
          .intern types (by simp [TypeExpr.Simple, TypeExpr.Ordinary, TypeKey.Shapeless])) s
    · exact (Moves.pure t).movesFrom s

theorem directBases_applies (v : ValueId) : Moves R (directBases v) := by
  refine .bind .get fun s => ?_
  split
  · exact .pure _
  · split
    · exact .mapM fun b _ => Substituting.instantiates (instantiateTo_applies _ _) b
    · exact .pure []
  · exact .pure []

theorem listLevel_applies (ancestors : Registry ValueId) (next : Array ValueId)
    (level : List ValueId) : Moves R (listLevel ancestors next level) := by
  induction level generalizing ancestors next with
  | nil => exact .pure _
  | cons v level ih =>
    exact .ite (fun _ => ih _ _) fun _ => .bind (directBases_applies v) fun _ => ih _ _

theorem listLevels_applies (levels : Nat) (ancestors : Registry ValueId)
    (level : List ValueId) : Moves R (listLevels levels ancestors level) := by
  induction levels generalizing ancestors level with
  | zero => exact .pure _
  | succ levels ih =>
    cases level with
    | nil => exact .pure _
    | cons v level => exact .bind (listLevel_applies _ _ _) fun _ => ih _ _

/-- Listing the ancestors of a class makes types and constructed classes only. -/
theorem linearize_applies (bases : List ValueId) : Moves R (linearize bases) := by
  exact .bind .get fun _ => .bind (listLevels_applies _ _ _) fun _ => .pure _

end Applying

instance : Applies SameClasses where
  types _ _ _ := rfl
  constructed s node generic arguments v :=
    s.values.class?_newConstructedClass node generic arguments v

instance : Applies Still where
  types _ _ := ⟨fun _ => rfl, fun _ _ => id, fun _ _ => .inl⟩
  constructed := Still.newConstructedClass

theorem class?_updateConstructed (s : ValueStore) (v w : ValueId)
    (f : ConstructedData → ConstructedData) :
    (s.updateConstructed v f).class? w = s.class? w := by
  simp only [ValueStore.class?, ValueStore.updateConstructed, ValueStore.get?_update]
  split
  · cases hw : s.get? w with
    | none => rfl
    | some value =>
      obtain ⟨node, members, data⟩ := value
      cases data <;> rfl
  · rfl

/-- Listing the ancestors of all constructed classes moves along a relation that listing those of
one does. -/
theorem finalizeAllConstructed_moves {R : Store → Store → Prop} [Std.Refl R] [IsTrans Store R]
    (h : ∀ v, Moves R (finalizeConstructed v)) : Moves R finalizeAllConstructed := by
  have hrounds (rounds : Nat) : Moves R (finalizeRounds rounds) := by
    induction rounds with
    | zero => exact .pure ()
    | succ rounds ih =>
      refine .bind .get fun s => ?_
      dsimp only
      split
      · exact .pure ()
      · exact .bind (.forM fun v _ => h v) fun _ => ih
  unfold finalizeAllConstructed
  exact .bind .get fun s => hrounds _

theorem finalizeConstructed_sameClasses (v : ValueId) :
    Moves SameClasses (finalizeConstructed v) := by
  refine .bind (directBases_applies v) fun _ => .bind (linearize_applies _) fun _ s w => ?_
  exact class?_updateConstructed s.values v w _

/-- Listing the ancestors of constructed classes leaves the classes alone. -/
theorem finalizeAllConstructed_sameClasses : Moves SameClasses finalizeAllConstructed :=
  finalizeAllConstructed_moves finalizeConstructed_sameClasses

end Store

/-! ## Type expressions -/

namespace Analysis

/-- The cycles that were reported. -/
def cycleReports (x : Analysis) : List Diagnostic :=
  x.diagnostics.toList.filter (·.problem = .inheritanceCycle)

/-- The store stays steady, no class is declared, and no cycle is reported. -/
structure Steady (x y : Analysis) : Prop where
  store : x.store.Steady y.store
  classes : y.classes = x.classes
  cycles : y.cycleReports = x.cycleReports

instance : Std.Refl Steady := ⟨fun _ => ⟨Std.Refl.refl _, rfl, rfl⟩⟩

instance : IsTrans Analysis Steady :=
  ⟨fun _ _ _ h h' => ⟨IsTrans.trans _ _ _ h.store h'.store, h'.classes.trans h.classes,
    h'.cycles.trans h.cycles⟩⟩

theorem onTypes_steady {α : Type} {f : TypeStore → α × TypeStore}
    (h : ∀ types, TypeStore.Plain types (f types).2) : Moves Steady (onTypes f) :=
  fun x => ⟨.ofTypes (h x.store.types), rfl, rfl⟩

theorem reportAt_steady (a : Arena) {problem : Problem} (node : NodeRef)
    (h : problem ≠ .inheritanceCycle) : Moves Steady (reportAt a problem node) := by
  refine fun x => ⟨Std.Refl.refl _, rfl, ?_⟩
  show (x.diagnostics.push _).toList.filter _ = x.diagnostics.toList.filter _
  simp [h]

theorem setType_steady (r : NodeRef) (t : TypeId) : Moves Steady (setType r t) :=
  fun _ => ⟨Std.Refl.refl _, rfl, rfl⟩

end Analysis

namespace TypeExpr

open Analysis

theorem union2_steady (t u : TypeId) : Moves Steady (union2 t u) :=
  onTypes_steady fun types => .union types _

theorem setAliasTarget_steady (t target : TypeId) :
    Moves Steady (onTypes fun types => ((), types.setAliasTarget t target)) :=
  onTypes_steady fun types => .refl types

theorem defaultTarget_steady (a : Arena) (t : TypeId) (tag : NodeRef) :
    Moves Steady (defaultTarget a t tag) :=
  .bind (setAliasTarget_steady _ _) fun _ => .pure _

theorem named_steady (a : Arena) (t : TypeId) : Moves Steady (named a t) := by
  refine .bind .get fun x => ?_
  dsimp only
  split
  · exact .bind (union2_steady _ _) fun _ => .pure _
  · exact .bind (union2_steady _ _) fun _ => .pure _
  · split
    · exact .pure _
    · split
      · exact .pure _
      · exact .bind (defaultTarget_steady _ _ _) fun _ => .pure _
  · exact .pure _

/-- The type of the instances of what is a class or a constructed class. -/
theorem instanceType_steady {x : Analysis} {v : ValueId}
    (h : x.store.values.isClassLike v = true) :
    Steady x (Analyze.onStore (Store.instanceType v) x).2 := by
  refine ⟨?_, rfl, rfl⟩
  show x.store.Steady (Store.instanceType v x.store).2
  unfold Store.instanceType
  by_cases hv : (x.store.values.constructed? v).isSome
  · simp only [bind, StateT.bind, get, getThe, MonadStateOf.get, StateT.get, pure, hv, if_true]
    exact .constructedInstanceOf fun _ => hv
  · simp only [bind, StateT.bind, get, getThe, MonadStateOf.get, StateT.get, pure, hv]
    refine .instanceOf fun _ => ?_
    exact (ValueStore.isClassLike_iff.1 h).resolve_right hv

theorem typeName_steady (a : Arena) (n : Nat) : Moves Steady (typeName a n) := by
  refine .get_bind fun x => ?_
  split
  · split
    · exact (named_steady a _).movesFrom x
    · exact (Moves.pure _).movesFrom x
  · split
    · split
      · exact (named_steady a _).movesFrom x
      · dsimp only
        split
        · next hclass =>
          refine MovesFrom.bind (R := Steady) (instanceType_steady hclass) fun t => ?_
          exact .bind (union2_steady _ _) fun _ => .pure _
        · refine MovesFrom.bind (R := Steady) ?_ fun t => ?_
          · exact (onTypes_steady fun types => .intern types (by simp) (by simp)).movesFrom x
          · exact .bind (union2_steady _ _) fun _ => .pure _
    · dsimp only
      split
      · exact (Moves.bind (reportAt_steady a _ (by decide)) fun _ => .pure _).movesFrom x
      · exact (Moves.pure _).movesFrom x
  · exact (Moves.pure _).movesFrom x

/-- The class that an applied name is bound to is one. -/
theorem isSome_class?_of_appliedClass? {x : Analysis} {a : Arena} {name : NodeRef} {cls : ValueId}
    (h : appliedClass? x a name = some (some cls)) (hx : x.store.Named) :
    (x.store.values.class? cls).isSome := by
  unfold appliedClass? at h
  simp only at h
  split at h
  · split at h
    · split at h
      · next v hkey =>
        simp only [Option.some.injEq] at h
        exact h ▸ hx.instanceOf _ v hkey
      · simp at h
    · simp at h
  · simp only [Option.map_eq_some_iff] at h
    obtain ⟨v, _, h⟩ := h
    split at h
    · next hv => exact Option.some.inj h ▸ hv
    · simp at h
  · simp at h

/-- A class applied to types is a constructed class. -/
theorem isSome_constructed?_newConstructedClass {s : Store} {node : NodeRef} {generic : ValueId}
    {arguments : ListId}
    (h : Store.Named
      { s with values := (s.values.newConstructedClass node generic arguments).2 }) :
    ((s.values.newConstructedClass node generic arguments).2.constructed?
      (s.values.newConstructedClass node generic arguments).1).isSome := by
  have happlied := h.applied ⟨generic, arguments⟩
  unfold ValueStore.newConstructedClass at happlied ⊢
  split
  · next v hv =>
    simp only [hv] at happlied
    exact happlied v rfl
  · simp [ValueStore.constructed?, ValueStore.alloc, ValueStore.get?, Value.constructed?]

/-- Applying a class whose type of instances is there. -/
theorem constructed_steady (n : Nat) {cls : ValueId} (arguments : ListId) {x : Analysis}
    {raw : TypeId} (hraw : x.store.types.key? raw = some (.instanceOf cls)) :
    MovesFrom Steady x (do
      let constructed ← onValues (·.newConstructedClass (some n) cls arguments)
      let t ← onTypes (·.constructedInstanceOf constructed)
      union2 t .null) := by
  let values := (x.store.values.newConstructedClass (some n) cls arguments).2
  have hvalues : x.store.Steady { x.store with values } :=
    .newConstructedClass (some n) arguments fun hx => hx.instanceOf raw cls hraw
  have htypes := Store.Steady.constructedInstanceOf (s := { x.store with values })
    (isSome_constructed?_newConstructedClass (s := x.store))
  have hunion := union2_steady
    ((x.store.types.constructedInstanceOf
      (x.store.values.newConstructedClass (some n) cls arguments).1).1) .null
  refine IsTrans.trans (r := Steady) _ _ _ ?_ (hunion _)
  exact ⟨IsTrans.trans _ _ _ hvalues htypes, rfl, rfl⟩

theorem application_steady (a : Arena) (n : Nat) : Moves Steady (application a n) := by
  refine .get_bind fun x => ?_
  split
  · exact (Moves.pure _).movesFrom x
  · exact (Moves.bind (reportAt_steady a _ (by decide)) fun _ => .pure _).movesFrom x
  · next cls hcls =>
    have hinstance : Steady x (onTypes (·.instanceOf cls) x).2 :=
      ⟨.instanceOf (isSome_class?_of_appliedClass? hcls), rfl, rfl⟩
    have hkey : (onTypes (·.instanceOf cls) x).2.store.types.key?
        (x.store.types.instanceOf cls).1 = some (.instanceOf cls) :=
      x.store.types.key?_intern (.instanceOf cls)
    refine .bind_from (m := childTypes a n 1) (Moves.get.movesFrom x) ?_
    refine .bind_from (m := onTypes (·.instanceOf cls)) hinstance ?_
    split
    · exact (Moves.bind (reportAt_steady a _ (by decide)) fun _ => union2_steady _ _).movesFrom _
    · split
      · exact (Moves.bind (reportAt_steady a _ (by decide)) fun _ => union2_steady _ _).movesFrom _
      · refine .bind_from ((onTypes_steady fun types => .internList types _).movesFrom _) ?_
        exact constructed_steady n _ hkey

theorem childType_steady (a : Arena) (r : NodeRef) (i : Nat) : Moves Steady (childType a r i) :=
  .bind .get fun _ => .pure _

theorem childTypes_steady (a : Arena) (n skip : Nat) : Moves Steady (childTypes a n skip) :=
  .bind .get fun _ => .pure _

theorem nonNullable_steady (a : Arena) (n : Nat) : Moves Steady (nonNullable a n) := by
  refine .bind (childType_steady _ _ _) fun inner => .bind .get fun x => ?_
  refine .ite (fun _ => onTypes_steady fun types => .removeMember types _ _) fun _ => ?_
  exact .ite (fun _ => .bind (reportAt_steady a _ (by decide)) fun _ => .pure _) fun _ => .pure _

theorem fields_steady (a : Arena) (members : List NodeRef) (read : List (Atom × TypeId))
    (reported : List Atom) : Moves Steady (fields a read reported members) := by
  induction members generalizing read reported with
  | nil => exact .pure _
  | cons member rest ih =>
    unfold fields
    refine .ite (fun _ => .ite (fun _ => ih _ _) fun _ => ?_) fun _ => ?_
    · exact .bind (reportAt_steady a _ (by decide)) fun _ => ih _ _
    · exact .bind .get fun _ => ih _ _

/-- A parameter in the wrong place is no cycle. -/
theorem problem?_ne_inheritanceCycle (reached kind : ParameterKind) :
    ArityCount.problem? reached kind ≠ some .inheritanceCycle := by
  cases reached <;> cases kind <;> decide

theorem pushParameter_steady (a : Arena) (sig : Signature) (param : NodeRef) :
    Moves Steady (pushParameter a sig param) := by
  unfold pushParameter
  split
  · exact .bind (childType_steady _ _ _) fun _ => .pure _
  · exact .bind (childType_steady _ _ _) fun _ => .pure _
  · dsimp only
    split
    · next problem hproblem =>
      have hcycle : problem ≠ .inheritanceCycle := by
        rintro rfl
        exact problem?_ne_inheritanceCycle _ _ hproblem
      exact .bind (reportAt_steady a _ hcycle) fun _ => .bind .get fun _ => .pure _
    · exact .bind .get fun _ => .pure _

theorem function_steady (a : Arena) (n : Nat) : Moves Steady (function a n) := by
  refine .bind (.foldlM (fun sig param _ => pushParameter_steady a sig param) _) fun sig => ?_
  refine .bind .get fun x => ?_
  refine .bind (onTypes_steady fun types => .internList types _) fun parameters => ?_
  exact onTypes_steady fun types => .intern types (by simp) (by simp)

theorem meaning_steady (a : Arena) (n : Nat) (position : Position) :
    Moves Steady (meaning a n position) := by
  unfold meaning
  split
  · exact .pure _
  · exact .pure _
  · exact .pure _
  · exact typeName_steady a n
  · exact .bind (application_steady a n) fun _ => .pure _
  · exact .bind (childType_steady _ _ _) fun _ => .bind (union2_steady _ _) fun _ => .pure _
  · exact .bind (nonNullable_steady a n) fun _ => .pure _
  · refine .bind (childType_steady _ _ _) fun inner => ?_
    split
    · exact .bind (union2_steady _ _) fun _ => .pure _
    · exact .bind (reportAt_steady a _ (by decide)) fun _ => .pure _
  · refine .ite (fun _ => .bind (reportAt_steady a _ (by decide)) fun _ => ?_) fun _ => ?_
    · exact .bind (childType_steady _ _ _) fun _ => .pure _
    · exact .bind (childType_steady _ _ _) fun _ => .pure _
  · refine .bind (childTypes_steady _ _ _) fun types => ?_
    exact .bind (onTypes_steady fun types => .union types _) fun _ => .pure _
  · refine .bind (childTypes_steady _ _ _) fun types => ?_
    exact .bind (onTypes_steady fun types => .tuple types _) fun _ => .pure _
  · refine .bind .get fun x => ?_
    exact .bind (onTypes_steady fun types => .intern types (by simp) (by simp)) fun _ => .pure _
  · refine .bind (fields_steady _ _ _ _) fun fields => ?_
    exact .bind (onTypes_steady fun types => .record types _) fun _ => .pure _
  · exact .bind (function_steady a n) fun _ => .pure _
  · exact .bind (childType_steady _ _ _) fun _ => .pure _
  · exact .bind (childType_steady _ _ _) fun _ => .pure _
  · exact .pure _

/-- Whether a node is part of a type expression. -/
def IsTypeNode (a : Arena) (n : Nat) : Prop :=
  (a.kind? (some n)).any NodeKind.isTypeExpression = true

/-- Only a node of a type expression means something. -/
theorem isTypeNode_of_meaning {a : Arena} {n : Nat} {position : Position} {x : Analysis}
    (h : (meaning a n position x).1 ≠ .nothing) : IsTypeNode a n := by
  unfold IsTypeNode
  unfold meaning at h
  cases hkind : a.kind? (some n) with
  | none =>
    rw [hkind] at h
    exact absurd rfl h
  | some kind =>
    rw [hkind] at h
    cases kind <;> first
      | rfl
      | exact absurd rfl h

/-- A relation that the steps of a type expression move along is one that working out the whole
expression moves along. -/
theorem enter_moves {R : Analysis → Analysis → Prop} [Std.Refl R] [IsTrans Analysis R] {a : Arena}
    (hmeaning : ∀ n position, Moves R (meaning a n position))
    (htype : ∀ n t, IsTypeNode a n → Moves R (setType (some n) t))
    (htarget : ∀ t target, Moves R (onTypes fun types => ((), types.setAliasTarget t target)))
    (hreport : ∀ n, Moves R (reportAt a .cyclicTypedef (some n)))
    (expandable : List TypeId) (r : NodeRef) (position : Position) :
    Moves R (enter a expandable r position) := by
  match r with
  | none =>
    rw [enter_none]
    exact .pure ()
  | some n =>
    rw [enter_some]
    refine .bind .get fun x => .ite (fun _ => .pure ()) fun _ => ?_
    refine .bind (.forM fun (c, p) hc =>
      enter_moves hmeaning htype htarget hreport expandable c p) fun _ y => ?_
    refine MovesFrom.bind_from (R := R) (hmeaning n position y) ?_
    have hnode := @isTypeNode_of_meaning a n position y
    generalize (meaning a n position y).1 = m at hnode ⊢
    generalize (meaning a n position y).2 = z
    cases m with
    | nothing => exact (Moves.pure ()).movesFrom z
    | type t => exact (htype n t (hnode (by simp))).movesFrom z
    | expansion t operand =>
      have hnode := hnode (by simp)
      refine (Moves.ite (fun ht => .bind ?_ fun _ => ?_) fun _ => ?_).movesFrom z
      · exact enter_moves hmeaning htype htarget hreport (expandable.erase t) (some operand) .plain
      · exact .bind .get fun _ => .bind (htarget _ _) fun _ => htype _ _ hnode
      · exact .bind (hreport n) fun _ => htype _ _ hnode
termination_by effort a expandable r
decreasing_by
  · exact effort_operand_lt hc expandable
  · exact effort_erase_lt (by assumption) a _ _

/-- Working out a type expression leaves the classes alone. -/
theorem enter_steady (a : Arena) (expandable : List TypeId) (r : NodeRef) (position : Position) :
    Moves Steady (enter a expandable r position) :=
  enter_moves (meaning_steady a) (fun _ _ _ => setType_steady _ _) setAliasTarget_steady
    (fun _ => reportAt_steady a _ (by decide)) expandable r position

theorem transform_steady (a : Arena) (r : NodeRef) (position : Position) :
    Moves Steady (transform a r position) := by
  refine .ite (fun _ => .pure _) fun _ => .bind .get fun x => ?_
  exact .bind (enter_steady a _ r position) fun _ => .bind .get fun _ => .pure _

end TypeExpr

end DocTypes
