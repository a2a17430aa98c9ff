import DocTypes.Proofs.Hierarchy.Building
import DocTypes.Proofs.Hierarchy.Passes

/-!
# Generic classes and what they are applied to

A constructed class applies a class to a list of types. `Store.WellApplied` says that the class has
type parameters, no two of them the same, and that the list has as many types. Then a substitution
of the parameters takes every type to its own parameter and leaves none out, although it is made by
putting two lists side by side.

The number of types is looked at in one place, where a class is applied in a type expression.
Elsewhere the types of a list are changed one by one, so there are as many afterwards.

## Main statements

* `Substitution.map_get?_ofArguments`: every parameter gets its own type.
* `Store.instantiateClassWith_keepsArity`: putting types in for parameters.
* `TypeExpr.application_keepsArity`: applying a class in a type expression.
-/

namespace DocTypes

/-! ## Substitutions of lists -/

namespace Substitution

theorem ofArguments_cons (p t : TypeId) (ps ts : List TypeId) :
    ofArguments (p :: ps) (t :: ts) = ofArguments ps ts ++ [(p, t)] := by
  simp [ofArguments, ofPairs]

theorem mem_of_mem_ofArguments {ps ts : List TypeId} {entry : TypeId × TypeId}
    (h : entry ∈ ofArguments ps ts) : entry.1 ∈ ps := by
  have hzip : entry ∈ ps.zip ts := List.mem_reverse.1 h
  exact (List.of_mem_zip hzip).1

/-- Every parameter gets the type in its place, if there are as many types as parameters and no
parameter comes twice. -/
theorem map_get?_ofArguments {ps ts : List TypeId} (hnodup : ps.Nodup)
    (hlength : ts.length = ps.length) :
    ps.map (ofArguments ps ts).get? = ts.map some := by
  induction ps generalizing ts with
  | nil =>
    obtain rfl := List.length_eq_zero_iff.1 hlength
    rfl
  | cons p ps ih =>
    obtain ⟨t, ts, rfl⟩ := List.exists_cons_of_length_eq_add_one hlength
    obtain ⟨hp, hps⟩ := List.nodup_cons.1 hnodup
    have hself : (ofArguments (p :: ps) (t :: ts)).get? p = some t := by
      have hnone : (ofArguments ps ts).lookup p = none := by
        refine List.lookup_eq_none_iff.2 fun entry hentry => ?_
        have hne : p ≠ entry.1 := fun heq => hp (heq ▸ mem_of_mem_ofArguments hentry)
        simpa using hne
      rw [get?, ofArguments_cons, List.lookup_append, hnone]
      simp
    have hothers : ∀ q ∈ ps, (ofArguments (p :: ps) (t :: ts)).get? q =
        (ofArguments ps ts).get? q := by
      intro q hq
      have hne : (q == p) = false := by
        simpa using ne_of_mem_of_not_mem hq hp
      rw [get?, get?, ofArguments_cons, List.lookup_append, List.lookup_cons]
      simp [hne]
    rw [List.map_cons, List.map_cons, hself, List.map_congr_left hothers,
      ih hps (Nat.succ.inj hlength)]

end Substitution

/-! ## Stores -/

namespace Store

/-- The class at a number has type parameters, and the list has as many types. -/
def Takes (s : Store) (generic : ValueId) (arguments : ListId) : Prop :=
  ∃ cls, s.values.class? generic = some cls ∧ cls.typeParameters ≠ [] ∧ s.ListKnown arguments ∧
    (s.types.list arguments).length = cls.typeParameters.length

/-- No class has a type parameter twice, and every constructed class applies a class with type
parameters to as many types. -/
structure WellApplied (s : Store) : Prop where
  distinct : ∀ v cls, s.values.class? v = some cls → cls.typeParameters.Nodup
  takes : ∀ v data, s.values.constructed? v = some data → s.Takes data.generic data.arguments

/-- Classes keep their type parameters, and lists their types, and what is applied goes on to be
applied well. -/
structure KeepsArity (s t : Store) : Prop where
  parameters : ∀ v, (t.values.class? v).map (·.typeParameters) =
    (s.values.class? v).map (·.typeParameters)
  lists : ∀ (l : ListId) ts, s.types.lists.get? l.index = some ts →
    t.types.lists.get? l.index = some ts
  wellApplied : s.WellApplied → t.WellApplied

variable {s t u : Store} {generic : ValueId} {arguments : ListId}

/-- What a class takes it takes later on. -/
theorem Takes.mono (h : s.Takes generic arguments)
    (hparameters : ∀ cls, s.values.class? generic = some cls →
      ∃ later, t.values.class? generic = some later ∧ later.typeParameters = cls.typeParameters)
    (hlists : ∀ ts, s.types.lists.get? arguments.index = some ts →
      t.types.lists.get? arguments.index = some ts) : t.Takes generic arguments := by
  obtain ⟨cls, hcls, hsome, hknown, hlength⟩ := h
  obtain ⟨later, hlater, hsame⟩ := hparameters cls hcls
  obtain ⟨ts, hts⟩ := Option.isSome_iff_exists.1 hknown
  have hts' := hlists ts hts
  refine ⟨later, hlater, hsame ▸ hsome, Option.isSome_iff_exists.2 ⟨ts, hts'⟩, ?_⟩
  rw [TypeStore.list, hts] at hlength
  rw [TypeStore.list, hts', hsame]
  exact hlength

namespace KeepsArity

theorem refl (s : Store) : s.KeepsArity s := ⟨fun _ => rfl, fun _ _ => id, id⟩

theorem trans (h : s.KeepsArity t) (h' : t.KeepsArity u) : s.KeepsArity u :=
  ⟨fun v => (h'.parameters v).trans (h.parameters v), fun l ts hl =>
    h'.lists l ts (h.lists l ts hl),
    fun hs => h'.wellApplied (h.wellApplied hs)⟩

theorem class? (h : s.KeepsArity t) {v : ValueId} {cls : ClassData}
    (hcls : s.values.class? v = some cls) :
    ∃ later, t.values.class? v = some later ∧ later.typeParameters = cls.typeParameters := by
  have hparameters := h.parameters v
  rw [hcls, Option.map_some, Option.map_eq_some_iff] at hparameters
  exact hparameters

/-- A change after which nothing is applied but what a class takes. -/
theorem ofTakes (hparameters : ∀ v, (t.values.class? v).map (·.typeParameters) =
      (s.values.class? v).map (·.typeParameters))
    (hlists : ∀ (l : ListId) ts, s.types.lists.get? l.index = some ts →
      t.types.lists.get? l.index = some ts)
    (htakes : s.WellApplied → ∀ v data, t.values.constructed? v = some data →
      s.Takes data.generic data.arguments) : s.KeepsArity t := by
  have hclass (v : ValueId) (cls : ClassData) (hcls : s.values.class? v = some cls) :
      ∃ later, t.values.class? v = some later ∧ later.typeParameters = cls.typeParameters := by
    have hsame := hparameters v
    rw [hcls, Option.map_some, Option.map_eq_some_iff] at hsame
    exact hsame
  refine ⟨hparameters, hlists, fun hs => ⟨fun v cls hcls => ?_, fun v data hdata => ?_⟩⟩
  · have hsame := hparameters v
    rw [hcls, Option.map_some] at hsame
    obtain ⟨old, hold, heq⟩ := Option.map_eq_some_iff.1 hsame.symm
    exact heq ▸ hs.distinct v old hold
  · exact (htakes hs v data hdata).mono (hclass data.generic) (hlists data.arguments)

/-- A change of the values in which no class is applied. -/
theorem ofValues {values : ValueStore}
    (hparameters : ∀ v, (values.class? v).map (·.typeParameters) =
      (s.values.class? v).map (·.typeParameters))
    (hconstructed : ∀ v data, values.constructed? v = some data → ∃ old,
      s.values.constructed? v = some old ∧ old.generic = data.generic ∧ old.arguments =
        data.arguments) :
    s.KeepsArity { s with values } := by
  refine ofTakes hparameters (fun _ _ => id) fun hs v data hdata => ?_
  obtain ⟨old, hold, hgeneric, harguments⟩ := hconstructed v data hdata
  exact hgeneric ▸ harguments ▸ hs.takes v old hold

/-- At last a class is applied to what it takes. -/
theorem newConstructedClass (h : s.KeepsArity t) (node : NodeRef)
    (htakes : s.WellApplied → t.Takes generic arguments) :
    s.KeepsArity { t with values := (t.values.newConstructedClass node generic arguments).2 } := by
  have hclasses := t.values.class?_newConstructedClass node generic arguments
  refine ⟨fun v => ?_, h.lists, fun hs => ?_⟩
  · rw [hclasses]
    exact h.parameters v
  · refine KeepsArity.wellApplied (s := t) (.ofTakes (fun v => ?_) (fun _ _ => id) ?_)
      (h.wellApplied hs)
    · rw [hclasses]
    · intro ht v data hdata
      rcases t.values.constructed?_newConstructedClass node generic arguments v with heq | ⟨-, heq⟩
      · exact ht.takes v data (heq ▸ hdata)
      · obtain rfl := Option.some.inj (heq.symm.trans hdata)
        exact htakes hs

end KeepsArity

instance : Std.Refl KeepsArity := ⟨.refl⟩

instance : IsTrans Store KeepsArity := ⟨fun _ _ _ => .trans⟩

theorem onTypes_keepsArity {α : Type} {f : TypeStore → α × TypeStore} {P : TypeKey → Prop}
    (h : ∀ types : TypeStore, types.Interns P (f types).2) :
    Moves KeepsArity (onTypes f) := fun s =>
  .ofTakes (fun _ => rfl) (fun _ _ => (h s.types).list_eq) fun hs => hs.takes

theorem length_mapM {α β σ : Type} (f : α → StateM σ β) (xs : List α) (s : σ) :
    (xs.mapM f s).1.length = xs.length := by
  induction xs generalizing s with
  | nil =>
    rw [List.mapM_nil]
    rfl
  | cons x xs ih =>
    rw [List.mapM_cons]
    exact congrArg Nat.succ (ih _)

/-- A class that is applied to types is applied to as many types that are put in. -/
theorem instantiateClassWith_keepsArity {inst : TypeId → StateM Store TypeId}
    (h : ∀ t, Moves KeepsArity (inst t)) (v : ValueId) :
    Moves KeepsArity (instantiateClassWith inst v) := by
  refine .get_bind fun s => ?_
  split
  · next node members data hdata =>
    let types := s.types.list data.arguments
    let t := (types.mapM inst s).2
    let us := (types.mapM inst s).1
    have ht : s.KeepsArity t := Moves.mapM (fun t _ => h t) s
    have hu := onTypes_keepsArity (fun types => .internList (P := fun _ => True) types us) t
    refine KeepsArity.newConstructedClass (ht.trans hu) node fun hs => ?_
    have hget : s.values.constructed? v = some data := by
      rw [ValueStore.constructed?, hdata]
      rfl
    obtain ⟨cls, hcls, hsome, -, hlength⟩ := hs.takes v data hget
    obtain ⟨later, hlater, hsame⟩ := (ht.trans hu).class? hcls
    refine ⟨later, hlater, hsame ▸ hsome, Canonical.listKnown_internList t us, ?_⟩
    have hlist : (t.types.internList us).2.list (t.types.internList us).1 = us :=
      t.types.list_internList us
    rw [hsame, ← hlength]
    exact (congrArg List.length hlist).trans (length_mapM inst types s)
  · exact .refl s

instance : Instantiating KeepsArity where
  interns := onTypes_keepsArity
  instantiates := instantiateClassWith_keepsArity

/-- Bases or ancestors of a class are noted. -/
theorem updateClass_keepsArity (s : Store) (v : ValueId) {f : ClassData → ClassData}
    (hf : ∀ cls, (f cls).typeParameters = cls.typeParameters) :
    s.KeepsArity { s with values := s.values.updateClass v f } := by
  refine .ofValues (fun w => ?_) fun w data hdata => ⟨data, ?_, rfl, rfl⟩
  · rw [ValueStore.class?_updateClass]
    split
    · rw [Option.map_map]
      exact congrArg (Option.map · _) (funext hf)
    · rfl
  · rwa [ValueStore.constructed?_updateClass] at hdata

/-- Ancestors of a constructed class are noted. -/
theorem finalizeConstructed_keepsArity (v : ValueId) :
    Moves KeepsArity (finalizeConstructed v) := by
  refine .bind (directBases_applies v) fun _ => .bind (linearize_applies _) fun ancestors s => ?_
  refine .ofValues (fun w => congrArg _ (class?_updateConstructed s.values v w _))
    fun w data hdata => ?_
  have hget : (s.values.updateConstructed v _).constructed? w = some data := hdata
  rw [ValueStore.constructed?_updateConstructed] at hget
  split at hget
  · obtain ⟨old, hold, rfl⟩ := Option.map_eq_some_iff.1 hget
    exact ⟨old, hold, rfl, rfl⟩
  · exact ⟨data, hget, rfl, rfl⟩

theorem finalizeAllConstructed_keepsArity : Moves KeepsArity finalizeAllConstructed :=
  finalizeAllConstructed_moves finalizeConstructed_keepsArity

end Store

/-! ## Type expressions -/

namespace Analysis

/-- What is applied goes on to be applied well. -/
def KeepsArity (x y : Analysis) : Prop := x.store.KeepsArity y.store

instance : Std.Refl KeepsArity := ⟨fun x => .refl x.store⟩

instance : IsTrans Analysis KeepsArity := ⟨fun _ _ _ => Store.KeepsArity.trans⟩

/-- Steps that do not touch the store. -/
theorem keepsArity_of_store {α : Type} {m : Analyze α} (h : ∀ x, (m x).2.store = x.store) :
    Moves KeepsArity m := fun x => by
  rw [KeepsArity, h x]
  exact .refl x.store

instance : Interpreting KeepsArity where
  interns h x := Store.onTypes_keepsArity h x.store
  targets _ _ _ := .ofTakes (fun _ => rfl) (fun _ _ => id) fun hx => hx.takes
  reports _ _ := keepsArity_of_store fun _ => rfl

end Analysis

namespace TypeExpr

open Analysis

/-- A class is applied if there are as many types as it has parameters. -/
theorem application_keepsArity (a : Arena) (n : Nat) : Moves KeepsArity (application a n) := by
  refine .get_bind fun x => ?_
  have hplain (problem : Problem) (hproblem : problem ≠ .cyclicTypedef) (raw : TypeId) :
      Moves KeepsArity (do Analysis.reportAt a problem (some n); union2 raw .null) :=
    .bind (reportAt_moves a _ hproblem) fun _ => union2_moves _ _
  split
  · exact Moves.movesFrom (.pure _) x
  · exact Moves.movesFrom (.bind (reportAt_moves a _ (by decide)) fun _ => .pure _) x
  · next cls _ =>
    let types := (childTypes a n 1 x).1
    have hraw : x.KeepsArity (onTypes (·.instanceOf cls) x).2 := instanceOf_moves cls x
    refine .bind_from (Std.Refl.refl x) (.bind_from hraw ?_)
    split
    · exact (hplain _ (by decide) _).movesFrom _
    split
    · exact (hplain _ (by decide) _).movesFrom _
    · next hcount hlength =>
      let y := (onTypes (·.instanceOf cls) x).2
      have hlist : y.KeepsArity (onTypes (·.internList types) y).2 := internList_moves types y
      -- the class was looked up before, and only types were made since
      have htakes : Store.Takes (onTypes (·.internList types) y).2.store cls
          (onTypes (·.internList types) y).1 := by
        cases hcls : x.store.values.class? cls with
        | none => exact (hcount (by rw [hcls]; rfl)).elim
        | some data =>
          have hsame : types.length = data.typeParameters.length := by
            rw [hcls] at hlength
            exact (not_not.1 hlength).symm
          have hback : (y.store.types.internList types).2.list
              (y.store.types.internList types).1 = types :=
            y.store.types.list_internList types
          refine ⟨data, hcls, fun hnone => hcount ?_,
            Store.Canonical.listKnown_internList y.store types, ?_⟩
          · rw [hcls, Option.map_some, hnone]
            rfl
          · rw [← hsame]
            exact congrArg List.length hback
      have happlied := (Store.KeepsArity.refl _).newConstructedClass (some n) fun _ => htakes
      refine .bind_from hlist (.bind happlied fun constructed => ?_)
      refine .bind (Interpreting.interns fun types => ?_) fun t => union2_moves _ _
      exact .intern types (by simp [Ordinary])

end TypeExpr

namespace Analysis

instance : Evaluating KeepsArity where
  applications := TypeExpr.application_keepsArity

instance (a : Arena) : Declaring a KeepsArity where
  typed _ _ _ := keepsArity_of_store fun _ => rfl
  cyclic _ := keepsArity_of_store fun _ => rfl
  aliases name tag x :=
    Store.onTypes_keepsArity (f := (·.aliasOf name tag)) (P := fun _ => True)
      (fun types => .intern types trivial) x.store

instance : Annotating KeepsArity where
  sets _ _ := keepsArity_of_store fun _ => rfl
  setsIfNew _ _ := keepsArity_of_store fun _ => rfl
  declares _ _ := keepsArity_of_store fun _ => rfl

theorem onStore_keepsArity {α : Type} {m : StateM Store α} (hm : Moves Store.KeepsArity m) :
    Moves KeepsArity (Analyze.onStore m) := fun x => hm x.store

instance (a : Arena) : Building a KeepsArity where
  notesBases cls _ x := Store.updateClass_keepsArity x.store cls fun _ => rfl
  finalizes cls := by
    refine onStore_keepsArity (.bind .get fun s => ?_)
    split
    · refine .bind (Store.linearize_applies _) fun ancestors s => ?_
      exact Store.updateClass_keepsArity s cls fun _ => rfl
    · exact .pure _
  completes := onStore_keepsArity Store.finalizeAllConstructed_keepsArity

end Analysis

end DocTypes
