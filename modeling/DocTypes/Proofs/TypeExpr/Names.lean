import DocTypes.Proofs.Handles.TypeExpr
import DocTypes.Proofs.TypeExpr.Evaluating

/-!
# What type names resolve by

A simple type name means what the first pass bound it to, and a dotted one is followed through
the values and their members. Once names are bound, a run adds types, applies classes and notes
what it finds out about classes, and nothing that a name resolves by is changed by that
(`Analysis.KeepsNames`). Working out the meaning of a node does no more than that
(`TypeExpr.Evaluates`), and working out an expression gives types to nodes of type expressions
besides (`TypeExpr.Fills`).

## Main statements

* `Analysis.KeepsNames.resolvePath_eq`: a dotted path goes on to stand for the same.
* `TypeExpr.meaning_evaluates`, `TypeExpr.enter_fills`: what the steps leave alone.
-/

namespace DocTypes

/-! ## Values -/

/-- The values have the same node, the same table, and are of the same sort, with the same
slot if they have one. -/
def Value.SameOutline (v w : Value) : Prop :=
  w.node = v.node ∧ w.table = v.table ∧
    match v.data, w.data with
    | .classValue _, .classValue _ | .constructedClass _, .constructedClass _ => True
    | data, data' => data' = data

namespace Value.SameOutline

variable {u v w : Value}

theorem refl (v : Value) : v.SameOutline v := by
  obtain ⟨node, table, data⟩ := v
  cases data <;> exact ⟨rfl, rfl, by simp⟩

theorem trans (h : u.SameOutline v) (h' : v.SameOutline w) : u.SameOutline w := by
  obtain ⟨hnode, htable, hdata⟩ := h
  obtain ⟨hnode', htable', hdata'⟩ := h'
  refine ⟨hnode'.trans hnode, htable'.trans htable, ?_⟩
  cases hu : u.data <;> cases hv : v.data <;> cases hw : w.data <;> simp_all

theorem slot?_eq (h : v.SameOutline w) : w.slot? = v.slot? := by
  obtain ⟨-, -, hdata⟩ := h
  unfold Value.slot?
  cases hv : v.data <;> cases hw : w.data <;> simp_all

theorem mapClass (v : Value) (f : ClassData → ClassData) : v.SameOutline (v.mapClass f) := by
  obtain ⟨node, table, data⟩ := v
  cases data <;> exact ⟨rfl, rfl, by simp [Value.mapClass]⟩

theorem mapConstructed (v : Value) (f : ConstructedData → ConstructedData) :
    v.SameOutline (v.mapConstructed f) := by
  obtain ⟨node, table, data⟩ := v
  cases data <;> exact ⟨rfl, rfl, by simp [Value.mapConstructed]⟩

end Value.SameOutline

/-- Every value that was there is still there with the same outline, and the tables are the same. -/
structure ValueStore.Outlines (s s' : ValueStore) : Prop where
  values : ∀ v value, s.get? v = some value →
    ∃ value', s'.get? v = some value' ∧ value.SameOutline value'
  tables : s'.tables = s.tables

namespace ValueStore.Outlines

variable {s s' s'' : ValueStore}

theorem refl (s : ValueStore) : s.Outlines s := ⟨fun _ value h => ⟨value, h, .refl value⟩, rfl⟩

theorem trans (h : s.Outlines s') (h' : s'.Outlines s'') : s.Outlines s'' := by
  refine ⟨fun v value hv => ?_, h'.tables.trans h.tables⟩
  obtain ⟨value', hv', hsame⟩ := h.values v value hv
  obtain ⟨value'', hv'', hsame'⟩ := h'.values v value' hv'
  exact ⟨value'', hv'', hsame.trans hsame'⟩

theorem newConstructedClass (s : ValueStore) (node : NodeRef) (generic : ValueId)
    (arguments : ListId) : s.Outlines (s.newConstructedClass node generic arguments).2 := by
  refine ⟨fun v value hv => ?_, (s.tables_newConstructedClass node generic arguments).1⟩
  rcases s.get?_newConstructedClass node generic arguments v with h | ⟨hnone, -⟩
  · exact ⟨value, h.trans hv, .refl value⟩
  · rw [hnone] at hv
    cases hv

theorem update (s : ValueStore) (v : ValueId) {f : Value → Value}
    (h : ∀ value : Value, value.SameOutline (f value)) : s.Outlines (s.update v f) := by
  refine ⟨fun w value hw => ?_, s.tables_update v f⟩
  rw [get?_update]
  split
  · exact ⟨f value, by rw [hw, Option.map_some], h value⟩
  · exact ⟨value, hw, .refl value⟩

theorem updateClass (s : ValueStore) (v : ValueId) (f : ClassData → ClassData) :
    s.Outlines (s.updateClass v f) := update s v fun value => .mapClass value f

theorem updateConstructed (s : ValueStore) (v : ValueId) (f : ConstructedData → ConstructedData) :
    s.Outlines (s.updateConstructed v f) := update s v fun value => .mapConstructed value f

variable {v : ValueId} (h : s.Outlines s') (hv : (s.get? v).isSome)
include h hv

theorem slot?_eq : s'.slot? v = s.slot? v := by
  obtain ⟨value, hvalue⟩ := Option.isSome_iff_exists.1 hv
  obtain ⟨value', hvalue', hsame⟩ := h.values v value hvalue
  rw [slot?, slot?, hvalue, hvalue', Option.bind_some, Option.bind_some, hsame.slot?_eq]

theorem members_eq : s'.members v = s.members v := by
  obtain ⟨value, hvalue⟩ := Option.isSome_iff_exists.1 hv
  obtain ⟨value', hvalue', hsame⟩ := h.values v value hvalue
  have htable : s'.table? = s.table? := funext fun t => by rw [table?, table?, h.tables]
  rw [members, members, tableOf?, tableOf?, hvalue, hvalue', Option.bind_some, Option.bind_some,
    hsame.2.1, htable]

theorem node_eq : (s'.get? v).bind (·.node) = (s.get? v).bind (·.node) := by
  obtain ⟨value, hvalue⟩ := Option.isSome_iff_exists.1 hv
  obtain ⟨value', hvalue', hsame⟩ := h.values v value hvalue
  rw [hvalue, hvalue', Option.bind_some, Option.bind_some, hsame.1]

end ValueStore.Outlines

/-! ## Names -/

namespace Analysis

/-- What type names resolve by stays as it is. -/
structure KeepsNames (x y : Analysis) : Prop where
  valueTable : y.valueTable = x.valueTable
  namedTypes : y.namedTypes = x.namedTypes
  values : x.store.values.Outlines y.store.values
  keys : ∀ t key, x.store.types.key? t = some key → y.store.types.key? t = some key

namespace KeepsNames

variable {x y z : Analysis}

theorem refl (x : Analysis) : x.KeepsNames x := ⟨rfl, rfl, .refl _, fun _ _ h => h⟩

theorem trans (h : x.KeepsNames y) (h' : y.KeepsNames z) : x.KeepsNames z :=
  ⟨h'.valueTable.trans h.valueTable, h'.namedTypes.trans h.namedTypes, h.values.trans h'.values,
    fun t key hkey => h'.keys t key (h.keys t key hkey)⟩

instance : Std.Refl KeepsNames := ⟨refl⟩

instance : IsTrans Analysis KeepsNames := ⟨fun _ _ _ => trans⟩

/-- New numbers change no key that is there. -/
theorem ofInterns {P : TypeKey → Prop} {types : TypeStore} (h : x.store.types.Interns P types) :
    x.KeepsNames { x with store := { x.store with types } } :=
  ⟨rfl, rfl, .refl _, fun _ _ hkey => h.key?_of_some hkey⟩

theorem ofValues {values : ValueStore} (h : x.store.values.Outlines values) :
    x.KeepsNames { x with store := { x.store with values } } := ⟨rfl, rfl, h, fun _ _ hkey => hkey⟩

theorem valueOf?_eq (h : x.KeepsNames y) (r : NodeRef) : y.valueOf? r = x.valueOf? r := by
  rw [valueOf?, valueOf?, h.valueTable]

theorem namedType?_eq (h : x.KeepsNames y) (v : ValueId) : y.namedType? v = x.namedType? v := by
  rw [namedType?, namedType?, h.namedTypes]

theorem isSolid_eq (h : x.KeepsNames y) {v : ValueId} (hv : x.store.ValueKnown v) :
    y.isSolid v = x.isSolid v := by
  obtain ⟨value, hvalue⟩ := Option.isSome_iff_exists.1 hv
  obtain ⟨value', hvalue', -, -, hdata⟩ := h.values.values v value hvalue
  unfold isSolid
  rw [hvalue, hvalue']
  obtain ⟨node, members, data⟩ := value
  obtain ⟨node', members', data'⟩ := value'
  cases data <;> cases data' <;> simp_all

theorem slot?_eq (h : x.KeepsNames y) {v : ValueId} (hv : x.store.ValueKnown v) :
    y.store.values.slot? v = x.store.values.slot? v := h.values.slot?_eq hv

section Paths

variable (h : x.KeepsNames y) (hx : x.Closed)
include h hx

theorem solidSite?_eq (writes : List NodeRef) : y.solidSite? writes = x.solidSite? writes := by
  unfold solidSite?
  refine congrArg (List.findSome? · writes) (funext fun site => ?_)
  rw [h.valueOf?_eq]
  cases hv : x.valueOf? site with
  | none => rfl
  | some v => rw [Option.filter_some, Option.filter_some, h.isSolid_eq (hx.values site v hv)]

theorem aliasSite?_eq (v : ValueId) (writes : List NodeRef) :
    y.aliasSite? v writes = x.aliasSite? v writes := by
  unfold aliasSite?
  refine congrArg (List.findSome? · writes) (funext fun site => ?_)
  rw [h.valueOf?_eq]
  cases hw : x.valueOf? site with
  | none => rfl
  | some w => rw [Option.filter_some, Option.filter_some, h.slot?_eq (hx.values site w hw)]

/-- A known value goes on to stand for the same. -/
theorem denote_eq {v : ValueId} (hv : x.store.ValueKnown v) : y.denote v = x.denote v := by
  have hsteps : ∀ steps v, x.store.ValueKnown v → y.denoteIn steps v = x.denoteIn steps v := by
    intro steps
    induction steps with
    | zero => exact fun _ _ => rfl
    | succ steps ih =>
      intro v hv
      unfold denoteIn
      rw [h.slot?_eq hv]
      cases x.store.values.slot? v with
      | none => rfl
      | some slot =>
        simp only [h.solidSite?_eq hx, h.aliasSite?_eq hx]
        cases x.solidSite? slot.writes with
        | some w => rfl
        | none =>
          cases halias : x.aliasSite? v slot.writes with
          | none => rfl
          | some w => exact ih w (hx.valueKnown_findSome? halias)
  exact hsteps _ v hv

/-- A dotted path goes on to stand for the same. -/
theorem resolvePath_eq (a : Arena) (r : NodeRef) : y.resolvePath a r = x.resolvePath a r := by
  match r with
  | none => rw [resolvePath, resolvePath]
  | some n =>
    rw [resolvePath, resolvePath]
    split
    · rw [resolvePath_eq a (a.child (some n) 0)]
      cases hobject : x.resolvePath a (a.child (some n) 0) with
      | none => rfl
      | some object =>
        have hknown := hx.valueKnown_resolvePath a hobject
        rw [Option.bind_some, Option.bind_some, h.denote_eq hx hknown, ValueStore.property?,
          ValueStore.property?, h.values.members_eq (hx.valueKnown_denote hknown)]
    · exact h.valueOf?_eq _
    · rfl
termination_by r.rank
decreasing_by exact Arena.rank_child_lt a n 0

end Paths

end KeepsNames

end Analysis

/-! ## The meaning of a node -/

namespace TypeExpr

open Analysis

/-- The reports of aliases that are defined through themselves. -/
def cyclicReports (x : Analysis) : List Diagnostic :=
  x.diagnostics.toList.filter (·.problem = .cyclicTypedef)

/-- A type that is an alias. -/
def IsAlias (x : Analysis) (t : TypeId) : Prop :=
  ∃ name tag, x.store.types.key? t = some (.aliasOf name tag)

/-- No node gets a type, no alias is made, none loses what it stands for, and no cycle is
reported. -/
structure Evaluates (x y : Analysis) : Prop extends x.KeepsNames y where
  typeTable : y.typeTable = x.typeTable
  aliases : ∀ t, IsAlias y t → IsAlias x t
  targets : ∀ t, (x.store.types.aliasTarget? t).isSome → (y.store.types.aliasTarget? t).isSome
  reports : cyclicReports y = cyclicReports x

namespace Evaluates

variable {x y z : Analysis}

theorem refl (x : Analysis) : Evaluates x x := ⟨.refl x, rfl, fun _ => id, fun _ => id, rfl⟩

theorem trans (h : Evaluates x y) (h' : Evaluates y z) : Evaluates x z :=
  ⟨h.toKeepsNames.trans h'.toKeepsNames, h'.typeTable.trans h.typeTable,
    fun t ht => h.aliases t (h'.aliases t ht), fun t ht => h'.targets t (h.targets t ht),
    h'.reports.trans h.reports⟩

instance : Std.Refl Evaluates := ⟨refl⟩

instance : IsTrans Analysis Evaluates := ⟨fun _ _ _ => trans⟩

end Evaluates

theorem onTypes_evaluates {α : Type} {f : TypeStore → α × TypeStore}
    (h : ∀ types : TypeStore, types.Interns Ordinary (f types).2) :
    Moves Evaluates (onTypes f) := by
  intro x
  have hinterns := h x.store.types
  refine ⟨.ofInterns hinterns, rfl, ?_, fun t ht => ?_, rfl⟩
  · rintro t ⟨name, tag, hkey⟩
    exact ⟨name, tag, (hinterns.key?_cases hkey).resolve_right fun hother => hother name tag rfl⟩
  · show (List.lookup t (f x.store.types).2.aliasTargets).isSome
    rw [hinterns.aliasTargets_eq]
    exact ht

theorem report_evaluates (d : Diagnostic) (h : d.problem ≠ .cyclicTypedef) :
    Moves Evaluates (report d) := by
  refine fun x => ⟨⟨rfl, rfl, .refl _, fun _ _ h => h⟩, rfl, fun _ => id, fun _ => id, ?_⟩
  show (x.diagnostics.push _).toList.filter _ = x.diagnostics.toList.filter _
  simp [h]

theorem lookup_setAliasTarget (types : TypeStore) (t target u : TypeId) :
    (types.setAliasTarget t target).aliasTarget? u =
      if u = t then some target else types.aliasTarget? u := by
  show List.lookup u ((t, target) :: types.aliasTargets) = _
  rw [List.lookup_cons]
  by_cases h : u = t
  · simp [h]
  · rw [if_neg h, show (u == t) = false from beq_eq_false_iff_ne.2 h]
    rfl

theorem setAliasTarget_evaluates (t target : TypeId) :
    Moves Evaluates (onTypes fun types => ((), types.setAliasTarget t target)) := by
  refine fun x => ⟨⟨rfl, rfl, .refl _, fun _ _ h => h⟩, rfl, fun _ => id, fun u hu => ?_, rfl⟩
  show ((x.store.types.setAliasTarget t target).aliasTarget? u).isSome
  rw [lookup_setAliasTarget]
  split
  · rfl
  · exact hu

theorem newConstructedClass_evaluates (node : NodeRef) (generic : ValueId) (arguments : ListId) :
    Moves Evaluates (onValues (·.newConstructedClass node generic arguments)) := fun _ =>
  ⟨.ofValues (.newConstructedClass _ _ _ _), rfl, fun _ => id, fun _ => id, rfl⟩

instance : Interpreting Evaluates where
  interns := onTypes_evaluates
  targets := setAliasTarget_evaluates
  reports := report_evaluates

instance : Evaluating Evaluates where
  applications := application_moves newConstructedClass_evaluates

/-- Working out what a node means gives no node a type. -/
theorem meaning_evaluates (a : Arena) (n : Nat) (position : Position) :
    Moves Evaluates (meaning a n position) := meaning_moves a n position

/-! ## Whole expressions -/

/-- Nodes of type expressions get types, no node loses one, and no alias is made or loses what it
stands for. -/
structure Fills (a : Arena) (x y : Analysis) : Prop extends x.KeepsNames y where
  aliases : ∀ t, IsAlias y t → IsAlias x t
  targets : ∀ t, (x.store.types.aliasTarget? t).isSome → (y.store.types.aliasTarget? t).isSome
  typed : ∀ r, (x.typeOf? r).isSome → (y.typeOf? r).isSome
  others : ∀ r, (∀ n, r = some n → ¬IsTypeNode a n) → y.typeOf? r = x.typeOf? r

namespace Fills

variable {a : Arena} {x y z : Analysis}

theorem refl (a : Arena) (x : Analysis) : Fills a x x :=
  ⟨.refl x, fun _ => id, fun _ => id, fun _ => id, fun _ _ => rfl⟩

theorem trans (h : Fills a x y) (h' : Fills a y z) : Fills a x z :=
  ⟨h.toKeepsNames.trans h'.toKeepsNames, fun t ht => h.aliases t (h'.aliases t ht),
    fun t ht => h'.targets t (h.targets t ht), fun r hr => h'.typed r (h.typed r hr),
    fun r hr => (h'.others r hr).trans (h.others r hr)⟩

instance : Std.Refl (Fills a) := ⟨refl a⟩

instance : IsTrans Analysis (Fills a) := ⟨fun _ _ _ => trans⟩

theorem isAlias_iff (h : Fills a x y) {t : TypeId} : IsAlias y t ↔ IsAlias x t := by
  constructor
  · exact h.aliases t
  · rintro ⟨name, tag, hkey⟩
    exact ⟨name, tag, h.keys t _ hkey⟩

end Fills

theorem Evaluates.typeOf?_eq {x y : Analysis} (h : Evaluates x y) (r : NodeRef) :
    y.typeOf? r = x.typeOf? r := by
  rw [typeOf?, typeOf?, h.typeTable]

theorem Evaluates.fills {x y : Analysis} (h : Evaluates x y) (a : Arena) : Fills a x y where
  toKeepsNames := h.toKeepsNames
  aliases := h.aliases
  targets := h.targets
  typed r hr := by rwa [h.typeOf?_eq]
  others r _ := h.typeOf?_eq r

theorem typeOf?_setType (x : Analysis) (r q : NodeRef) (t : TypeId) :
    (setType r t x).2.typeOf? q = if r = q then some t else x.typeOf? q :=
  NodeTable.get?_insert x.typeTable r q t

theorem setType_fills (a : Arena) {n : Nat} (hn : IsTypeNode a n) (t : TypeId) :
    Moves (Fills a) (setType (some n) t) := by
  refine fun x => ⟨⟨rfl, rfl, .refl _, fun _ _ h => h⟩, fun _ => id, fun _ => id, fun r hr => ?_,
    fun r hr => ?_⟩
  · rw [typeOf?_setType]
    split
    · rfl
    · exact hr
  · rw [typeOf?_setType, if_neg]
    intro heq
    exact hr n heq.symm hn

theorem reportAt_fills (a : Arena) (problem : Problem) (r : NodeRef) :
    Moves (Fills a) (reportAt a problem r) :=
  fun _ => ⟨⟨rfl, rfl, .refl _, fun _ _ h => h⟩, fun _ => id, fun _ => id, fun _ =>
    id, fun _ _ => rfl⟩

theorem meaning_fills (a : Arena) (n : Nat) (position : Position) :
    Moves (Fills a) (meaning a n position) := fun x => (meaning_evaluates a n position x).fills a

/-- Working out an expression gives types to nodes of type expressions alone. -/
theorem enter_fills (a : Arena) (expandable : List TypeId) (r : NodeRef) (position : Position) :
    Moves (Fills a) (enter a expandable r position) := by
  refine enter_moves (meaning_fills a) (fun n t hn => setType_fills a hn t) (fun t target x => ?_)
    (fun n => reportAt_fills a _ (some n)) expandable r position
  exact (setAliasTarget_evaluates t target x).fills a

end TypeExpr

end DocTypes
