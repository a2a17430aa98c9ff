import DocTypes.Proofs.Hierarchy.Building
import DocTypes.Proofs.Hierarchy.Passes
import DocTypes.Proofs.Nodes.Sites

/-!
# Types that stay as they are

After names are bound, the node and the sort of every class stay the same, and so does what every
slot is read by. `Analysis.Bypasses` says so of two states, and that one node has the same type in
both. The second pass passes over every node that is no part of a type expression.

## Main statements

* `Analysis.SameSites.placed`: values that stand where they have to go on to do so.
* `Analysis.Change.typed`, `Analysis.Change.bound`: entries of nodes are never taken back.
* `Hierarchy.build_bypasses`: what the second pass passes over.
-/

namespace DocTypes

open Relation

/-! ## Values -/

namespace ValueStore

/-- The node and the sort of a class. -/
def classSite? (s : ValueStore) (v : ValueId) : Option (NodeRef × ClassKind) :=
  (s.get? v).bind fun value => value.class?.map fun data => (value.node, data.kind)

theorem classSite?_eq_some_iff {s : ValueStore} {v : ValueId} {node : NodeRef} {kind : ClassKind} :
    s.classSite? v = some (node, kind) ↔
      ∃ data, s.class? v = some data ∧ data.kind = kind ∧ (s.get? v).bind (·.node) = node := by
  unfold classSite? class?
  cases s.get? v with
  | none => simp
  | some value => simp [and_comm]

theorem isSome_classSite? (s : ValueStore) (v : ValueId) :
    (s.classSite? v).isSome = (s.class? v).isSome := by
  unfold classSite? class?
  cases s.get? v with
  | none => rfl
  | some value => rw [Option.bind_some, Option.isSome_map, Option.bind_some]

/-- The classes are of the same sort and at the same nodes, and the slots are the same. -/
structure SameSites (s s' : ValueStore) : Prop where
  classes : ∀ v, s'.classSite? v = s.classSite? v
  slots : ∀ v, s'.slot? v = s.slot? v

namespace SameSites

variable {s s' s'' : ValueStore}

theorem refl (s : ValueStore) : s.SameSites s := ⟨fun _ => rfl, fun _ => rfl⟩

theorem trans (h : s.SameSites s') (h' : s'.SameSites s'') : s.SameSites s'' :=
  ⟨fun v => (h'.classes v).trans (h.classes v), fun v => (h'.slots v).trans (h.slots v)⟩

/-- A value that is no slot changes, and keeps its node and its sort. -/
theorem update (s : ValueStore) (v : ValueId) {f : Value → Value}
    (hclass : ∀ value, (f value).class?.map (fun data => ((f value).node, data.kind)) =
      value.class?.map fun data => (value.node, data.kind))
    (hslot : ∀ value, (f value).slot? = value.slot?) : s.SameSites (s.update v f) := by
  refine ⟨fun w => ?_, fun w => ?_⟩
  · unfold classSite?
    rw [get?_update]
    split
    · cases s.get? w with
      | none => rfl
      | some value => exact hclass value
    · rfl
  · unfold slot?
    rw [get?_update]
    split
    · cases s.get? w with
      | none => rfl
      | some value => exact hslot value
    · rfl

theorem updateClass (s : ValueStore) (v : ValueId) {f : ClassData → ClassData}
    (hf : ∀ data, (f data).kind = data.kind) : s.SameSites (s.updateClass v f) := by
  refine .update s v (fun value => ?_) fun value => ?_
  · obtain ⟨node, members, data⟩ := value
    cases data with
    | classValue data => exact congrArg some (congrArg (Prod.mk node) (hf data))
    | _ => rfl
  · obtain ⟨node, members, data⟩ := value
    cases data <;> rfl

theorem updateConstructed (s : ValueStore) (v : ValueId) (f : ConstructedData → ConstructedData) :
    s.SameSites (s.updateConstructed v f) := by
  refine .update s v (fun value => ?_) fun value => ?_
  · obtain ⟨node, members, data⟩ := value
    cases data <;> rfl
  · obtain ⟨node, members, data⟩ := value
    cases data <;> rfl

theorem newConstructedClass (s : ValueStore) (node : NodeRef) (generic : ValueId)
    (arguments : ListId) : s.SameSites (s.newConstructedClass node generic arguments).2 := by
  have hget (v : ValueId) := get?_newConstructedClass s node generic arguments v
  refine ⟨fun v => ?_, fun v => ?_⟩
  · unfold classSite?
    rcases hget v with heq | ⟨hnone, heq⟩
    · rw [heq]
    · rw [heq, hnone]
      rfl
  · unfold slot?
    rcases hget v with heq | ⟨hnone, heq⟩
    · rw [heq]
    · rw [heq, hnone]
      rfl

end SameSites

end ValueStore

/-! ## States -/

/-- The classes are of the same sort and at the same nodes, and the slots are the same. -/
def Store.SameSites (s s' : Store) : Prop := s.values.SameSites s'.values

namespace Store

instance : Std.Refl SameSites := ⟨fun s => .refl s.values⟩

instance : IsTrans Store SameSites := ⟨fun _ _ _ => ValueStore.SameSites.trans⟩

instance : Applies SameSites where
  types s _ := .refl s.values
  constructed s node generic arguments := .newConstructedClass s.values node generic arguments

theorem finalizeAllConstructed_sameSites : Moves SameSites finalizeAllConstructed := by
  refine finalizeAllConstructed_moves fun v => ?_
  refine .bind (directBases_applies v) fun _ => .bind (linearize_applies _) fun _ s => ?_
  exact .updateConstructed s.values v _

end Store

namespace Analysis

/-- The nodes have the same values, and the classes and slots are where they were. -/
structure SameSites (x y : Analysis) : Prop where
  values : y.valueTable = x.valueTable
  sites : x.store.SameSites y.store

/-- Values stay where they are, and a node that is no part of a type expression has
the same type. -/
structure Bypasses (a : Arena) (q : NodeRef) (x y : Analysis) : Prop extends x.SameSites y where
  typeOf? : (∀ n, TypeExpr.IsTypeNode a n → q ≠ some n) → y.typeOf? q = x.typeOf? q

variable {a : Arena} {root q : NodeRef} {x y z : Analysis}

theorem SameSites.trans (h : x.SameSites y) (h' : y.SameSites z) : x.SameSites z :=
  ⟨h'.values.trans h.values, IsTrans.trans _ _ _ h.sites h'.sites⟩

/-- Steps that leave the values and what stands at the nodes as they are. -/
theorem sameSites_of_eq {α : Type} {m : Analyze α}
    (hvalues : ∀ x, (m x).2.store.values = x.store.values)
    (htable : ∀ x, (m x).2.valueTable = x.valueTable) : Moves SameSites m := fun x =>
  ⟨htable x, show x.store.values.SameSites (m x).2.store.values from (hvalues x).symm ▸ .refl _⟩

theorem onStore_sameSites {α : Type} {m : StateM Store α} (hm : Moves Store.SameSites m) :
    Moves SameSites (Analyze.onStore m) := fun x => ⟨rfl, hm x.store⟩

instance : Std.Refl SameSites := ⟨fun _ => ⟨rfl, Std.Refl.refl _⟩⟩

instance : IsTrans Analysis SameSites := ⟨fun _ _ _ => SameSites.trans⟩

instance : Interpreting SameSites where
  interns _ := sameSites_of_eq (fun _ => rfl) fun _ => rfl
  targets _ _ := sameSites_of_eq (fun _ => rfl) fun _ => rfl
  reports _ _ := sameSites_of_eq (fun _ => rfl) fun _ => rfl

instance : Evaluating SameSites where
  applications := TypeExpr.application_moves fun node generic arguments x =>
    ⟨rfl, .newConstructedClass x.store.values node generic arguments⟩

instance (a : Arena) : Declaring a SameSites where
  typed _ _ _ := sameSites_of_eq (fun _ => rfl) fun _ => rfl
  cyclic _ := sameSites_of_eq (fun _ => rfl) fun _ => rfl
  aliases _ _ := sameSites_of_eq (fun _ => rfl) fun _ => rfl

instance : Annotating SameSites where
  sets _ _ := sameSites_of_eq (fun _ => rfl) fun _ => rfl
  setsIfNew _ _ := sameSites_of_eq (fun _ => rfl) fun _ => rfl
  declares _ _ := sameSites_of_eq (fun _ => rfl) fun _ => rfl

instance : Std.Refl (Bypasses a q) := ⟨fun _ => ⟨⟨rfl, Std.Refl.refl _⟩, fun _ => rfl⟩⟩

instance : IsTrans Analysis (Bypasses a q) := ⟨fun _ _ _ h h' =>
  ⟨h.toSameSites.trans h'.toSameSites, fun hq => (h'.typeOf? hq).trans (h.typeOf? hq)⟩⟩

theorem onStore_bypasses {α : Type} {m : StateM Store α} (hm : Moves Store.SameSites m) :
    Moves (Bypasses a q) (Analyze.onStore m) := fun x => ⟨⟨rfl, hm x.store⟩, fun _ => rfl⟩

/-- Steps that touch neither the values nor a table of nodes. -/
theorem bypasses_of_eq {α : Type} {m : Analyze α}
    (hvalues : ∀ x, (m x).2.store.values = x.store.values)
    (hvalueTable : ∀ x, (m x).2.valueTable = x.valueTable)
    (htypeTable : ∀ x, (m x).2.typeTable = x.typeTable) : Moves (Bypasses a q) m := by
  refine fun x => ⟨⟨hvalueTable x, ?_⟩, fun _ => congrArg (NodeTable.get? · q) (htypeTable x)⟩
  show x.store.values.SameSites (m x).2.store.values
  rw [hvalues x]
  exact .refl _

theorem onTypes_bypasses {α : Type} (f : TypeStore → α × TypeStore) :
    Moves (Bypasses a q) (onTypes f) :=
  bypasses_of_eq (fun _ => rfl) (fun _ => rfl) fun _ => rfl

theorem report_bypasses (d : Diagnostic) : Moves (Bypasses a q) (report d) :=
  bypasses_of_eq (fun _ => rfl) (fun _ => rfl) fun _ => rfl

theorem declareType_bypasses (v : ValueId) (t : TypeId) : Moves (Bypasses a q) (declareType v t) :=
  bypasses_of_eq (fun _ => rfl) (fun _ => rfl) fun _ => rfl

/-- Another node gets a type. -/
theorem setType_bypasses {r : NodeRef} (hr : (∀ n, TypeExpr.IsTypeNode a n → q ≠ some n) → r ≠ q)
    (t : TypeId) : Moves (Bypasses a q) (setType r t) := by
  refine fun x => ⟨⟨rfl, Std.Refl.refl _⟩, fun hq => ?_⟩
  show (x.typeTable.insert r t).get? q = _
  rw [NodeTable.get?_insert, if_neg (hr hq)]
  rfl

/-- A type is given to another node, or to a node that has one. -/
theorem setTypeIfNew_bypasses {r : NodeRef} (t : TypeId) (hr : r ≠ q ∨ (x.typeOf? q).isSome) :
    MovesFrom (Bypasses a q) x (setTypeIfNew r t) := by
  refine ⟨⟨rfl, Std.Refl.refl _⟩, fun _ => ?_⟩
  show (x.typeTable.insertIfNew r t).get? q = _
  rw [NodeTable.get?_insertIfNew]
  split
  · next heq =>
    obtain ⟨u, hu⟩ := Option.isSome_iff_exists.1 (hr.resolve_left (not_not.2 heq))
    have hget : x.typeTable.get? q = some u := hu
    rw [hget, hu]
    rfl
  · rfl

instance : Interpreting (Bypasses a q) where
  interns {_ f} _ := onTypes_bypasses f
  targets _ _ := onTypes_bypasses _
  reports d _ := report_bypasses d

instance : Evaluating (Bypasses a q) where
  applications := TypeExpr.application_moves fun node generic arguments x =>
    ⟨⟨rfl, .newConstructedClass x.store.values node generic arguments⟩, fun _ => rfl⟩

instance : Declaring a (Bypasses a q) where
  typed n t hn := setType_bypasses (fun hq heq => hq n hn heq.symm) t
  cyclic _ := report_bypasses _
  aliases _ _ := onTypes_bypasses _

/-! ### Where values stand -/

/-- Where values stand once names are bound: no absent node has one or reads one, and a class is the
value of the node that makes it. -/
structure Placed (a : Arena) (root : NodeRef) (x : Analysis) : Prop where
  absent : x.valueOf? none = none
  classes : ∀ r v node kind, x.valueOf? r = some v →
    x.store.values.classSite? v = some (node, kind) →
    ∃ n, r = some n ∧ node = some n ∧ a.MakesClass root n kind
  reads : ∀ v slot, x.store.values.slot? v = some slot → none ∉ slot.reads

theorem Sited.placed (h : x.Sited a root) : x.Placed a root where
  absent := by
    cases hv : x.valueOf? none with
    | none => rfl
    | some v => cases (h.values none v hv).present
  classes r v node kind hv hsite := by
    obtain ⟨data, hdata, rfl, rfl⟩ := ValueStore.classSite?_eq_some_iff.1 hsite
    obtain ⟨n, hr, hnode, hmakes⟩ := (h.values r v hv).cls data hdata
    exact ⟨n, hr, hnode, hmakes⟩
  reads v slot hslot := by
    obtain ⟨value, hvalue, hdata⟩ := Option.bind_eq_some_iff.1 hslot
    exact (h.tidy.values v value hvalue).reads slot hdata

theorem SameSites.valueOf?_eq (h : x.SameSites y) (r : NodeRef) : y.valueOf? r = x.valueOf? r :=
  congrArg (NodeTable.get? · r) h.values

/-- The nodes stand for the same classes. -/
theorem SameSites.classAt?_eq (h : x.SameSites y) (r : NodeRef) : y.classAt? r = x.classAt? r := by
  unfold classAt?
  rw [h.valueOf?_eq r]
  refine congrArg (Option.filter · _) (funext fun v => ?_)
  rw [← ValueStore.isSome_classSite?, ← ValueStore.isSome_classSite?, h.sites.classes v]

theorem SameSites.placed (h : x.SameSites y) (hx : x.Placed a root) : y.Placed a root where
  absent := (h.valueOf?_eq none).trans hx.absent
  classes r v node kind hv hsite :=
    hx.classes r v node kind ((h.valueOf?_eq r).symm.trans hv)
      ((h.sites.classes v).symm.trans hsite)
  reads v slot hslot := hx.reads v slot ((h.sites.slots v).symm.trans hslot)

/-- The class that a node stands for is at the node. -/
theorem Placed.node_of_classAt? (hx : x.Placed a root) {n : Nat} {cls : ValueId}
    (h : x.classAt? (some n) = some cls) :
    ∃ data, x.store.values.class? cls = some data ∧
      (x.store.values.get? cls).bind (·.node) = some n ∧ a.MakesClass root n data.kind := by
  obtain ⟨hv, hcls⟩ := Option.filter_eq_some_iff.1 h
  obtain ⟨data, hdata⟩ := Option.isSome_iff_exists.1 hcls
  obtain ⟨m, hm, hnode, hmakes⟩ := hx.classes _ cls _ _ hv
    (ValueStore.classSite?_eq_some_iff.2 ⟨data, hdata, rfl, rfl⟩)
  cases hm
  exact ⟨data, hdata, hnode, hmakes⟩

/-! ### Entries stay -/

theorem Change.bound {x y : Analysis} (h : Change x y) {r : NodeRef} (hr : (x.valueOf? r).isSome) :
    (y.valueOf? r).isSome := by
  cases h with
  | setValue q v _ =>
    show ((x.valueTable.insert q v).get? r).isSome
    rw [NodeTable.get?_insert]
    split
    · rfl
    · exact hr
  | _ => exact hr

theorem Change.typed {x y : Analysis} (h : Change x y) {r : NodeRef} (hr : (x.typeOf? r).isSome) :
    (y.typeOf? r).isSome := by
  cases h with
  | setType q t _ =>
    show ((x.typeTable.insert q t).get? r).isSome
    rw [NodeTable.get?_insert]
    split
    · rfl
    · exact hr
  | setTypeIfNew q t _ =>
    show ((x.typeTable.insertIfNew q t).get? r).isSome
    rw [NodeTable.get?_insertIfNew]
    split
    · rfl
    · exact hr
  | _ => exact hr

theorem bound_of_changes {x y : Analysis} (h : ReflTransGen Change x y) {r : NodeRef}
    (hr : (x.valueOf? r).isSome) : (y.valueOf? r).isSome := by
  induction h with
  | refl => exact hr
  | tail _ hstep ih => exact hstep.bound ih

theorem typed_of_changes {x y : Analysis} (h : ReflTransGen Change x y) {r : NodeRef}
    (hr : (x.typeOf? r).isSome) : (y.typeOf? r).isSome := by
  induction h with
  | refl => exact hr
  | tail _ hstep ih => exact hstep.typed ih

end Analysis

/-! ## The second pass -/

namespace Hierarchy

open Analysis

variable {a : Arena} {q : NodeRef}

theorem finalizeClass_sameSites (cls : ValueId) : Moves Store.SameSites (finalizeClass cls) := by
  refine .bind .get fun s => ?_
  split
  · refine .bind (Store.linearize_applies _) fun ancestors s => ?_
    exact .updateClass s.values cls fun _ => rfl
  · exact .pure _

instance : Building a (Bypasses a q) where
  notesBases cls _ x :=
    ⟨⟨rfl, .updateClass x.store.values cls fun _ => rfl⟩, fun _ => rfl⟩
  finalizes cls := onStore_bypasses (finalizeClass_sameSites cls)
  completes := onStore_bypasses Store.finalizeAllConstructed_sameSites

/-- The second pass gives types to parts of type expressions alone, and leaves classes where they
are. -/
theorem build_bypasses : Moves (Bypasses a q) (build a) := build_moves

end Hierarchy

end DocTypes
