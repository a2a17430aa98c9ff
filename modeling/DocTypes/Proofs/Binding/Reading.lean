import DocTypes.Proofs.Binding.Acts
import DocTypes.Proofs.Handles.Visits
import Mathlib.Algebra.Order.BigOperators.Group.List
import Mathlib.Algebra.Order.Group.Nat
import Mathlib.Algebra.GroupWithZero.Nat

/-!
# The references of a walk

A walk visits a node as often as the tree lists it, so it refers to a node as often at most. Each
step is given a number of references to one node that it may make, and leaves some of them to the
work that it asks for (`Binder.Within`).

## Main statements

* `Binder.visit_within`: the acts of one visit.
* `Binder.perform_within`: the acts of a piece of work, with all that follows from it.
* `Analysis.bindNames_acts`: the acts of the whole pass.
-/

namespace DocTypes

/-! ## How often a node is listed -/

namespace Arena

variable (a : Arena) (m : Nat)

/-- How often a node is listed at and below another one. -/
def times (r : NodeRef) : Nat := (a.listing r).count m

/-- How often a node is listed below another one. -/
def timesBelow (r : NodeRef) : Nat := ((a.children r).map (a.times m)).sum

theorem times_none : a.times m none = 0 := by
  rw [times, listing_none, List.count_nil]

theorem count_flatMap_listing (refs : List NodeRef) :
    ((refs.filterMap id).flatMap fun c => a.listing (some c)).count m =
      (refs.map (a.times m)).sum := by
  induction refs with
  | nil => rfl
  | cons r refs ih =>
    cases r with
    | none =>
      rw [List.map_cons, List.sum_cons, times_none, Nat.zero_add, ← ih]
      rfl
    | some c =>
      rw [List.map_cons, List.sum_cons, ← ih, times, ← List.count_append]
      rfl

/-- A node that is there is listed once more than it is below itself. -/
theorem times_some {n : Nat} (h : (a.node? (some n)).isSome) :
    a.times m (some n) = [n].count m + a.timesBelow m (some n) := by
  rw [times, listing_some h, ← List.singleton_append, List.count_append, timesBelow,
    ← count_flatMap_listing]
  rfl

theorem node?_of_kind? {n : Nat} {kind : NodeKind} (h : a.kind? (some n) = some kind) :
    (a.node? (some n)).isSome := by
  unfold kind? at h
  obtain ⟨node, hnode, -⟩ := Option.map_eq_some_iff.1 h
  exact Option.isSome_iff_exists.2 ⟨node, hnode⟩

theorem timesBelow_le (r : NodeRef) : a.timesBelow m r ≤ a.times m r := by
  cases r with
  | none => exact Nat.le_of_eq (a.times_none m).symm
  | some n =>
    cases h : a.node? (some n) with
    | none => simp [timesBelow, children, h]
    | some node =>
      rw [a.times_some m (Option.isSome_iff_exists.2 ⟨node, h⟩)]
      exact Nat.le_add_left _ _

/-- The first children of a node, and what is below them. -/
theorem times_children_le (r : NodeRef) :
    a.times m (a.child r 0) + a.times m (a.child r 1) + a.times m (a.child r 2) ≤
      a.timesBelow m r := by
  unfold timesBelow child
  rcases a.children r with _ | ⟨c, _ | ⟨d, _ | ⟨e, refs⟩⟩⟩ <;> simp [times_none]
  omega

theorem times_child_le (r : NodeRef) (i : Nat) : a.times m (a.child r i) ≤ a.timesBelow m r := by
  cases h : a.child r i with
  | none => exact (a.times_none m).symm ▸ Nat.zero_le _
  | some c =>
    have hmem : a.times m (some c) ∈ (a.children r).map (a.times m) :=
      List.mem_map_of_mem (mem_children_of_child_eq_some h)
    exact List.le_sum_of_mem hmem

end Arena

namespace Work

variable (a : Arena) (m : Nat)

/-- How often a piece of work may refer to a node. -/
def times : Work → Nat
  | .visit n => a.times m (some n)
  | .exitScope => 0
  | .typeNames document => a.times m document

/-- How often several pieces of work may refer to a node. -/
def pending (works : List Work) : Nat := (works.map (times a m)).sum

@[simp] theorem pending_nil : pending a m [] = 0 := rfl

@[simp] theorem pending_cons (work : Work) (works : List Work) :
    pending a m (work :: works) = work.times a m + pending a m works := List.sum_cons

@[simp] theorem pending_append (works works' : List Work) :
    pending a m (works ++ works') = pending a m works + pending a m works' := by
  rw [pending, List.map_append, List.sum_append]
  rfl

@[simp] theorem pending_visit? (r : NodeRef) : pending a m (visit? r) = a.times m r := by
  cases r with
  | none => exact (a.times_none m).symm
  | some n => rfl

@[simp] theorem pending_children (r : NodeRef) :
    pending a m (children a r) = a.timesBelow m r := by
  unfold children Arena.presentChildren Arena.timesBelow
  induction a.children r with
  | nil => rfl
  | cons c refs ih =>
    cases c with
    | none =>
      rw [List.map_cons, List.sum_cons, Arena.times_none, Nat.zero_add]
      exact ih
    | some c =>
      rw [List.map_cons, List.sum_cons, ← ih]
      rfl

@[simp] theorem pending_exitScope : pending a m [.exitScope] = 0 := rfl

theorem pending_flatten (lists : List (List Work)) :
    pending a m lists.flatten = (lists.map (pending a m)).sum := by
  induction lists with
  | nil => rfl
  | cons works lists ih => simp [ih]

theorem pending_reverse (works : List Work) : pending a m works.reverse = pending a m works := by
  rw [pending, List.map_reverse, List.sum_reverse]
  rfl

end Work

namespace Binder

variable {a : Arena} {reportUndefined : Bool} {m k j : Nat} {α β : Type}

/-! ## Steps -/

/-- Whatever state with compiled comments a step is taken from, it does sound acts. The references
to a node that these make, and those that the result leaves to be made, are not more than `k`. -/
def Within (a : Arena) (reportUndefined : Bool) (m k : Nat) (left : α → Nat)
    (step : Bind α) : Prop :=
  ∀ b : Binder, b.Documented a → ∃ acts, (step b).2 = doAll a reportUndefined acts b ∧
    (∀ act ∈ acts, act.Sound a) ∧ (acts.flatMap Act.reads).count m + left (step b).1 ≤ k

/-- A step that makes no reference and leaves none to be made. -/
def Mute (a : Arena) (reportUndefined : Bool) (step : Bind α) : Prop :=
  ∀ m, Within a reportUndefined m 0 (fun _ => 0) step

namespace Within

variable {left : α → Nat} {left' : β → Nat} {step : Bind α}

theorem mono (h : Within a reportUndefined m k left step) (hk : k ≤ j) :
    Within a reportUndefined m j left step := by
  intro b hb
  obtain ⟨acts, hrun, hsound, hle⟩ := h b hb
  exact ⟨acts, hrun, hsound, hle.trans hk⟩

theorem pure {x : α} (h : left x ≤ k) : Within a reportUndefined m k left (Pure.pure x) :=
  fun b _ => ⟨[], rfl, by simp, (Nat.zero_add _).trans_le h⟩

theorem bind {f : α → Bind β} (hstep : Within a reportUndefined m k left step)
    (hf : ∀ x, Within a reportUndefined m (left x + j) left' (f x)) :
    Within a reportUndefined m (k + j) left' (step >>= f) := by
  intro b hb
  obtain ⟨acts, hrun, hsound, hle⟩ := hstep b hb
  have hdocumented : (step b).2.Documented a :=
    hrun ▸ doAll_induction hsound hb fun act hact b hb => hb.act hact reportUndefined
  obtain ⟨acts', hrun', hsound', hle'⟩ := hf (step b).1 (step b).2 hdocumented
  refine ⟨acts ++ acts', ?_, ?_, ?_⟩
  · rw [run_bind, hrun', hrun, doAll_append]
  · exact fun act hact => (List.mem_append.1 hact).elim (hsound act) (hsound' act)
  · rw [run_bind, List.flatMap_append, List.count_append]
    omega

theorem get_bind {f : Binder → Bind α}
    (h : ∀ b, b.Documented a → Within a reportUndefined m k left (f b)) :
    Within a reportUndefined m k left (get >>= f) := fun b hb => h b hb b hb

theorem ite {c : Prop} [Decidable c] {step' : Bind α}
    (h : c → Within a reportUndefined m k left step)
    (h' : ¬c → Within a reportUndefined m k left step') :
    Within a reportUndefined m k left (if c then step else step') := by
  split
  · exact h ‹_›
  · exact h' ‹_›

theorem discard (h : Within a reportUndefined m k (fun _ => 0) step) :
    Within a reportUndefined m k (fun _ => 0) (discard step) := h

/-- A step that does one thing. -/
theorem act (act : Act) (hrun : ∀ b, (step b).2 = (act.run a reportUndefined b).2)
    (hsound : act.Sound a) : Within a reportUndefined m (act.reads.count m) (fun _ => 0) step :=
  fun b _ => ⟨[act], hrun b, by simpa using hsound, by simp⟩

theorem mapM {ι : Type} {f : ι → Bind α} {xs : List ι} {weight : ι → Nat}
    (h : ∀ x ∈ xs, Within a reportUndefined m (weight x) left (f x)) :
    Within a reportUndefined m (xs.map weight).sum (fun ys => (ys.map left).sum) (xs.mapM f) := by
  induction xs with
  | nil =>
    rw [List.mapM_nil]
    exact .pure (Nat.le_refl 0)
  | cons x xs ih =>
    rw [List.mapM_cons, List.map_cons, List.sum_cons]
    refine .bind (h x List.mem_cons_self) fun y => ?_
    rw [Nat.add_comm (left y)]
    refine .bind (ih fun z hz => h z (List.mem_cons_of_mem _ hz)) fun ys => .pure ?_
    rw [List.map_cons, List.sum_cons, Nat.add_comm]

theorem forM {ι : Type} {f : ι → Bind PUnit} {xs : List ι} {weight : ι → Nat}
    (h : ∀ x ∈ xs, Within a reportUndefined m (weight x) (fun _ => 0) (f x)) :
    Within a reportUndefined m (xs.map weight).sum (fun _ => 0) (xs.forM f) := by
  induction xs with
  | nil => exact .pure (Nat.le_refl 0)
  | cons x xs ih =>
    rw [List.map_cons, List.sum_cons]
    refine .bind (h x List.mem_cons_self) fun _ => ?_
    rw [Nat.zero_add]
    exact ih fun z hz => h z (List.mem_cons_of_mem _ hz)

end Within

namespace Mute

variable {left : β → Nat} {step : Bind α} {f : α → Bind β}

theorem act (act : Act) (hrun : ∀ b, (step b).2 = (act.run a reportUndefined b).2)
    (hsound : act.Sound a) (hreads : act.reads = []) : Mute a reportUndefined step := by
  intro m
  have h := Within.act (m := m) act hrun hsound
  rwa [hreads] at h

/-- A step that only looks at the state. -/
theorem look (h : ∀ b, (step b).2 = b) : Mute a reportUndefined step :=
  fun _ b _ => ⟨[], h b, by simp, Nat.le_refl 0⟩

theorem pure (x : α) : Mute a reportUndefined (Pure.pure x) := look fun _ => rfl

theorem get_bind {f : Binder → Bind β} (h : ∀ b, b.Documented a → Mute a reportUndefined (f b)) :
    Mute a reportUndefined (get >>= f) := fun m => .get_bind fun b hb => h b hb m

theorem ite {c : Prop} [Decidable c] {step' : Bind α} (h : c → Mute a reportUndefined step)
    (h' : ¬c → Mute a reportUndefined step') :
    Mute a reportUndefined (if c then step else step') := by
  split
  · exact h ‹_›
  · exact h' ‹_›

/-- What is left to the second step. -/
theorem within (hstep : Mute a reportUndefined step)
    (hf : ∀ x, Within a reportUndefined m k left (f x)) :
    Within a reportUndefined m k left (step >>= f) := by
  rw [← Nat.zero_add k]
  refine .bind (hstep m) fun x => ?_
  rw [Nat.zero_add]
  exact hf x

theorem bind (hstep : Mute a reportUndefined step) (hf : ∀ x, Mute a reportUndefined (f x)) :
    Mute a reportUndefined (step >>= f) := fun m => hstep.within fun x => hf x m

theorem discard (hstep : Mute a reportUndefined step) :
    Mute a reportUndefined (discard step) := hstep

theorem forM {ι : Type} {f : ι → Bind PUnit} {xs : List ι}
    (h : ∀ x ∈ xs, Mute a reportUndefined (f x)) : Mute a reportUndefined (xs.forM f) := by
  induction xs with
  | nil => exact pure PUnit.unit
  | cons x xs ih =>
    exact bind (h x List.mem_cons_self) fun _ => ih fun z hz => h z (List.mem_cons_of_mem _ hz)

end Mute

/-! ## Declarations -/

section Declarations

theorem enterScope_mute (kind : ScopeKind) (node : NodeRef) :
    Mute a reportUndefined (enterScope kind node) :=
      .act (.enter kind node) (fun _ => rfl) trivial rfl

theorem reserveAll_mute (id : ScopeId) (names : List (Namespace × Atom)) :
    Mute a reportUndefined (reserveAll id names) :=
  .forM fun (space, name) _ => .act (.reserve id space name) (fun _ => rfl) trivial rfl

theorem declareVariable_mute (id : ScopeId) (binding : NodeRef) :
    Mute a reportUndefined (declareVariable a id binding) :=
  .act (.bindName id binding) (fun _ => rfl) trivial rfl

theorem declareType_mute (id : ScopeId) (name : NodeRef) (t : TypeId) :
    Mute a reportUndefined (declareType a id name t) :=
  .act (.bindType id name t) (fun _ => rfl) trivial rfl

theorem addWrite_mute (v : ValueId) (node : NodeRef) :
    Mute a reportUndefined (Bind.onAnalysis (Analysis.modifyValues (·.addWrite v node))) :=
  .act (.write v node) (fun _ => rfl) trivial rfl

theorem setValue_mute (r : NodeRef) (v : ValueId) :
    Mute a reportUndefined (Bind.onAnalysis (Analysis.setValue r v)) :=
  .act (.value r v) (fun _ => rfl) trivial rfl

theorem newFunction_mute (n : Nat) :
    Mute a reportUndefined (Bind.onAnalysis (Analysis.onValues (·.newFunction (some n)))) :=
  .act (.function n) (fun _ => rfl) trivial rfl

theorem newObject_mute (n : Nat) :
    Mute a reportUndefined (Bind.onAnalysis (Analysis.onValues (·.newObject (some n)))) :=
  .act (.object n) (fun _ => rfl) trivial rfl

theorem newProperty_mute (owner : ValueId) (key : PropertyKey) (node : NodeRef) :
    Mute a reportUndefined (Bind.onAnalysis (Analysis.onValues (·.newProperty owner key node))) :=
  .act (.property owner key node) (fun _ => rfl) trivial rfl

theorem instanceOf_mute (cls : ValueId) : Mute a reportUndefined (instanceOf cls) :=
  .act (.instanceType cls) (fun _ => rfl) trivial rfl

theorem aliasFor_mute (doc : DocComment) (name : Atom) :
    Mute a reportUndefined (aliasFor doc name) :=
  .act (.aliasType doc name) (fun _ => rfl) trivial rfl

theorem nameType_mute (v : ValueId) (t : TypeId) :
    Mute a reportUndefined (Bind.onAnalysis (Analysis.nameType v t)) :=
  .act (.nameType v t) (fun _ => rfl) trivial rfl

theorem declareClass_mute (site : NodeRef) (name : String) {doc : Option DocComment}
    (hdoc : ∀ x ∈ doc, x.Compiled a) (heritage node : NodeRef) :
    Mute a reportUndefined (declareClass a site name doc heritage node) :=
  .act (.makeClass site name doc heritage node) (fun _ => rfl) hdoc rfl

theorem functionScope_mute : Mute a reportUndefined functionScope := .look fun _ => rfl

theorem lexicalScope_mute : Mute a reportUndefined lexicalScope := .look fun _ => rfl

theorem declarationScope_mute (statement : NodeRef) :
    Mute a reportUndefined (declarationScope a statement) :=
  .ite (fun _ => lexicalScope_mute) fun _ => functionScope_mute

theorem hoist_mute (id : ScopeId) (h : Hoisted) : Mute a reportUndefined (hoist a id h) := by
  cases h with
  | variableName binding => exact (declareVariable_mute id _).discard
  | functionName function binding =>
    exact .bind (declareVariable_mute id _) fun _ => addWrite_mute _ _
  | typeName name => exact .act (.reserve id .type name) (fun _ => rfl) trivial rfl

theorem openBody_mute (id : ScopeId) (statements : List NodeRef) :
    Mute a reportUndefined (openBody a id statements) :=
  .bind (.forM fun h _ => hoist_mute id h) fun _ => reserveAll_mute id _

theorem bindClassType_mute (node : NodeRef) (cls : ValueId) :
    Mute a reportUndefined (bindClassType a node cls) := by
  have hsite : Mute a reportUndefined (classBindingSite a node) := by
    unfold classBindingSite
    split
    · exact .pure _
    · exact .bind functionScope_mute fun _ => .pure _
    · exact .bind lexicalScope_mute fun _ => .pure _
    · exact .ite (fun _ => .bind (declarationScope_mute _) fun _ => .pure _) fun _ => .pure _
  refine .bind hsite fun site => ?_
  split
  · exact .pure _
  · exact .bind (instanceOf_mute cls) fun _ => declareType_mute _ _ _

theorem declareClassName_mute (id : ScopeId) (n : Nat) (name : NodeRef) (cls : ValueId) :
    Mute a reportUndefined (declareClassName a id n name cls) :=
  .bind (declareVariable_mute id name) fun _ => .bind (addWrite_mute _ _) fun _ =>
    .bind (instanceOf_mute cls) fun _ => declareType_mute id name _

theorem declareAnnotated_mute {doc : DocComment} (hdoc : doc.Compiled a) (id : ScopeId)
    (declaration : NodeRef) (v : ValueId) :
    Mute a reportUndefined (declareAnnotated a doc id declaration v) := by
  refine .ite (fun _ => .ite (fun _ => ?_) fun _ => .pure _) fun _ =>
    .ite (fun _ => ?_) fun _ => .pure _
  · refine .bind (declareClass_mute _ _ (by simpa using hdoc) _ _) fun _ => ?_
    refine .bind (addWrite_mute _ _) fun _ => ?_
    exact .bind (instanceOf_mute _) fun _ => declareType_mute id _ _
  · exact .bind (aliasFor_mute doc _) fun _ => declareType_mute id _ _

/-- The comment that governs a node was compiled. -/
theorem Documented.governing {b : Binder} (hb : b.Documented a) {n : Nat} {doc : DocComment}
    (h : ((a.governingTarget n).bind fun target => b.comments.get? (some target)) = some doc) :
    doc.Compiled a := by
  obtain ⟨target, -, hdoc⟩ := Option.bind_eq_some_iff.1 h
  exact (hb _ doc hdoc).compiled

theorem createFunction_mute (n : Nat) : Mute a reportUndefined (createFunction a n) := by
  have hplain : Mute a reportUndefined (do
      Analysis.setValue (some n) (← Analysis.onValues (·.newFunction (some n))) : Bind Unit) :=
    .bind (newFunction_mute n) fun _ => setValue_mute _ _
  refine .get_bind fun b hb => ?_
  dsimp only
  split
  · next doc hdoc =>
    refine .ite (fun _ => ?_) fun _ => hplain
    have hcompiled : ∀ x ∈ some doc, x.Compiled a := fun x hx =>
      Option.mem_some_iff.1 hx ▸ hb.governing hdoc
    exact .bind (declareClass_mute _ _ hcompiled _ _) fun _ => bindClassType_mute _ _
  · exact hplain

end Declarations

/-! ## Functions -/

section Functions

open Work

theorem declareParameter_within (id : ScopeId) (param : NodeRef) :
    Within a reportUndefined m (a.timesBelow m param) (pending a m)
      (declareParameter a id param) := by
  have hinit := a.times_child_le m param 1
  unfold declareParameter
  split
  · exact (declareVariable_mute id _).discard.within fun _ => .pure (Nat.zero_le _)
  · refine (declareVariable_mute id _).within fun v => ?_
    split
    · exact .pure (Nat.zero_le _)
    · exact (addWrite_mute v _).within fun _ => .pure (by rwa [pending_visit?])
  · exact (declareVariable_mute id _).discard.within fun _ => .pure (Nat.zero_le _)
  · exact .pure (Nat.zero_le _)

theorem enterBody_within (params body : NodeRef) :
    Within a reportUndefined m (a.times m params + a.times m body) (pending a m)
      (enterBody a params body) := by
  have hparams (id : ScopeId) : Within a reportUndefined m (a.timesBelow m params)
      (fun defaults => (defaults.map (pending a m)).sum)
      ((a.children params).mapM (declareParameter a id)) :=
    .mapM fun param _ => (declareParameter_within id param).mono (a.timesBelow_le m param)
  have hbelow := a.timesBelow_le m params
  have hbody := a.timesBelow_le m body
  refine .get_bind fun b _ => .mono (.bind (hparams b.current) fun defaults => ?_)
    (Nat.add_le_add_right hbelow _)
  refine .ite (fun _ => (openBody_mute _ _).within fun _ => .pure ?_) fun _ => .pure ?_
  · rw [pending_append, pending_flatten, pending_children]
    omega
  · rw [pending_append, pending_flatten, pending_visit?]

/-- The body of a function is entered in a scope that is closed in the end. -/
theorem enterBody_exits_within {params body : NodeRef}
    (hparts : a.times m params + a.times m body ≤ k) :
    Within a reportUndefined m k (pending a m) (do
      return (← enterBody a params body) ++ [.exitScope]) := by
  refine .mono (k := _ + 0) (.bind (enterBody_within _ _) fun works => .pure ?_) hparts
  rw [pending_append, pending_exitScope]

theorem finishFunction_within (n : Nat) (kind : NodeKind) :
    Within a reportUndefined m (a.times m (some n)) (pending a m) (finishFunction a n kind) := by
  have hchildren := a.times_children_le m (some n)
  have hbelow := a.timesBelow_le m (some n)
  have hbody : Within a reportUndefined m (a.times m (some n)) (pending a m) (do
      let works ←
        if kind = .arrowFunction then enterBody a (a.child (some n) 0) (a.child (some n) 1)
        else enterBody a (a.child (some n) 1) (a.child (some n) 2)
      return works ++ [.exitScope]) := by
    split
    · exact enterBody_exits_within (by omega)
    · exact enterBody_exits_within (by omega)
  refine (enterScope_mute .function (some n)).within fun id => .ite (fun _ => ?_) fun _ => hbody
  exact (declareVariable_mute id _).within fun _ => (addWrite_mute _ _).within fun _ => hbody

theorem visitFunction_within (n : Nat) (kind : NodeKind) :
    Within a reportUndefined m (a.times m (some n)) (pending a m) (visitFunction a n kind) := by
  have hname : Within a reportUndefined m (a.times m (some n)) (pending a m) (do
      let name := a.child (some n) 0
      if kind = .functionDeclaration && name.isSome then
        if ((← get).analysis.valueOf? name).isNone then
          let variableId ← declareVariable a (← functionScope) name
          Analysis.modifyValues (·.addWrite variableId (some n))
      finishFunction a n kind) := by
    have hrest : Within a reportUndefined m (a.times m (some n)) (pending a m)
        (finishFunction a n kind) := finishFunction_within n kind
    refine .ite (fun _ => .get_bind fun b _ => .ite (fun _ => ?_) fun _ => hrest) fun _ => hrest
    refine functionScope_mute.within fun id => (declareVariable_mute id _).within fun _ => ?_
    exact (addWrite_mute _ _).within fun _ => hrest
  refine .get_bind fun b _ => .ite (fun _ => ?_) fun _ => hname
  exact (createFunction_mute n).within fun _ => hname

theorem visitMethod_within (n : Nat) :
    Within a reportUndefined m (a.times m (some n)) (pending a m) (visitMethod a n) := by
  have hrest : Within a reportUndefined m (a.times m (some n)) (pending a m)
      (finishMethod a n) := by
    have hchildren := a.times_children_le m (some n)
    have hbelow := a.timesBelow_le m (some n)
    refine (enterScope_mute .function (some n)).discard.within fun _ => ?_
    exact enterBody_exits_within (by omega)
  refine (newFunction_mute n).within fun v => (setValue_mute _ v).within fun _ =>
    .get_bind fun b _ => ?_
  dsimp only
  split
  · exact hrest
  · split
    · exact hrest
    · refine (newProperty_mute _ _ _).within fun _ => (setValue_mute _ _).within fun _ => ?_
      exact (addWrite_mute _ _).within fun _ => hrest

theorem visitClass_within (n : Nat) :
    Within a reportUndefined m (a.times m (some n)) (pending a m) (visitClass a n) := by
  have hchildren := a.times_children_le m (some n)
  have hbelow := a.timesBelow_le m (some n)
  have hbody := a.timesBelow_le m (a.child (some n) 2)
  have hinner : pending a m (Work.visit? (a.child (some n) 1) ++
      Work.children a (a.child (some n) 2)) ≤ a.times m (some n) := by
    rw [pending_append, pending_visit?, pending_children]
    omega
  have hexit : pending a m (Work.visit? (a.child (some n) 1) ++
      Work.children a (a.child (some n) 2) ++ [.exitScope]) ≤ a.times m (some n) := by
    rw [pending_append, pending_exitScope]
    exact hinner
  refine .get_bind fun b hb => ?_
  refine (declareClass_mute _ _ (fun doc hdoc => hb.governing hdoc) _ _).within fun cls => ?_
  refine .ite (fun _ => .ite (fun _ => ?_) fun _ => .pure hinner) fun _ => ?_
  · exact lexicalScope_mute.within fun id => (declareClassName_mute id n _ cls).within fun _ =>
      .pure hinner
  · refine (bindClassType_mute _ cls).within fun _ => .ite (fun _ => ?_) fun _ => .pure hinner
    refine (enterScope_mute .block (some n)).within fun id => ?_
    exact (declareClassName_mute id n _ cls).within fun _ => .pure hexit

end Functions

/-! ## References -/

section References

open Work

theorem visitIdentifier_within {r : NodeRef} (hr : a.kind? r = some .identifier)
    (assigned : NodeRef) :
    Within a reportUndefined m (a.times m r) (fun _ => 0) (visitIdentifier a r assigned) := by
  refine .mono (.act (.identifier r assigned) (fun _ => rfl) hr) ?_
  cases r with
  | none => cases hr
  | some n =>
    rw [a.times_some m (a.node?_of_kind? hr)]
    exact Nat.le_add_right _ _

theorem visitMember_within (n : Nat) (owner : ValueId) (create : Bool) :
    Within a reportUndefined m ([n].count m) (fun _ => 0) (visitMember a n owner create) := by
  refine .mono (.act (.member n owner create) (fun _ => rfl) trivial) ?_
  cases create with
  | true => exact Nat.zero_le _
  | false => exact Nat.le_refl _

/-- The nodes of a dotted path, and what is left of it. -/
theorem visitPath_within (r : NodeRef) (create : Bool) :
    Within a reportUndefined m (a.times m r) (fun found => pending a m found.2)
      (visitPath a r create) := by
  fun_induction visitPath a r create with
  | case1 | case2 | case5 => exact .pure (Nat.zero_le _)
  | case3 create n hkind =>
    exact .bind (j := 0) (visitIdentifier_within hkind none) fun _ =>
      .pure (Nat.le_refl _)
  | case4 create n hkind ih =>
    have hself := a.times_some m (a.node?_of_kind? hkind)
    have hobject := a.times_child_le m (some n) 0
    refine .mono (k := _ + [n].count m) (.bind ih fun found => ?_) (by omega)
    obtain ⟨object?, works⟩ := found
    cases object? with
    | none => exact .pure (Nat.le_add_right _ _)
    | some owner =>
      rw [Nat.add_comm]
      refine .bind (visitMember_within n owner create) fun _ => .pure ?_
      exact Nat.le_add_left _ _
  | case6 create n kind hkind =>
    refine .pure ?_
    show pending a m (Work.visit? (some n)) ≤ a.times m (some n)
    rw [pending_visit?]

theorem times_pathRoot_le (r : NodeRef) : a.times m (a.pathRoot r) ≤ a.times m r := by
  fun_induction Arena.pathRoot a r with
  | case1 => exact Nat.le_refl _
  | case2 n hkind ih =>
    exact ih.trans ((a.times_child_le m (some n) 0).trans (a.timesBelow_le m _))
  | case3 n hkind => exact Nat.le_refl _

theorem visitTypeName_within (n : Nat) :
    Within a reportUndefined m (a.timesBelow m (some n)) (fun _ => 0) (visitTypeName a n) := by
  have hroot := (times_pathRoot_le (a := a) (m := m) _).trans (a.times_child_le m (some n) 0)
  by_cases hkind : a.kind? (a.child (some n) 0) = some .identifier
  · exact .mono (.act (.typeReference n) (fun _ => rfl) hkind) (Nat.zero_le _)
  · unfold visitTypeName
    dsimp only
    split
    · next heq => exact absurd heq hkind
    · refine .ite (fun hidentifier => ?_) fun _ => .pure (Nat.zero_le _)
      exact (visitIdentifier_within (Arena.isKind_iff.1 hidentifier) none).discard.mono hroot
    · exact .pure (Nat.zero_le _)

theorem sum_flatMap_le {ι κ : Type} {xs : List ι} {f : ι → List κ} {weight : κ → Nat} {g : ι → Nat}
    (h : ∀ x ∈ xs, ((f x).map weight).sum ≤ g x) :
    ((xs.flatMap f).map weight).sum ≤ (xs.map g).sum := by
  induction xs with
  | nil => exact Nat.le_refl 0
  | cons x xs ih =>
    rw [List.flatMap_cons, List.map_append, List.sum_append, List.map_cons, List.sum_cons]
    exact Nat.add_le_add (h x List.mem_cons_self) (ih fun y hy => h y (List.mem_cons_of_mem _ hy))

/-- The type names at and below a type expression, and what they refer to. -/
theorem sum_typeNamesIn_le (r : NodeRef) :
    ((a.typeNamesIn r).map fun n => a.timesBelow m (some n)).sum ≤ a.times m r := by
  fun_induction Arena.typeNamesIn a r with
  | case1 | case2 => exact Nat.zero_le _
  | case3 n hkind => simpa using a.timesBelow_le m (some n)
  | case4 n hkind ih =>
    exact ih.trans ((a.times_child_le m (some n) 1).trans (a.timesBelow_le m _))
  | case5 n kind hkind _ _ ih =>
    refine (sum_flatMap_le (g := fun c => a.times m c.1) fun c _ => ih c.1 c.2).trans ?_
    rw [List.attach_map_val, List.map_reverse, List.sum_reverse]
    exact a.timesBelow_le m (some n)

/-- The type expressions of a comment are below it, each below a tag of its own. -/
theorem sum_typeOperands_le (document : NodeRef) :
    ((a.typeOperands document).map fun n => a.times m (some n)).sum ≤ a.timesBelow m document := by
  rw [← Work.pending_children, Work.pending, Work.children, List.map_map]
  unfold Arena.typeOperands Arena.tags
  induction a.presentChildren document with
  | nil => exact Nat.le_refl 0
  | cons tag tags ih =>
    have hrest := ih.trans (Nat.le_add_left _ (a.times m (some tag)))
    by_cases htag : a.isKind (some tag) .jsDocTag = true
    · simp only [List.filter_cons, htag, if_true]
      cases hoperand : a.typeOperand (some tag) with
      | none =>
        simp only [List.filterMap_cons, hoperand]
        exact hrest
      | some n =>
        simp only [List.filterMap_cons, hoperand, List.map_cons, List.sum_cons]
        have hmem := Arena.mem_presentChildren.1 (List.mem_of_find?_eq_some hoperand)
        have hbelow : a.times m (some n) ≤ a.timesBelow m (some tag) :=
          List.le_sum_of_mem (List.mem_map_of_mem hmem)
        exact Nat.add_le_add (hbelow.trans (a.timesBelow_le m _)) ih
    · simp only [List.filter_cons, htag]
      exact hrest

theorem visitTypeNames_within (document : NodeRef) :
    Within a reportUndefined m (a.times m document) (fun _ => 0) (visitTypeNames a document) := by
  refine .mono (.forM fun n _ => visitTypeName_within n) ?_
  refine (sum_flatMap_le fun n _ => sum_typeNamesIn_le (some n)).trans ?_
  rw [List.map_reverse, List.sum_reverse]
  exact (sum_typeOperands_le document).trans (a.timesBelow_le m document)

end References

/-! ## Statements and expressions -/

section Statements

open Work

theorem annotatedVariable_within (reportUndefined : Bool) (id : ScopeId) {doc : Option DocComment}
    (hdoc : ∀ x ∈ doc, x.Compiled a) {declaration : NodeRef} {bound : Nat}
    (hinit : pending a m (Work.visit? (a.child declaration 1)) + pending a m [] ≤ bound)
    (v : ValueId) :
    Within a reportUndefined m bound (fun works => pending a m works.1 + pending a m works.2) (do
      match doc with
      | some x => declareAnnotated a x id declaration v
      | none => pure ()
      if (a.child declaration 1).isSome then
        Analysis.modifyValues (·.addWrite v (a.child declaration 1))
      return (Work.visit? (a.child declaration 1), []) : Bind (List Work × List Work)) := by
  cases doc with
  | none =>
    exact .ite (fun _ => (addWrite_mute v _).within fun _ => .pure hinit) fun _ => .pure hinit
  | some x =>
    refine (declareAnnotated_mute (hdoc x rfl) id declaration v).within fun _ => ?_
    exact .ite (fun _ => (addWrite_mute v _).within fun _ => .pure hinit) fun _ => .pure hinit

theorem visitDeclaration_within (id : ScopeId) {doc : Option DocComment}
    (hdoc : ∀ x ∈ doc, x.Compiled a) (declaration : NodeRef) :
    Within a reportUndefined m (a.times m declaration)
      (fun works => pending a m works.1 + pending a m works.2)
      (visitDeclaration a id doc declaration) := by
  have hchildren := a.times_children_le m declaration
  have hbelow := a.timesBelow_le m declaration
  have hinit : pending a m (Work.visit? (a.child declaration 1)) + pending a m [] ≤
      a.times m declaration := by
    rw [pending_visit?, pending_nil]
    omega
  have hlast := annotatedVariable_within reportUndefined id hdoc hinit
  refine .ite (fun _ => .pure ?_) fun _ => .get_bind fun b _ => ?_
  · rw [pending_nil, pending_visit?]
    omega
  · dsimp only
    split
    · exact hlast _
    · exact (declareVariable_mute id _).within fun v => hlast v

theorem visitDeclarations_within (n : Nat) :
    Within a reportUndefined m (a.times m (some n)) (pending a m) (visitDeclarations a n) := by
  refine (declarationScope_mute _).within fun id => .get_bind fun b hb => ?_
  refine .mono (k := _ + 0) (.bind (.mapM fun declaration _ =>
    visitDeclaration_within id (fun x hx => (hb _ x hx).compiled)
      declaration) fun works => .pure ?_)
    (a.timesBelow_le m _)
  rw [pending_append, pending_reverse, List.flatMap_def, List.flatMap_def, pending_flatten,
    pending_flatten, List.map_map, List.map_map, ← List.sum_map_add]
  exact Nat.le_refl _

theorem visitAnnotated_eq (n : Nat) : visitAnnotated a n = (do
    let document := a.child (some n) 0
    let target := a.child (some n) 1
    reportComment a document target
    let doc := DocComment.silent a document target
    let shape := a.targetKind target
    if !(doc.kind = .type || doc.kind = .plain)
        && (shape = .expression || shape = .other) then
      Analysis.reportAt a .unexpectedComment document
    let generic := !doc.typeParameters.isEmpty
    if generic then
      let id ← enterScope .typeParameters (some n)
      doc.typeParameters.forM fun name => do
        let t ← Analysis.onTypes (·.parameter (a.atom (some name)) (some name))
        Analysis.setType (some name) t
        declareType a id (some name) t
    modify fun b => { b with comments := b.comments.insert target doc }
    return .typeNames document :: (Work.visit? target ++ if generic then [.exitScope]
      else [])) := by
  funext b
  rw [← DocComment.compile_fst _ _ (some b.analysis.diagnostics)]
  rfl

theorem visitAnnotated_within {n : Nat} (hkind : a.kind? (some n) = some .annotated) :
    Within a reportUndefined m (a.times m (some n)) (pending a m) (visitAnnotated a n) := by
  have hchildren := a.times_children_le m (some n)
  have hbelow := a.timesBelow_le m (some n)
  generalize hdocument : a.child (some n) 0 = document at *
  generalize htarget : a.child (some n) 1 = target at *
  let doc := DocComment.silent a document target
  have hstands : doc.StandsOn a target := ⟨n, hkind, htarget, hdocument ▸ rfl⟩
  have hkept : Within a reportUndefined m (a.times m (some n)) (pending a m) (do
      modify fun b => { b with comments := b.comments.insert target doc }
      return .typeNames document ::
        (Work.visit? target ++ if !doc.typeParameters.isEmpty then [.exitScope] else [])) := by
    have hkeep : Mute a reportUndefined
        (modify fun b => { b with comments := b.comments.insert target doc } : Bind Unit) :=
      .act (.keepComment target doc) (fun _ => rfl) hstands rfl
    have hexit : pending a m (if !doc.typeParameters.isEmpty then [.exitScope] else []) = 0 := by
      split <;> rfl
    refine hkeep.within fun _ => .pure ?_
    rw [pending_cons, pending_append, pending_visit?, hexit]
    show a.times m document + _ ≤ _
    omega
  have htemplate (id : ScopeId) (name : Nat) : Mute a reportUndefined (do
      let t ← Analysis.onTypes (·.parameter (a.atom (some name)) (some name))
      Analysis.setType (some name) t
      declareType a id (some name) t : Bind Unit) := by
    show Mute a reportUndefined ((do
      let t ← Analysis.onTypes (·.parameter (a.atom (some name)) (some name))
      Analysis.setType (some name) t
      return t : Bind TypeId) >>= declareType a id (some name))
    exact .bind (.act (.template name) (fun _ => rfl) trivial rfl) fun t => declareType_mute id _ t
  have hopened : Within a reportUndefined m (a.times m (some n)) (pending a m) (do
      if !doc.typeParameters.isEmpty then
        let id ← enterScope .typeParameters (some n)
        doc.typeParameters.forM fun name => do
          let t ← Analysis.onTypes (·.parameter (a.atom (some name)) (some name))
          Analysis.setType (some name) t
          declareType a id (some name) t
      modify fun b => { b with comments := b.comments.insert target doc }
      return .typeNames document ::
        (Work.visit? target ++ if !doc.typeParameters.isEmpty then [.exitScope] else [])) := by
    refine .ite (fun _ => ?_) fun _ => hkept
    refine (enterScope_mute .typeParameters (some n)).within fun id => ?_
    have hall : Mute a reportUndefined (doc.typeParameters.forM fun name => do
        let t ← Analysis.onTypes (·.parameter (a.atom (some name)) (some name))
        Analysis.setType (some name) t
        declareType a id (some name) t : Bind Unit) := .forM fun name _ => htemplate id name
    exact hall.within fun _ => hkept
  rw [visitAnnotated_eq, hdocument, htarget]
  have hcompile : Mute a reportUndefined (reportComment a document target) :=
    .act (.compile document target) (fun _ => rfl) trivial rfl
  refine hcompile.within fun _ => .ite (fun _ => ?_) fun _ => hopened
  have hreport : Mute a reportUndefined
      (Bind.onAnalysis (Analysis.reportAt a .unexpectedComment document)) :=
    .act (.report .unexpectedComment document) (fun _ => rfl) trivial rfl
  exact hreport.within fun _ => hopened

theorem visitExpressionStatement_within (n : Nat) :
    Within a reportUndefined m (a.times m (some n)) (pending a m)
      (visitExpressionStatement a n) := by
  have hexpression := (a.times_child_le m (some n) 0).trans (a.timesBelow_le m _)
  have hvisit : pending a m (Work.visit? (a.child (some n) 0)) ≤ a.times m (some n) := by
    rwa [pending_visit?]
  refine .get_bind fun b hb => ?_
  dsimp only
  split
  · exact .pure hvisit
  · next doc hdoc =>
    refine .ite (fun _ => .pure hvisit) fun _ => ?_
    refine .mono (k := _ + 0) (.bind (visitPath_within _ true) fun found => ?_) hexpression
    obtain ⟨property?, works⟩ := found
    cases property? with
    | none => exact .pure (Nat.le_refl _)
    | some property =>
      have hclass :
        Mute a reportUndefined (declareClass a (some n) (a.pathText (a.child (some n) 0))
          (some doc) none (a.child (some n) 0)) :=
        declareClass_mute _ _ (by simpa using (hb _ doc hdoc).compiled) _ _
      refine .ite (fun _ => ?_) fun _ => .ite (fun _ => ?_) fun _ => .pure (Nat.le_refl _)
      · exact hclass.discard.within fun _ => (addWrite_mute property _).within fun _ =>
          .pure (Nat.le_refl _)
      · exact (aliasFor_mute doc _).within fun t => (nameType_mute property t).within fun _ =>
          .pure (Nat.le_refl _)

theorem nameMemberType_mute (n : Nat) (property : ValueId) :
    Mute a reportUndefined (nameMemberType a n property) := by
  refine .ite (fun _ => .pure _) fun _ => .get_bind fun b _ => ?_
  split
  · refine .ite (fun _ => ?_) fun _ => .pure _
    exact .bind (aliasFor_mute _ _) fun t => nameType_mute property t
  · exact .pure _

theorem visitAssignment_within (n : Nat) :
    Within a reportUndefined m (a.times m (some n)) (pending a m) (visitAssignment a n) := by
  have hchildren := a.times_children_le m (some n)
  have hbelow := a.timesBelow_le m (some n)
  have hparts := a.times_children_le m (a.child (some n) 0)
  have htarget := a.timesBelow_le m (a.child (some n) 0)
  have hvalue : pending a m (Work.visit? (a.child (some n) 1)) = a.times m (a.child (some n) 1) :=
    pending_visit? a m _
  unfold visitAssignment
  dsimp only
  split
  · exact .pure (by omega)
  · next hkind =>
    have hvisit : Within a reportUndefined m (a.times m (a.child (some n) 0)) (fun _ => 0)
        (visitIdentifier a (a.child (some n) 0) (a.child (some n) 1)) :=
          visitIdentifier_within hkind _
    refine .mono (k := a.times m (a.child (some n) 0) + a.times m (a.child (some n) 1))
      (.bind hvisit.discard fun _ => .pure ?_) (by omega)
    rw [hvalue]
    exact Nat.le_add_left _ _
  · refine .mono (k := _ + a.times m (a.child (some n) 1)) (.bind (visitPath_within _ true)
      fun found => ?_) (by omega)
    obtain ⟨property?, works⟩ := found
    have hworks : pending a m (works ++ Work.visit? (a.child (some n) 1)) ≤
        pending a m works + a.times m (a.child (some n) 1) := by
      rw [pending_append, hvalue]
    cases property? with
    | none => exact .pure hworks
    | some property =>
      refine .ite (fun _ => (addWrite_mute property _).within fun _ => ?_) fun _ => ?_
      · exact (nameMemberType_mute n property).within fun _ => .pure hworks
      · exact (nameMemberType_mute n property).within fun _ => .pure hworks
  · refine .mono (k := _ + (a.times m (a.child (a.child (some n) 0) 1) +
      a.times m (a.child (some n) 1))) (.bind (visitPath_within _ false) fun found => ?_) (by omega)
    obtain ⟨object?, works⟩ := found
    dsimp only
    split
    · refine .get_bind fun b _ => (newProperty_mute _ _ _).within fun property => ?_
      refine (setValue_mute _ _).within fun _ => .ite (fun _ => ?_) fun _ => .pure ?_
      · refine (addWrite_mute _ _).within fun _ => .pure ?_
        rw [pending_append, hvalue]
        omega
      · rw [pending_append, hvalue]
        omega
    · refine .pure ?_
      rw [pending_append, pending_append, hvalue, pending_visit?]
      omega
  · refine .pure ?_
    rw [pending_append, hvalue, pending_visit?]
    omega

theorem visitProperty_within (n : Nat) :
    Within a reportUndefined m (a.times m (some n)) (pending a m) (visitProperty a n) := by
  have hchildren := a.times_children_le m (some n)
  have hbelow := a.timesBelow_le m (some n)
  have hkey := (a.times_child_le m (a.child (some n) 0) 0).trans (a.timesBelow_le m _)
  have hvalue : pending a m (Work.visit? (a.child (some n) 1)) ≤ a.times m (some n) := by
    rw [pending_visit?]
    omega
  refine .get_bind fun b _ => ?_
  dsimp only
  split
  · exact .pure hvalue
  · split
    · refine (newProperty_mute _ _ _).within fun property => (setValue_mute _ _).within fun _ => ?_
      exact .ite (fun _ => (addWrite_mute _ _).within fun _ => .pure hvalue) fun _ => .pure hvalue
    · refine .ite (fun _ => .pure ?_) fun _ => .pure hvalue
      rw [pending_append, pending_visit?, pending_visit?]
      omega

theorem visitBlock_within (n : Nat) :
    Within a reportUndefined m (a.times m (some n)) (pending a m) (visitBlock a n) := by
  refine (enterScope_mute .block (some n)).within fun id =>
    (reserveAll_mute id _).within fun _ => ?_
  refine .pure ?_
  rw [pending_append, pending_exitScope, pending_children]
  exact a.timesBelow_le m _

theorem visitCatch_within (n : Nat) :
    Within a reportUndefined m (a.times m (some n)) (pending a m) (visitCatch a n) := by
  have hbody := (a.times_child_le m (some n) 1).trans (a.timesBelow_le m _)
  have hworks : pending a m (Work.visit? (a.child (some n) 1) ++ [.exitScope]) ≤
      a.times m (some n) := by
    rwa [pending_append, pending_exitScope, pending_visit?]
  refine (enterScope_mute .catchClause (some n)).within fun id =>
    .ite (fun _ => ?_) fun _ => .pure hworks
  exact (declareVariable_mute id _).discard.within fun _ => .pure hworks

theorem visitFor_within (n : Nat) :
    Within a reportUndefined m (a.times m (some n)) (pending a m) (visitFor a n) := by
  have hbelow := a.timesBelow_le m (some n)
  refine .ite (fun _ => ?_) fun _ => .pure (by rwa [pending_children])
  refine (enterScope_mute .forHead (some n)).within fun id =>
    (reserveAll_mute id _).within fun _ => ?_
  exact .pure (by rwa [pending_append, pending_exitScope, pending_children])

end Statements

/-! ## The walk -/

section Walk

open Work

/-- **One visit.** It refers to a node, and asks for work that may refer to it, no more often than
the node is listed at and below the one that is visited. -/
theorem visit_within (n : Nat) :
    Within a reportUndefined m (a.times m (some n)) (pending a m) (visit a n) := by
  have hchildren : Within a reportUndefined m (a.times m (some n)) (pending a m)
      (pure (Work.children a (some n))) :=
    .pure (by rw [pending_children]; exact a.timesBelow_le m _)
  have hnothing : Within a reportUndefined m (a.times m (some n)) (pending a m) (pure []) :=
    .pure (Nat.zero_le _)
  unfold visit
  split
  · exact hnothing
  · next kind hkind =>
    split
    · exact visitAnnotated_within hkind
    · exact visitDeclarations_within n
    · exact visitFunction_within n _
    · exact visitFunction_within n _
    · exact visitFunction_within n _
    · exact visitMethod_within n
    · exact visitClass_within n
    · exact visitClass_within n
    · exact visitBlock_within n
    · exact visitCatch_within n
    · exact visitFor_within n
    · exact visitFor_within n
    · exact visitFor_within n
    · exact visitExpressionStatement_within n
    · exact visitAssignment_within n
    · exact .bind (j := 0) (visitIdentifier_within hkind none).discard fun _ =>
        .pure (Nat.le_refl _)
    · exact .bind (j := 0) (visitPath_within (some n) false) fun found => .pure (Nat.le_refl _)
    · exact (newObject_mute n).within fun v => (setValue_mute _ v).within fun _ => hchildren
    · exact visitProperty_within n
    all_goals first
      | exact hnothing
      | exact .ite (fun _ => hnothing) fun _ => hchildren

/-- A piece of work, with all that follows from it. -/
theorem perform_within (work : Work) :
    Within a reportUndefined m (work.times a m) (fun _ => 0) (perform a reportUndefined work) := by
  match work with
  | .exitScope =>
    rw [perform]
    exact .act .exit (fun _ => rfl) trivial
  | .typeNames document =>
    rw [perform]
    exact visitTypeNames_within document
  | .visit n =>
    rw [perform]
    refine .bind (j := 0) (visit_within n) fun works => .forM fun next _ => ?_
    split
    · exact perform_within next
    · exact .pure (Nat.zero_le _)
termination_by work.rank
decreasing_by assumption

/-- The walk of a unit refers to a node no more often than the unit lists it. -/
theorem run_within (root : NodeRef) :
    Within a reportUndefined m (a.times m root) (fun _ => 0) (run a reportUndefined root) := by
  refine .get_bind fun b _ => (openBody_mute _ _).within fun _ => ?_
  refine .mono (.forM fun work _ => perform_within work) ?_
  show pending a m (Work.children a root ++ [.exitScope]) ≤ _
  rw [pending_append, pending_exitScope, pending_children]
  exact a.timesBelow_le m root

end Walk

end Binder

namespace Analysis

theorem documented_unit (a : Arena) (root : NodeRef) : ((new a).unit root).Documented a := by
  intro r doc hdoc
  have hempty : ((new a).unit root).comments.get? r = none := NodeTable.get?_empty r
  rw [hempty] at hdoc
  cases hdoc

/-- Binding the names of a tree does sound acts, one after another, which refer to a node no more
often than the tree lists it. -/
theorem bindNames_acts (a : Arena) (reportUndefined : Bool) (root : NodeRef) (m : Nat) : ∃ acts,
    (bindNames a reportUndefined root (new a)).2 =
      (Binder.doAll a reportUndefined acts ((new a).unit root)).analysis ∧
    (∀ act ∈ acts, act.Sound a) ∧ (acts.flatMap Act.reads).count m ≤ (a.listing root).count m := by
  obtain ⟨acts, hrun, hsound, hle⟩ := Binder.run_within (m := m) root _ (documented_unit a root)
  exact ⟨acts, congrArg Binder.analysis hrun, hsound, hle⟩

end Analysis

end DocTypes
