import DocTypes.Proofs.Binding.Closing
import DocTypes.Proofs.Binding.Reading
import Mathlib.Data.List.Pairwise

/-!
# Every node is referred to once

All references together, those that slots list (`ValueStore.references`) and those that wait in
scopes (`ScopeTree.awaiting`), mention a node as often as the walk visits it, and no more. A step
that only moves references about, as the end of a scope does, makes no new mention of a node
(`Binder.Gains`).

## Main statements

* `Binder.exitScope_gains`: closing a scope mentions no node more often than before.
* `Act.run_gains`: an act mentions the nodes that it reads once more, and no others.
* `Analysis.bindNames_references`: once names are bound, all slots together list a
  node at most once.
-/

namespace DocTypes

/-! ## Lists that change in one place -/

/-- Where the parts for one index change, the whole changes as they do. -/
theorem count_flatMap_off {ι β : Type} [DecidableEq ι] [BEq β] {is : List ι} (h : is.Nodup)
    {i : ι} (hi : i ∈ is) {f g : ι → List β} (hoff : ∀ j, j ≠ i → f j = g j) (x : β) :
    (is.flatMap f).count x + (g i).count x = (is.flatMap g).count x + (f i).count x := by
  have hsplit (q : ι → List β) :
      (is.flatMap q).count x = (q i).count x + ((is.erase i).flatMap q).count x := by
    rw [((List.perm_cons_erase hi).flatMap_right q).count_eq, List.flatMap_cons, List.count_append]
  have hrest : (is.erase i).flatMap f = (is.erase i).flatMap g := by
    refine List.flatMap_congr fun j hj => hoff j ?_
    rintro rfl
    exact (List.Nodup.not_mem_erase h) hj
  rw [hsplit g, hsplit f, hrest]
  omega

/-! ## References of slots -/

namespace ValueStore

variable {s s' : ValueStore}

/-- The nodes that read slots, slot by slot. -/
def references (s : ValueStore) : List NodeRef := s.ids.flatMap s.readsOf

theorem readsOf_atPosition {i : Nat} (h : s.size ≤ i) : s.readsOf (.atPosition i) = [] := by
  have hget : s.get? (.atPosition i) = none := by
    rw [get?, ValueId.position?_atPosition, Option.bind_some]
    exact Array.getElem?_eq_none h
  rw [readsOf, slot?, hget]
  rfl

/-- A number that no slot has adds nothing. -/
theorem references_eq {n : Nat} (h : s.size ≤ n) :
    s.references = (List.range n).flatMap fun i => s.readsOf (.atPosition i) := by
  obtain ⟨k, rfl⟩ := Nat.exists_eq_add_of_le h
  have hrest : ((List.range k).map (s.size + ·)).flatMap (fun i =>
    s.readsOf (.atPosition i)) = [] := by
    rw [List.flatMap_map, List.flatMap_eq_nil_iff]
    exact fun i _ => readsOf_atPosition (Nat.le_add_right _ _)
  rw [List.range_add, List.flatMap_append, hrest, List.append_nil, references, ids,
    List.flatMap_map]
  rfl

theorem references_congr (h : ∀ v, s'.readsOf v = s.readsOf v) : s'.references = s.references := by
  rw [references_eq (Nat.le_max_left s.size s'.size),
    references_eq (Nat.le_max_right s.size s'.size)]
  exact List.flatMap_congr fun i _ => h _

theorem mem_ids_of_mem_readsOf {r : NodeRef} {v : ValueId} (h : r ∈ s.readsOf v) : v ∈ s.ids := by
  cases hpos : v.position? with
  | none => simp [readsOf, slot?, get?, hpos] at h
  | some i =>
    rw [ValueId.position?_eq_some_iff] at hpos
    subst hpos
    refine List.mem_map_of_mem (List.mem_range.2 (Nat.lt_of_not_le fun hle => ?_))
    rw [readsOf_atPosition hle] at h
    exact List.not_mem_nil h

theorem mem_references {r : NodeRef} : r ∈ s.references ↔ ∃ v, r ∈ s.readsOf v :=
  ⟨fun h => (List.mem_flatMap.1 h).imp fun _ => And.right, fun ⟨v, hv⟩ =>
    List.mem_flatMap.2 ⟨v, mem_ids_of_mem_readsOf hv, hv⟩⟩

/-- If all slots together list each node once, a node is listed by one slot. -/
theorem eq_of_mem_readsOf (h : s.references.Nodup) {v w : ValueId} {r : NodeRef}
    (hv : r ∈ s.readsOf v) (hw : r ∈ s.readsOf w) : v = w := by
  by_contra hne
  have hsymm : Std.Symm (Function.onFun List.Disjoint s.readsOf) := ⟨fun _ _ => List.disjoint_symm⟩
  exact (List.nodup_flatMap.1 h).2.forall (mem_ids_of_mem_readsOf hv) (mem_ids_of_mem_readsOf hw)
    hne hv hw

theorem count_references_addRead_le (s : ValueStore) (v : ValueId) (node r : NodeRef) :
    (s.addRead v node).references.count r ≤ s.references.count r + [node].count r := by
  cases hslot : s.slot? v with
  | none =>
    rw [references_congr (readsOf_addRead_of_none hslot node)]
    exact Nat.le_add_right _ _
  | some slot =>
    have hreads (w : ValueId) := readsOf_addRead (Option.isSome_of_eq_some hslot) node w
    have hids : (s.addRead v node).ids = s.ids :=
      congrArg (fun n => (List.range n).map ValueId.atPosition) (size_update s v _)
    by_cases hv : v ∈ s.ids
    · have hcount := count_flatMap_off s.nodup_ids hv (g := s.readsOf)
        (f := (s.addRead v node).readsOf) (fun w hw => by rw [hreads, if_neg (Ne.symm hw)]) r
      rw [hreads, if_pos rfl, List.count_append] at hcount
      rw [references, hids]
      exact Nat.le_of_eq (by unfold references; omega)
    · rw [references, hids, references]
      rw [List.flatMap_congr (g := s.readsOf) fun w hw => ?_]
      · exact Nat.le_add_right _ _
      · rw [hreads, if_neg]
        rintro rfl
        exact hv hw

end ValueStore

/-! ## References that wait -/

/-- The nodes of the parked references to variables. -/
def awaited (parked : List Parked) : List NodeRef :=
  (parked.filter fun p => p.space = .value).map (·.node)

namespace ScopeTree

variable {t : ScopeTree}

/-- The nodes of the references to variables that wait in a scope. -/
def awaitedIn (t : ScopeTree) (id : ScopeId) : List NodeRef :=
  ((t.get? id).map fun scope => awaited scope.parked.toList).getD []

/-- The nodes of the references to variables that wait in scopes, scope by scope. -/
def awaiting (t : ScopeTree) : List NodeRef :=
  (List.range t.size).flatMap fun i => t.awaitedIn ⟨i⟩

theorem awaiting_push (t : ScopeTree) {scope : Scope} (h : scope.parked = #[]) :
    (t.push scope).2.awaiting = t.awaiting := by
  have hsize : (t.push scope).2.size = t.size + 1 := Array.size_push _
  have hnew : (t.push scope).2.awaitedIn ⟨t.size⟩ = [] := by
    have hget : (t.push scope).2.get? ⟨t.size⟩ = some scope :=
      (get?_push t scope _).trans (if_pos rfl)
    rw [awaitedIn, hget, Option.map_some, h]
    rfl
  rw [awaiting, hsize, List.range_succ, List.flatMap_append, List.flatMap_singleton, hnew,
    List.append_nil]
  refine List.flatMap_congr fun i hi => ?_
  have hne : (⟨i⟩ : ScopeId) ≠ (t.push scope).1 := fun heq =>
    Nat.ne_of_lt (List.mem_range.1 hi) (congrArg ScopeId.index heq)
  rw [awaitedIn, awaitedIn, get?_push, if_neg hne]

/-- In a scope that changes other references may wait. -/
theorem count_awaiting_update {id : ScopeId} {scope : Scope} (h : t.get? id = some scope)
    (f : Scope → Scope) (r : NodeRef) :
    (t.update id f).awaiting.count r + (awaited scope.parked.toList).count r =
      t.awaiting.count r + (awaited (f scope).parked.toList).count r := by
  have hsize : (t.update id f).size = t.size := t.size_update id f
  have hid : id.index ∈ List.range t.size := List.mem_range.2 (lt_size_of_get? h)
  have hcount := count_flatMap_off List.nodup_range hid (g := fun i => t.awaitedIn ⟨i⟩)
    (f := fun i => (t.update id f).awaitedIn ⟨i⟩) (fun j hj => ?_) r
  · rw [awaiting, awaiting, hsize]
    simpa [awaitedIn, get?_update, h] using hcount
  · have hne : id ≠ ⟨j⟩ := fun heq => hj (congrArg ScopeId.index heq).symm
    simp only [awaitedIn, get?_update, if_neg hne]

theorem count_awaiting_update_le (t : ScopeTree) (id : ScopeId) {f : Scope → Scope} {k : Nat}
    {r : NodeRef} (h : ∀ scope : Scope, (awaited (f scope).parked.toList).count r ≤
      (awaited scope.parked.toList).count r + k) :
    (t.update id f).awaiting.count r ≤ t.awaiting.count r + k := by
  cases hid : t.get? id with
  | some scope =>
    have hcount := count_awaiting_update hid f r
    have hle := h scope
    omega
  | none =>
    have hsize : (t.update id f).size = t.size := t.size_update id f
    have hsame : (t.update id f).awaiting = t.awaiting := by
      rw [awaiting, awaiting, hsize]
      refine List.flatMap_congr fun i _ => ?_
      rw [awaitedIn, awaitedIn, get?_update]
      split
      · next heq => rw [← heq, hid, Option.map_none]
      · rfl
    rw [hsame]
    exact Nat.le_add_right _ _

end ScopeTree

/-! ## Steps -/

namespace Binder

/-- How often all references together mention a node. -/
def mentions (r : NodeRef) (b : Binder) : Nat :=
  b.values.references.count r + b.scopes.awaiting.count r

/-- All references together mention a node at most `k` times more. -/
def Gains (r : NodeRef) (k : Nat) (b b' : Binder) : Prop := b'.mentions r ≤ b.mentions r + k

variable {a : Arena} {reportUndefined : Bool} {r : NodeRef} {k j : Nat} {α β : Type}

namespace Gains

theorem refl (b : Binder) : Gains r 0 b b := Nat.le_refl _

theorem trans {b b' b'' : Binder} (h : Gains r k b b') (h' : Gains r j b' b'') :
    Gains r (k + j) b b'' := by
  unfold Gains at *
  omega

theorem mono {b b' : Binder} (h : Gains r k b b') (hk : k ≤ j) : Gains r j b b' :=
  Nat.le_trans h (Nat.add_le_add_left hk _)

/-- A step that leaves the scopes alone. -/
theorem ofValues {b b' : Binder} (hscopes : b'.scopes = b.scopes)
    (h : b'.values.references.count r ≤ b.values.references.count r + k) : Gains r k b b' := by
  unfold Gains mentions
  rw [hscopes]
  omega

/-- A step that leaves the values alone. -/
theorem ofScopes {b b' : Binder} (hvalues : b'.values = b.values)
    (h : b'.scopes.awaiting.count r ≤ b.scopes.awaiting.count r + k) : Gains r k b b' := by
  unfold Gains mentions
  rw [hvalues]
  omega

end Gains

instance : Std.Refl (Gains r 0) := ⟨Gains.refl⟩

instance : IsTrans Binder (Gains r 0) := ⟨fun _ _ _ => Gains.trans⟩

/-- A step that mentions no node gains nothing. -/
theorem gains_of_none {m : Bind α} (h : Moves (Gains r 0) m) : Moves (Gains r k) m :=
  fun b => (h b).mono (Nat.zero_le k)

theorem gains_bind {m : Bind α} {f : α → Bind β} (hm : Moves (Gains r k) m)
    (hf : ∀ x, Moves (Gains r j) (f x)) : Moves (Gains r (k + j)) (m >>= f) :=
  fun b => (hm b).trans (hf _ _)

/-- What is done before mentions no node. -/
theorem gains_after {m : Bind α} {f : α → Bind β} (hm : Moves (Gains r 0) m)
    (hf : ∀ x, Moves (Gains r k) (f x)) : Moves (Gains r k) (m >>= f) := by
  rw [← Nat.zero_add k]
  exact gains_bind hm hf

/-- A step of the analysis that reads no slot. -/
theorem onAnalysis_gains {m : Analyze α} (hscopes : ∀ x, (m x).2.scopes = x.scopes)
    (hreads : ∀ (x : Analysis) v, (m x).2.store.values.readsOf v = x.store.values.readsOf v) :
    Moves (Gains r 0) (Bind.onAnalysis m) := fun b =>
  .ofValues (hscopes b.analysis)
    (Nat.le_of_eq (congrArg (List.count r) (ValueStore.references_congr (hreads b.analysis))))

theorem updateScope_gains (id : ScopeId) {f : Scope → Scope}
    (h : ∀ scope : Scope, (awaited (f scope).parked.toList).count r ≤
      (awaited scope.parked.toList).count r + k) : Moves (Gains r k) (updateScope id f) := fun b =>
  .ofScopes rfl (b.scopes.count_awaiting_update_le id h)

theorem park_gains (id : ScopeId) (p : Parked) :
    Moves (Gains r ((awaited [p]).count r)) (park id p) := by
  refine updateScope_gains id fun scope => ?_
  rw [Scope.park, Array.toList_push, awaited, List.filter_append, List.map_append,
    List.count_append]
  exact Nat.le_refl _

theorem bindReference_gains (node : NodeRef) (target : ValueId) (assigned : NodeRef) :
    Moves (Gains r ([node].count r)) (bindReference node target assigned) := fun b => by
  have hread := b.values.count_references_addRead_le target node r
  rw [bindReference_eq]
  refine Gains.ofValues rfl ?_
  show (useVariable b.values target node assigned).references.count r ≤ _
  unfold useVariable
  split
  · rwa [ValueStore.references_congr (ValueStore.readsOf_addWrite _ _ · _)]
  · exact hread

theorem setValue_gains (node : NodeRef) (v : ValueId) :
    Moves (Gains r 0) (Bind.onAnalysis (Analysis.setValue node v)) :=
  onAnalysis_gains (fun _ => rfl) fun _ _ => rfl

theorem setType_gains (node : NodeRef) (t : TypeId) :
    Moves (Gains r 0) (Bind.onAnalysis (Analysis.setType node t)) :=
  onAnalysis_gains (fun _ => rfl) fun _ _ => rfl

theorem reportAt_gains (problem : Problem) (node : NodeRef) :
    Moves (Gains r 0) (Bind.onAnalysis (Analysis.reportAt a problem node)) :=
  onAnalysis_gains (fun _ => rfl) fun _ _ => rfl

theorem visitIdentifier_gains (node assigned : NodeRef) :
    Moves (Gains r ([node].count r)) (visitIdentifier a node assigned) := by
  let parked : Parked := { name := a.atom node, node, space := .value, assigned }
  have hpark (id : ScopeId) : Moves (Gains r ([node].count r))
      (park id parked >>= fun _ => pure (none : Option ValueId)) :=
    gains_bind (j := 0) (park_gains id parked) fun _ => .pure _
  refine .get_bind fun b => Moves.movesFrom ?_ b
  dsimp only
  split
  · exact gains_bind (j := 0) (bindReference_gains _ _ _) fun _ => .pure _
  · exact hpark _
  · refine .ite (fun _ => gains_of_none (.bind (setValue_gains _ _) fun _ => .pure _)) fun _ => ?_
    exact .ite (fun _ => gains_of_none (.pure _)) fun _ => hpark _

theorem visitMember_gains (n : Nat) (owner : ValueId) (create : Bool) :
    Moves (Gains r (((Act.member n owner create).reads.map some).count r))
      (visitMember a n owner create) := by
  have hset (node : NodeRef) (v : ValueId) := setValue_gains (r := r) node v
  refine .get_bind fun b => Moves.movesFrom ?_ b
  cases create with
  | true =>
    refine gains_after (onAnalysis_gains (fun _ => rfl) fun x v => ?_) fun property => ?_
    · exact (ValueStore.SameSlots.newProperty _ _ _ _).readsOf v
    · exact gains_after (hset _ _) fun _ => gains_after (hset _ _) fun _ => gains_of_none (.pure _)
  | false =>
    refine .ite (fun h => nomatch h) fun _ => ?_
    split
    · exact gains_of_none (.pure _)
    · refine gains_after (hset _ _) fun _ => gains_after (hset _ _) fun _ => ?_
      refine gains_bind (j := 0) (fun b => ?_) fun _ => .pure _
      exact .ofValues rfl (b.values.count_references_addRead_le _ _ _)

theorem visitTypeName_gains {n : Nat} (h : a.kind? (a.child (some n) 0) = some .identifier) :
    Moves (Gains r 0) (visitTypeName a n) := by
  unfold visitTypeName
  dsimp only
  rw [h]
  dsimp only
  refine .ite (fun _ => .pure _) fun _ => .bind .get fun b => ?_
  split
  · exact setType_gains _ _
  · exact park_gains _ _
  · exact park_gains _ _

theorem retry_gains (scope : Scope) (p : Parked) :
    Moves (Gains r ((awaited [p]).count r)) (retry a reportUndefined scope p) := by
  unfold retry
  split
  · next hspace _ =>
    have hawaited : awaited [p] = [p.node] := by simp [awaited, hspace]
    rw [hawaited]
    exact bindReference_gains _ _ _
  · exact gains_of_none (setType_gains _ _)
  · split
    · exact park_gains _ p
    · exact .ite (fun _ => gains_of_none (reportAt_gains _ _)) fun _ => gains_of_none (.pure _)

theorem retryAll_gains (scope : Scope) (parked : List Parked) :
    Moves (Gains r ((awaited parked).count r)) (parked.forM (retry a reportUndefined scope)) := by
  induction parked with
  | nil => exact gains_of_none (.pure _)
  | cons p rest ih =>
    have hsplit : awaited (p :: rest) = awaited [p] ++ awaited rest := by
      rw [awaited, ← List.singleton_append, List.filter_append, List.map_append]
      rfl
    rw [hsplit, List.count_append]
    exact gains_bind (retry_gains scope p) fun _ => ih

/-- When a scope closes its references are bound, parked further out or given up. -/
theorem exitScope_gains : Moves (Gains r 0) (exitScope a reportUndefined) := by
  intro b
  cases hscope : b.scopes.get? b.current with
  | none =>
    have hrun : (exitScope a reportUndefined b).2 = b := by
      unfold exitScope
      rw [run_bind, run_get, run_bind, run_get]
      simp only [hscope]
      rfl
    rw [hrun]
    exact .refl b
  | some scope =>
    have hsuspend := ScopeTree.count_awaiting_update hscope
      (fun s => { s with state := .resolving, parked := #[] }) r
    have hretry : Gains r ((awaited scope.parked.toList).count r) b.suspend
        (scope.parked.toList.forM (retry a reportUndefined scope) b.suspend).2 :=
      retryAll_gains scope scope.parked.toList b.suspend
    have hclose : Moves (Gains r 0) (updateScope b.current fun s => { s with state := .closed }) :=
      updateScope_gains _ fun _ => Nat.le_refl _
    have hclosed := hclose (scope.parked.toList.forM (retry a reportUndefined scope) b.suspend).2
    have hempty : b.suspend.mentions r + (awaited scope.parked.toList).count r = b.mentions r := by
      unfold mentions
      rw [Nat.add_assoc]
      exact congrArg (b.values.references.count r + ·) hsuspend
    refine Nat.le_trans (Nat.le_of_eq ?_)
      (Nat.le_trans (hretry.trans hclosed) (Nat.le_of_eq hempty))
    rw [exitScope_eq hscope]
    rfl

theorem declareVariable_gains (id : ScopeId) (binding : NodeRef) :
    Moves (Gains r 0) (declareVariable a id binding) := by
  refine .bind .get fun b => ?_
  split
  · refine .bind (onAnalysis_gains (fun _ => rfl) fun _ _ => rfl) fun _ => ?_
    exact .bind (setValue_gains _ _) fun _ => .pure _
  · refine .bind (onAnalysis_gains (fun _ => rfl) fun x v => ?_) fun v => ?_
    · have hslots :
        x.store.values.SameSlots (x.store.values.newVariable binding (a.atom binding)).2 :=
        .alloc _ fun slot hslot => by cases hslot; rfl
      exact hslots.readsOf v
    · refine .bind (updateScope_gains _ fun _ => Nat.le_refl _) fun _ => ?_
      exact .bind (setValue_gains _ _) fun _ => .pure _

theorem declareType_gains (id : ScopeId) (name : NodeRef) (t : TypeId) :
    Moves (Gains r 0) (declareType a id name t) := by
  refine .bind .get fun b => ?_
  split
  · exact onAnalysis_gains (fun _ => rfl) fun _ _ => rfl
  · exact updateScope_gains _ fun _ => Nat.le_refl _

theorem aliasFor_gains (doc : DocComment) (name : Atom) : Moves (Gains r 0) (aliasFor doc name) :=
  onAnalysis_gains (fun _ => rfl) fun _ _ => rfl

theorem declareClass_gains (site : NodeRef) (name : String) (doc : Option DocComment)
    (heritage node : NodeRef) : Moves (Gains r 0) (declareClass a site name doc heritage node) := by
  refine .bind .get fun b => .bind (onAnalysis_gains (fun _ => rfl) fun x v => ?_) fun cls => ?_
  · exact (ValueStore.SameSlots.newClass _ _ _ _ _).readsOf v
  · refine .bind (setValue_gains _ _) fun _ => .bind (fun b => ?_) fun _ => .pure _
    exact .ofValues rfl (Nat.le_refl _)

end Binder

open Binder in
/-- An act refers to the nodes that it reads, and moves other references about. -/
theorem Act.run_gains {a : Arena} {reportUndefined : Bool} {r : NodeRef} {act : Act}
    (h : act.Sound a) :
    Moves (Gains r ((act.reads.map some).count r)) (act.run a reportUndefined) := by
  have hslots {α : Type} {f : ValueStore → α × ValueStore}
      (hf : ∀ s : ValueStore, s.SameSlots (f s).2) :
      Moves (Gains r 0) (Bind.onAnalysis (Analysis.onValues f)) :=
    onAnalysis_gains (fun _ => rfl) fun x v => (hf x.store.values).readsOf v
  have htypes {α : Type} (f : TypeStore → α × TypeStore) :
      Moves (Gains r 0) (Bind.onAnalysis (Analysis.onTypes f)) :=
    onAnalysis_gains (fun _ => rfl) fun _ _ => rfl
  cases act with
  | enter kind node =>
    refine gains_of_none fun b => ?_
    exact .ofScopes rfl (Nat.le_of_eq (congrArg (List.count r) (b.scopes.awaiting_push rfl)))
  | exit => exact gains_of_none exitScope_gains
  | reserve id space name =>
    refine gains_of_none (updateScope_gains id fun scope => ?_)
    unfold Scope.reserve
    split <;> exact Nat.le_refl _
  | bindName id binding => exact gains_of_none (declareVariable_gains id binding).discard
  | bindType id name t => exact gains_of_none (declareType_gains id name t)
  | template name => exact gains_of_none (.bind (htypes _) fun _ => setType_gains _ _)
  | makeClass site name doc heritage node =>
    exact gains_of_none (declareClass_gains site name doc heritage node).discard
  | compile document target => exact gains_of_none fun b => .ofValues rfl (Nat.le_refl _)
  | keepComment target doc => exact gains_of_none fun b => .ofValues rfl (Nat.le_refl _)
  | identifier node assigned =>
    cases node with
    | none => cases h
    | some n => exact (visitIdentifier_gains (some n) assigned).discard
  | member n owner create => exact (visitMember_gains n owner create).discard
  | typeReference n => exact gains_of_none (visitTypeName_gains h)
  | function n =>
    exact gains_of_none (hslots fun s => .alloc s fun slot hslot => by cases hslot).discard
  | object n => exact gains_of_none (hslots fun s => .newObject s _).discard
  | property owner key node =>
    exact gains_of_none (hslots fun s => .newProperty s owner key node).discard
  | value q v => exact gains_of_none (setValue_gains q v)
  | write v node =>
    refine gains_of_none (onAnalysis_gains (fun _ => rfl) fun x w => ?_)
    exact ValueStore.readsOf_addWrite _ _ _ _
  | instanceType cls => exact gains_of_none (htypes fun types => types.instanceOf cls).discard
  | aliasType doc name => exact gains_of_none (aliasFor_gains doc name).discard
  | nameType v t => exact gains_of_none (onAnalysis_gains (fun _ => rfl) fun _ _ => rfl)
  | report problem node => exact gains_of_none (reportAt_gains problem node)

namespace Binder

/-- Acts one after another refer to the nodes that they read. -/
theorem doAll_gains {a : Arena} {reportUndefined : Bool} {acts : List Act}
    (h : ∀ act ∈ acts, act.Sound a) (r : NodeRef) (b : Binder) :
    Gains r (((acts.flatMap Act.reads).map some).count r) b (doAll a reportUndefined acts b) := by
  induction acts generalizing b with
  | nil => exact .refl b
  | cons act acts ih =>
    have hact : Gains r ((act.reads.map some).count r) b (act.run a reportUndefined b).2 :=
      Act.run_gains (h act List.mem_cons_self) b
    have hrest := ih (fun other hother => h other (List.mem_cons_of_mem _ hother))
      (act.run a reportUndefined b).2
    rw [List.flatMap_cons, List.map_append, List.count_append]
    exact hact.trans hrest

end Binder

namespace Analysis

theorem mentions_unit (a : Arena) (root r : NodeRef) : ((new a).unit root).mentions r = 0 := by
  have hslots : (ValueStore.new ((a.atoms.lookup? "prototype").getD .empty)).SameSlots
      (new a).store.values := .alloc _ fun slot hslot => by cases hslot
  have hscopes : ((new a).unit root).scopes.awaiting = [] := ScopeTree.awaiting_push _ rfl
  show (new a).store.values.references.count r + _ = 0
  rw [ValueStore.references_congr hslots.readsOf, hscopes]
  rfl

/-- **Every node is referred to once.** Once the names of a tree are bound that lists each node
once, all slots together list each node at most once. -/
theorem bindNames_references {a : Arena} {root : NodeRef} (h : (a.listing root).Nodup)
    (reportUndefined : Bool) :
    (bindNames a reportUndefined root (new a)).2.store.values.references.Nodup := by
  refine List.nodup_iff_count_le_one.2 fun r => ?_
  obtain ⟨acts, hrun, hsound, hle⟩ := bindNames_acts a reportUndefined root (r.getD 0)
  have hreads : ((acts.flatMap Act.reads).map some).count r ≤ 1 := by
    cases r with
    | none => exact (List.count_eq_zero.2 (by simp)).trans_le (Nat.zero_le 1)
    | some n =>
      rw [List.count_map_of_injective _ _ (Option.some_injective Nat)]
      exact hle.trans (List.nodup_iff_count_le_one.1 h n)
  have hgains : Binder.Gains r (((acts.flatMap Act.reads).map some).count r) ((new a).unit root)
      (Binder.doAll a reportUndefined acts ((new a).unit root)) := Binder.doAll_gains hsound r _
  rw [Binder.Gains, mentions_unit, Nat.zero_add] at hgains
  rw [hrun]
  exact (Nat.le_add_right _ _).trans (hgains.trans hreads)

end Analysis

end DocTypes
