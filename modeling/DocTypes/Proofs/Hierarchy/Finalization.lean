import DocTypes.Proofs.Handles.Visits
import DocTypes.Proofs.Hierarchy.Counting
import DocTypes.Proofs.Hierarchy.Readiness
import DocTypes.Proofs.Hierarchy.Resolution
import DocTypes.Tree.Builder

/-!
# Which classes are finalized

After the bases are resolved, the classes form a graph: each is built on the classes behind
its bases (`BuiltOn`). The classes that are finalized are those from which neither a blocked
class nor a cycle is reached along this graph.

Once the bases are resolved, the order in which the classes are declared decides the order in
which they are taken, and nothing else. Before that it may decide what a base comes to: of
typedefs that are defined through each other, the one that is met first is expanded, and the
name of the other one is cut off in it (`mutualTypedefBases_order`).

## Main statement

* `build_finalizes`: which classes are finalized, in which order, and that neither the counters
  fail nor the order of the declarations matters.
-/

namespace DocTypes

namespace Hierarchy

open Relation

/-! ## The graph of the classes -/

/-- A class is built on the class behind each of its bases. -/
def BuiltOn (values : ValueStore) (c d : ValueId) : Prop := d ∈ baseClasses values c

theorem mem_declared {decls : List ClassDecl} {v : ValueId} :
    v ∈ (declared decls).toList ↔ ∃ decl ∈ decls, decl.cls = v := by
  have hfold (decls : List ClassDecl) (classes : Registry ValueId) :
      v ∈ (decls.foldl (fun classes decl => classes.insert decl.cls) classes).toList ↔
        v ∈ classes.toList ∨ ∃ decl ∈ decls, decl.cls = v := by
    induction decls generalizing classes with
    | nil => simp
    | cons decl rest ih =>
      rw [List.foldl_cons, ih, Registry.mem_toList_insert, or_assoc]
      simp only [List.exists_mem_cons_iff, eq_comm]
  rw [declared, hfold]
  simp [Registry.toList, Registry.empty]

theorem schedule_map_cls (values : ValueStore) (decls : List ClassDecl) (blocked : List ValueId) :
    (schedule values decls blocked).map (·.cls) = (declared decls).toList.filter (· ∉ blocked) := by
  simp [schedule, Function.comp_def]

theorem schedule_nodup (values : ValueStore) (decls : List ClassDecl) (blocked : List ValueId) :
    ((schedule values decls blocked).map (·.cls)).Nodup := by
  rw [schedule_map_cls]
  exact (declared decls).nodup_toList.filter _

theorem mem_schedule {values : ValueStore} {decls : List ClassDecl} {blocked : List ValueId}
    {w : Waiting} : w ∈ schedule values decls blocked ↔
      (∃ decl ∈ decls, decl.cls = w.cls) ∧ w.cls ∉ blocked ∧
        w.before = baseClasses values w.cls := by
  simp only [schedule, List.mem_map, List.mem_filter, mem_declared, decide_eq_true_eq]
  constructor
  · rintro ⟨c, ⟨hc, hblocked⟩, rfl⟩
    exact ⟨hc, hblocked, rfl⟩
  · rintro ⟨hc, hblocked, hbefore⟩
    exact ⟨w.cls, ⟨hc, hblocked⟩, by rw [← hbefore]⟩

/-- The classes that settle are those that reach declared classes only, none of them blocked
or on a cycle. -/
theorem settles_schedule_iff {values : ValueStore} {decls : List ClassDecl}
    {blocked : List ValueId} {c : ValueId} :
    Settles (schedule values decls blocked) c ↔
      ∀ d, ReflTransGen (BuiltOn values) c d →
        (∃ decl ∈ decls, decl.cls = d) ∧ d ∉ blocked ∧ ¬TransGen (BuiltOn values) d d := by
  have hE : ∀ w ∈ schedule values decls blocked, ∀ d, d ∈ w.before ↔ BuiltOn values w.cls d := by
    intro w hw d
    rw [(mem_schedule.1 hw).2.2, BuiltOn]
  rw [settles_iff_reachable hE]
  refine forall₂_congr fun d _ => ?_
  rw [schedule_map_cls, List.mem_filter, mem_declared, decide_eq_true_eq, and_assoc]

/-- Which classes settle does not depend on the order of the declarations. -/
theorem mem_finalizationOrder_of_mem_iff {values : ValueStore} {decls decls' : List ClassDecl}
    {blocked blocked' : List ValueId} (hdecls : ∀ decl, decl ∈ decls' ↔ decl ∈ decls)
    (hblocked : ∀ v, v ∈ blocked' ↔ v ∈ blocked) (c : ValueId) :
    c ∈ finalizationOrder (schedule values decls' blocked') ↔
      c ∈ finalizationOrder (schedule values decls blocked) := by
  rw [mem_finalizationOrder_iff (schedule_nodup _ _ _),
    mem_finalizationOrder_iff (schedule_nodup _ _ _), settles_schedule_iff, settles_schedule_iff]
  simp only [hdecls, hblocked]

/-! ## Marking classes -/

/-- A class that is finalized. -/
def Finalized (s : Store) (v : ValueId) : Prop :=
  ∃ cls, s.values.class? v = some cls ∧ cls.finalized = true

/-- What finalizing a class leaves at a number. -/
theorem finalizeClass_eq (c : ValueId) (s : Store) :
    finalizeClass c s = (match s.values.class? c with
      | some data => do
        let ancestors ← Store.linearize data.bases
        Store.onValues fun values => ((), values.updateClass c fun data =>
          { data with ancestors, finalized := true })
      | none => return) s := rfl

theorem class?_finalizeClass (c v : ValueId) (s : Store) :
    ∃ ancestors, (finalizeClass c s).2.values.class? v =
      if c = v then (s.values.class? v).map fun cls => { cls with ancestors, finalized := true }
      else s.values.class? v := by
  rw [finalizeClass_eq]
  cases hc : s.values.class? c with
  | none =>
    refine ⟨[], ?_⟩
    show s.values.class? v = _
    split
    · next hcv => simp [← hcv, hc]
    · rfl
  | some data =>
    refine ⟨(Store.linearize data.bases s).1, ?_⟩
    show ((Store.linearize data.bases s).2.values.updateClass c _).class? v = _
    rw [ValueStore.class?_updateClass,
      Store.linearize_applies (R := Store.SameClasses) data.bases s v]
    rfl

/-- Finalizing marks the class and no other. -/
theorem finalized_finalizeClass {c v : ValueId} {s : Store} :
    Finalized (finalizeClass c s).2 v ↔
      Finalized s v ∨ (v = c ∧ (s.values.class? v).isSome) := by
  obtain ⟨ancestors, hclass⟩ := class?_finalizeClass c v s
  unfold Finalized
  rw [hclass]
  by_cases hcv : c = v
  · cases hv : s.values.class? v with
    | none => simp
    | some cls => simp [hcv]
  · simp [hcv, Ne.symm hcv]

theorem isSome_class?_finalizeClass (c v : ValueId) (s : Store) :
    ((finalizeClass c s).2.values.class? v).isSome = (s.values.class? v).isSome := by
  obtain ⟨ancestors, hclass⟩ := class?_finalizeClass c v s
  rw [hclass]
  split <;> simp

/-- The store after classes were finalized one after another. -/
def finalizeAll (order : List ValueId) (s : Store) : Store :=
  order.foldl (fun s c => (finalizeClass c s).2) s

theorem finalized_finalizeAll {order : List ValueId} {s : Store} {v : ValueId} :
    Finalized (finalizeAll order s) v ↔
      Finalized s v ∨ (v ∈ order ∧ (s.values.class? v).isSome) := by
  induction order generalizing s with
  | nil => simp [finalizeAll]
  | cons c order ih =>
    rw [finalizeAll, List.foldl_cons, ← finalizeAll, ih, finalized_finalizeClass,
      isSome_class?_finalizeClass, List.mem_cons, or_and_right, or_assoc]

theorem isSome_class?_finalizeAll (order : List ValueId) (v : ValueId) (s : Store) :
    ((finalizeAll order s).values.class? v).isSome = (s.values.class? v).isSome := by
  induction order generalizing s with
  | nil => rfl
  | cons c order ih =>
    rw [finalizeAll, List.foldl_cons, ← finalizeAll, ih, isSome_class?_finalizeClass]

theorem isFinalized_iff {values : ValueStore} {v : ValueId} (h : (values.class? v).isSome) :
    values.isFinalized v = true ↔ ∃ cls, values.class? v = some cls ∧ cls.finalized = true := by
  unfold ValueStore.class? at h
  cases hv : values.get? v with
  | none => simp [hv] at h
  | some value =>
    obtain ⟨node, members, data⟩ := value
    cases data with
    | classValue cls =>
      simp only [ValueStore.isFinalized, ValueStore.ancestors?, ValueStore.class?, hv,
        Option.bind_some, Value.class?, Option.some.injEq, exists_eq_left']
      cases cls.finalized <;> simp
    | _ => simp [hv, Value.class?] at h

theorem forM_finalizeClass (order : List ValueId) (x : Analysis) :
    ((order.forM fun c => Analyze.onStore (finalizeClass c) : Analyze Unit) x).2
      = { x with store := finalizeAll order x.store } := by
  induction order generalizing x with
  | nil => rfl
  | cons c order ih => exact ih (Analyze.onStore (finalizeClass c) x).2

/-! ## The second pass -/

/-- Reporting cycles changes nothing in the store. -/
theorem reportPairs_store (a : Arena) (decls : List ClassDecl) (pairs : List (ValueId × ValueId))
    (x : Analysis) : ((pairs.forM fun (v, w) => Analysis.reportRelated a .inheritanceCycle
      (reportNode decls v) (reportNode decls w) : Analyze Unit) x).2.store = x.store := by
  induction pairs generalizing x with
  | nil => rfl
  | cons pair pairs ih => exact ih _

theorem reportCycles_store (a : Arena) (decls : List ClassDecl) (x : Analysis) :
    (reportCycles a decls x).2.store = x.store :=
  reportPairs_store a decls _ x

section Build

variable (a : Arena) (x : Analysis)

/-- The values after the bases of all declared classes were resolved. -/
def resolvedValues : ValueStore := (resolutions a x.classes x).2.store.values

/-- A class one of whose declared bases was not resolved. -/
def Blocked (c : ValueId) : Prop :=
  ∃ entry ∈ (resolutions a x.classes x).1, entry.1.cls = c ∧ .unresolved ∈ entry.2

/-- The classes in the order in which they are finalized. -/
def finalizedInOrder : List ValueId :=
  finalizationOrder (schedule (resolvedValues a x) x.classes
    (blockedClasses (resolutions a x.classes x).1))

theorem mem_blockedClasses {c : ValueId} :
    c ∈ blockedClasses (resolutions a x.classes x).1 ↔ Blocked a x c := by
  simp only [blockedClasses, Blocked, List.mem_map, List.mem_filter, decide_eq_true_eq, and_assoc,
    and_comm (a := _ = c)]

theorem onStore_store {α : Type} (m : StateM Store α) (x : Analysis) :
    (Analyze.onStore m x).2.store = (m x.store).2 := rfl

/-- Building the hierarchy finalizes the classes in order, and then the constructed classes. -/
theorem build_store :
    (build a x).2.store = (Store.finalizeAllConstructed
      (finalizeAll (finalizedInOrder a x) (resolutions a x.classes x).2.store)).2 := by
  have hresolve : resolveBases a x.classes x
      = (blockedClasses (resolutions a x.classes x).1, (resolutions a x.classes x).2) := by
    rw [resolveBases_eq]
    rfl
  unfold build
  rw [run_bind, run_get, run_bind, hresolve, run_bind, run_get, run_bind, run_bind, onStore_store,
    reportCycles_store, forM_finalizeClass, finalizedInOrder, resolvedValues]

/-- Building the hierarchy finalizes the classes in order, and does nothing else to classes. -/
theorem class?_build (v : ValueId) :
    (build a x).2.store.values.class? v
      = (finalizeAll (finalizedInOrder a x)
          (resolutions a x.classes x).2.store).values.class? v := by
  rw [build_store]
  exact Store.finalizeAllConstructed_sameClasses _ v

/-- The classes that a class of a ready analysis is built on are declared. -/
theorem exists_decl_of_reachable (hx : x.Ready) {c d : ValueId}
    (hc : ((resolvedValues a x).class? c).isSome)
    (hd : ReflTransGen (BuiltOn (resolvedValues a x)) c d) :
    ∃ decl ∈ x.classes, decl.cls = d := by
  have hready : (resolutions a x.classes x).2.Ready := resolutions_ready a x.classes hx
  have hclass : ((resolvedValues a x).class? d).isSome := by
    induction hd with
    | refl => exact hc
    | tail _ hstep ih =>
      obtain ⟨cls, hcls⟩ := Option.isSome_iff_exists.1 ih
      simp only [BuiltOn, baseClasses, hcls, Option.map_some, Option.getD_some,
        List.mem_map] at hstep
      obtain ⟨b, hb, rfl⟩ := hstep
      have hlike := hready.bases _ cls hcls b hb
      -- behind a constructed class stands the generic class
      unfold baseClass
      cases hcon : (resolvedValues a x).constructed? b with
      | none =>
        rcases ValueStore.isClassLike_iff.1 hlike with h | h
        · exact h
        · exact absurd h (by simp [resolvedValues] at hcon; simp [hcon])
      | some data => exact hready.named.generic b data hcon
  have hdeclared := hready.declared d hclass
  rwa [(resolutions_resolves a x.classes x).classes] at hdeclared

/-- A class is finalized if neither a blocked class nor a cycle is reached from it. -/
theorem isFinalized_build_iff (hx : x.Ready) {c : ValueId}
    (hc : ((build a x).2.store.values.class? c).isSome) :
    (build a x).2.store.values.isFinalized c = true ↔
      ∀ d, ReflTransGen (BuiltOn (resolvedValues a x)) c d →
        ¬Blocked a x d ∧ ¬TransGen (BuiltOn (resolvedValues a x)) d d := by
  have hclass := class?_build a x c
  have hold : ¬Finalized (resolutions a x.classes x).2.store c := by
    rintro ⟨cls, hcls, hfinalized⟩
    simp [(resolutions_ready a x.classes hx).fresh c cls hcls] at hfinalized
  have hbuilt : (build a x).2.store.values.isFinalized c = true ↔
      Finalized (finalizeAll (finalizedInOrder a x) (resolutions a x.classes x).2.store) c := by
    rw [isFinalized_iff hc, hclass]
    rfl
  have hsome : ((resolvedValues a x).class? c).isSome := by
    rwa [hclass, isSome_class?_finalizeAll] at hc
  rw [hbuilt, finalized_finalizeAll, finalizedInOrder,
    mem_finalizationOrder_iff (schedule_nodup _ _ _), settles_schedule_iff]
  constructor
  · rintro (h | ⟨h, _⟩) d hd
    · exact absurd h hold
    · exact ⟨fun hb => (h d hd).2.1 ((mem_blockedClasses a x).2 hb), (h d hd).2.2⟩
  · refine fun h => .inr ⟨fun d hd => ?_, hsome⟩
    refine ⟨exists_decl_of_reachable a x hx hsome hd, fun hb => ?_, (h d hd).2⟩
    exact (h d hd).1 ((mem_blockedClasses a x).1 hb)

/-- **Which classes are finalized.** Let an analysis be ready, and let the classes be built on
each other as their resolved bases say. After the hierarchy is built, a class is finalized if
and only if neither a blocked class nor a cycle is reached from it. Classes are finalized in
`finalizedInOrder`: each at most once, and after all it is built on. The counters of the
classes that are waited for never drop below zero. Declaring the same classes in another
order finalizes the same classes, and so does every ready analysis in which the same classes
are built on each other and blocked. -/
theorem build_finalizes (hx : x.Ready) :
    let E := BuiltOn (resolvedValues a x)
    (∀ c, ((build a x).2.store.values.class? c).isSome →
      ((build a x).2.store.values.isFinalized c = true ↔
        ∀ d, ReflTransGen E c d → ¬Blocked a x d ∧ ¬TransGen E d d)) ∧
    (∀ v, (build a x).2.store.values.class? v
      = (finalizeAll (finalizedInOrder a x)
          (resolutions a x.classes x).2.store).values.class? v) ∧
    (finalizedInOrder a x).Nodup ∧
    (∀ earlier c later, finalizedInOrder a x = earlier ++ c :: later →
      ∀ d, E c d → d ∈ earlier) ∧
    countingOrder (schedule (resolvedValues a x) x.classes
      (blockedClasses (resolutions a x.classes x).1)) = some (finalizedInOrder a x) ∧
    (∀ decls, decls.Perm x.classes → ∀ c,
      c ∈ finalizationOrder (schedule (resolvedValues a x) decls
        (blockedClasses (resolutions a x.classes x).1)) ↔ c ∈ finalizedInOrder a x) ∧
    ∀ y : Analysis, y.Ready → (∀ c d, BuiltOn (resolvedValues a y) c d ↔ E c d) →
      (∀ c, Blocked a y c ↔ Blocked a x c) → ∀ c,
      ((build a x).2.store.values.class? c).isSome →
      ((build a y).2.store.values.class? c).isSome →
      (build a y).2.store.values.isFinalized c = (build a x).2.store.values.isFinalized c := by
  intro E
  have hnodup := schedule_nodup (resolvedValues a x) x.classes
    (blockedClasses (resolutions a x.classes x).1)
  refine ⟨fun c => isFinalized_build_iff a x hx, class?_build a x, finalizationOrder_nodup hnodup,
    fun earlier c later horder d hd => ?_, countingOrder_eq hnodup,
    fun decls hperm c => mem_finalizationOrder_of_mem_iff (fun _ => hperm.mem_iff)
      (fun _ => .rfl) c,
    fun y hy hbuilt hblocked c hcx hcy => ?_⟩
  · obtain ⟨w, hw, rfl, hbefore⟩ := finalizationOrder_ordered hnodup earlier c later horder
    rw [(mem_schedule.1 hw).2.2] at hbefore
    exact hbefore hd
  · have heq : BuiltOn (resolvedValues a y) = E := by
      funext c d
      exact propext (hbuilt c d)
    rw [Bool.eq_iff_iff, isFinalized_build_iff a y hy hcy, isFinalized_build_iff a x hx hcx, heq]
    simp only [hblocked, E]

end Build

/-! ## Typedefs that are defined through each other -/

/-- `/** @typedef {(B|null)} */ var A; /** @typedef {A} */ var B;`, and a class that extends each of
the two. -/
def mutualTypedefBases : Build NodeRef := do
  let name (text : String) :
      Build NodeRef := do Builder.simple .typeName [← Builder.identifier text]
  let typedef (text : String) (type : NodeRef) : Build NodeRef := do
    let document ← Builder.document [← Builder.tag "typedef" [type]]
    Builder.annotated document (← Builder.varStatement text none)
  let extending (text base : String) : Build NodeRef := do
    let document ← Builder.document [← Builder.tag "extends" [← name base]]
    Builder.annotated document (← Builder.classDeclaration text none [])
  let union ← Builder.unionType [← name "B", ← name "null"]
  Builder.script [← typedef "A" union, ← typedef "B" (← name "A"), ← extending "C" "A",
    ← extending "D" "B"]

/-- Declaring the same classes in another order keeps an analysis ready. -/
theorem ready_of_perm {x : Analysis} (hx : x.Ready) {decls : List ClassDecl}
    (h : decls.Perm x.classes) : Analysis.Ready { x with classes := decls } where
  declared v hv := by
    obtain ⟨decl, hdecl, hcls⟩ := hx.declared v hv
    exact ⟨decl, h.mem_iff.2 hdecl, hcls⟩
  fresh := hx.fresh
  named := hx.named
  bases := hx.bases

/-- Declared in the order in which they are written, the second class is blocked: its base comes to
the alias whose name was cut off. Declared in the other order both classes are finalized. -/
theorem mutualTypedefBases_order :
    let tree := mutualTypedefBases Builder.new
    let x := (Analysis.bindNames tree.2.arena true tree.1 (Analysis.new tree.2.arena)).2
    let y := { x with classes := x.classes.reverse }
    x.Ready ∧ y.Ready ∧ x.classes.map (·.cls) = [⟨1003⟩, ⟨1006⟩] ∧
      (build tree.2.arena x).2.store.values.isFinalized ⟨1006⟩ = false ∧
      (build tree.2.arena y).2.store.values.isFinalized ⟨1006⟩ = true := by
  intro tree x y
  have hx : x.Ready := Analysis.bindNames_ready tree.2.arena true tree.1
  exact ⟨hx, ready_of_perm hx (List.reverse_perm x.classes), by decide +kernel⟩

/-! ## A class that extends itself -/

/-- A tree that consists of one name. -/
def loneName : Arena := (Arena.empty.addNode .identifier .empty .zero .empty []).2

/-- The state with one more class, which is declared with the given bases. -/
def withClass (x : Analysis) (name : String) (bases : List BaseRef)
    (valueTable : NodeTable ValueId) : Analysis :=
  let made := x.store.values.newClass none .ordinary name []
  { x with
    store := { x.store with values := made.2 }
    valueTable
    classes := x.classes ++ [{ cls := made.1, node := none, bases }] }

/-- The first class of a run. -/
def firstClass : ValueId := .atPosition 1

/-- The class after it, which comes behind the prototype of the first one. -/
def secondClass : ValueId := .atPosition 3

/-- A class that the lone name stands for and that extends it, and a class without bases. -/
def selfExtending : Analysis :=
  withClass
    (withClass (Analysis.new loneName) "A" [⟨some 0, .extending⟩]
      (.insert .empty (some 0) firstClass))
    "B" [] (.insert .empty (some 0) firstClass)

theorem selfExtending_ready : selfExtending.Ready :=
  (Analysis.Prepares.newClass _ _ _ _ _ _ _ _).1.ready
    ((Analysis.Prepares.newClass _ _ _ _ _ _ _ _).1.ready (Analysis.ready_new loneName))

theorem builtOn_selfExtending :
    baseClasses (resolvedValues loneName selfExtending) firstClass = [firstClass] ∧
      baseClasses (resolvedValues loneName selfExtending) secondClass = [] := by decide +kernel

/-- The class that extends itself is not finalized, and the other one is. -/
theorem build_selfExtending_finalizes :
    selfExtending.Ready ∧
      (build loneName selfExtending).2.store.values.isFinalized firstClass = false ∧
      (build loneName selfExtending).2.store.values.isFinalized secondClass = true := by
  obtain ⟨hfirst, hsecond⟩ := builtOn_selfExtending
  have hsome : ∀ c, ((resolvedValues loneName selfExtending).class? c).isSome →
      ((build loneName selfExtending).2.store.values.class? c).isSome := by
    intro c hc
    rwa [class?_build, isSome_class?_finalizeAll]
  have hblocked : ∀ c, ¬Blocked loneName selfExtending c := by
    have hheritages : (resolutions loneName selfExtending.classes selfExtending).1.map (·.2)
        = [[.cls firstClass], []] := by decide +kernel
    rintro c ⟨entry, hmem, -, hunresolved⟩
    have hentry := List.mem_map_of_mem (f := (·.2)) hmem
    rw [hheritages] at hentry
    rcases List.mem_pair.1 hentry with h | h
    · simp [h] at hunresolved
    · simp [h] at hunresolved
  have hmain := (build_finalizes loneName selfExtending selfExtending_ready).1
  refine ⟨selfExtending_ready, ?_, (hmain secondClass (hsome _ (by decide +kernel))).2 ?_⟩
  · rw [Bool.eq_false_iff]
    intro hfinalized
    have hself := (hmain firstClass (hsome _ (by decide +kernel))).1 hfinalized firstClass .refl
    exact hself.2 (.single (by simp [BuiltOn, hfirst]))
  · intro d hd
    have hnone : ∀ e, ¬BuiltOn (resolvedValues loneName selfExtending) secondClass e := by
      simp [BuiltOn, hsecond]
    rcases ReflTransGen.cases_head hd with rfl | ⟨e, he, -⟩
    · refine ⟨hblocked _, fun hcycle => ?_⟩
      obtain ⟨e, he, -⟩ := TransGen.head'_iff.1 hcycle
      exact hnone e he
    · exact absurd he (hnone e)

end Hierarchy

end DocTypes
