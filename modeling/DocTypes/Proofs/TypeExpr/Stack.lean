import DocTypes.Proofs.TypeExpr.Dependence
import DocTypes.TypeExpr.Frames

/-!
# The stack and the recursion

The stack machine does in some number of steps what `TypeExpr.enter` does by recursion. A
suspended node is looked at again when the expression of its alias is done. By then the alias
has a target, so what is found is that target, and nothing else happens at the node.

An alias is started when its expression is put on the stack, and once it is started it stays so:
it is being expanded until it has a target, and it keeps one. No alias is expanded twice.

## Main statements

* `TypeExpr.Machine.steps_enter`: the machine gets from an expression on the stack to the state
  that the recursion leads to, and the rest of the stack is as it was.
* `TypeExpr.Machine.expansions_nodup`: along any run each alias is expanded at most once.
* `TypeExpr.Machine.halts_start`, `TypeExpr.Machine.halts_startAlias`: the machine stops, and
  where the recursion says.
-/

namespace DocTypes

open Relation

namespace TypeExpr

open Analysis

/-! ## Expandable and resolving aliases -/

theorem mem_aliases {x : Analysis} {t : TypeId} : t ∈ x.store.types.aliases ↔ IsAlias x t := by
  have hmem : t ∈ x.store.types.aliases ↔ t ∈ x.store.types.interned ∧ IsAlias x t := by
    unfold TypeStore.aliases IsAlias
    rw [List.mem_filter]
    refine and_congr_right fun _ => ?_
    split
    · next name tag hkey => simp [hkey]
    · next hnone => simpa using fun name tag hkey => hnone name tag hkey
  rw [hmem, and_iff_right_iff_imp]
  rintro ⟨name, tag, hkey⟩
  have hknown : x.store.Known t := Option.isSome_of_eq_some hkey
  have hlt := hknown.lt
  have hge : TypeId.firstInterned ≤ t.index := by
    by_contra hlt
    have hintrinsic : t.isIntrinsic = true := decide_eq_true (Nat.lt_of_not_le hlt)
    rw [TypeStore.key?, if_pos hintrinsic] at hkey
    have hmem : TypeKey.aliasOf name tag ∈ TypeKey.intrinsics := List.mem_of_getElem? hkey
    simp [TypeKey.intrinsics] at hmem
  refine List.mem_map.2 ⟨t.index - TypeId.firstInterned, List.mem_range.2 (by omega), ?_⟩
  rw [Nat.add_sub_cancel' hge]

theorem nodup_aliases (s : TypeStore) : s.aliases.Nodup := by
  refine List.Nodup.filter _ (List.nodup_range.map fun i j h => ?_)
  simpa using h

/-- The aliases that may be expanded are those that are not being expanded. -/
structure Balanced (x : Analysis) (expandable resolving : List TypeId) : Prop where
  nodup : expandable.Nodup
  iff_not_mem : ∀ t, IsAlias x t → (t ∈ expandable ↔ t ∉ resolving)

theorem Balanced.fills {a : Arena} {x y : Analysis} {expandable resolving : List TypeId}
    (h : Balanced x expandable resolving) (hfills : Fills a x y) :
    Balanced y expandable resolving :=
  ⟨h.nodup, fun t ht => h.iff_not_mem t (hfills.aliases t ht)⟩

theorem Balanced.erase {x : Analysis} {expandable resolving : List TypeId} {t : TypeId}
    (h : Balanced x expandable resolving) : Balanced x (expandable.erase t) (t :: resolving) := by
  refine ⟨h.nodup.erase t, fun u hu => ?_⟩
  rw [h.nodup.mem_erase_iff, h.iff_not_mem u hu, List.mem_cons, not_or]

namespace Machine

/-- The machine takes a step. -/
def Next (a : Arena) (m m' : Machine) : Prop := m.step? a = some m'

variable {a : Arena} {x : Analysis} {expandable resolving : List TypeId} {rest : List Frame}

/-! ## Steps of the machine -/

theorem next_enter_none (position : Position) :
    Next a ⟨.enter none position :: rest, resolving, x⟩ ⟨rest, resolving, x⟩ := rfl

theorem next_enter_typed {n : Nat} (h : (x.typeOf? (some n)).isSome) (position : Position) :
    Next a ⟨.enter (some n) position :: rest, resolving, x⟩ ⟨rest, resolving, x⟩ := by
  simp only [Next, step?, enter, h, if_true]

theorem next_enter_untyped {n : Nat} (h : (x.typeOf? (some n)).isSome = false)
    (position : Position) :
    Next a ⟨.enter (some n) position :: rest, resolving, x⟩
      ⟨framesOf a n position ++ rest, resolving, x⟩ := by
  simp only [Next, step?, enter, h, Bool.false_eq_true, if_false]

theorem next_exit_type {n : Nat} {position : Position} {t : TypeId}
    (h : (meaning a n position x).1 = .type t) :
    Next a ⟨.exit n position :: rest, resolving, x⟩
      ⟨rest, resolving, (setType (some n) t (meaning a n position x).2).2⟩ := by
  simp only [Next, step?, exit, h, conclude]

theorem next_exit_nothing {n : Nat} {position : Position}
    (h : (meaning a n position x).1 = .nothing) :
    Next a ⟨.exit n position :: rest, resolving, x⟩
      ⟨rest, resolving, (meaning a n position x).2⟩ := by
  simp only [Next, step?, exit, h, conclude]

section Suspended

variable {n operand : Nat} {t : TypeId} (h : Suspends x a n t operand)
include h

theorem next_exit_resolving (ht : t ∈ resolving) (position : Position) :
    Next a ⟨.exit n position :: rest, resolving, x⟩
      ⟨rest, resolving, (setType (some n) .invalid
        (reportAt a .cyclicTypedef (some n) x).2).2⟩ := by
  simp only [Next, step?, exit, meaning_of_suspends h, conclude, ht, if_true]

theorem next_exit_expand (ht : t ∉ resolving) (position : Position) :
    Next a ⟨.exit n position :: rest, resolving, x⟩
      ⟨.enter (some operand) .plain :: .aliasDone t operand :: .exit n position :: rest,
        t :: resolving, x⟩ := by
  simp only [Next, step?, exit, meaning_of_suspends h, conclude, ht, if_false]

end Suspended

theorem next_aliasDone (t : TypeId) (operand : Nat) :
    Next a ⟨.aliasDone t operand :: rest, resolving, x⟩
      ⟨rest, resolving.erase t, finishAlias t operand x⟩ := rfl

theorem finishAlias_fills (a : Arena) (t : TypeId) (operand : Nat) (x : Analysis) :
    Fills a x (finishAlias t operand x) := (setAliasTarget_evaluates t _ x).fills a

theorem aliasTarget?_finishAlias (t : TypeId) (operand : Nat) (x : Analysis) :
    (finishAlias t operand x).store.types.aliasTarget? t =
      some ((x.typeOf? (some operand)).getD .invalid) := by
  show ((x.store.types.setAliasTarget t _).aliasTarget? t) = _
  rw [lookup_setAliasTarget, if_pos rfl]

/-! ## Simulation -/

/-- What is to be shown of each expression: the machine works it out as the recursion does. -/
def Simulates (a : Arena) (expandable resolving : List TypeId) (r : NodeRef)
    (position : Position) : Prop :=
  ∀ (x : Analysis) (rest : List Frame), x.Closed → Balanced x expandable resolving →
    ReflTransGen (Next a) ⟨.enter r position :: rest, resolving, x⟩
      ⟨rest, resolving, (TypeExpr.enter a expandable r position x).2⟩

theorem closed_enter (hx : x.Closed) (a : Arena) (expandable : List TypeId) (r : NodeRef)
    (position : Position) : (TypeExpr.enter a expandable r position x).2.Closed :=
  (enter_runs hx a expandable r position).1.closed

/-- The operands of a node are worked out one after another. -/
theorem steps_operands (operands : List (NodeRef × Position))
    (h : ∀ c ∈ operands, Simulates a expandable resolving c.1 c.2) (hx : x.Closed)
    (hbalanced : Balanced x expandable resolving) (rest : List Frame) :
    ReflTransGen (Next a)
      ⟨operands.map (fun (c, p) => Frame.enter c p) ++ rest, resolving, x⟩
      ⟨rest, resolving, (operands.forM (fun c => TypeExpr.enter a expandable c.1 c.2) x).2⟩ := by
  induction operands generalizing x with
  | nil => exact .refl
  | cons c operands ih =>
    have hfirst := h c List.mem_cons_self x (operands.map (fun (c, p) => Frame.enter c p) ++ rest)
      hx hbalanced
    refine hfirst.trans (ih (fun d hd => h d (List.mem_cons_of_mem _ hd))
      (closed_enter hx a _ _ _) (hbalanced.fills (enter_fills a _ _ _ x)))

/-- A node is concluded once its operands are done, at the first look or after its alias. -/
theorem steps_exit (h : ∀ t ∈ expandable, ∀ operand,
      Simulates a (expandable.erase t) (t :: resolving) (some operand) .plain)
    (hx : x.Closed) (hbalanced : Balanced x expandable resolving) (n : Nat) (position : Position)
    (rest : List Frame) :
    ReflTransGen (Next a) ⟨.exit n position :: rest, resolving, x⟩
      ⟨rest, resolving, ((do TypeExpr.conclude a expandable n (← meaning a n position)) x).2⟩ := by
  show ReflTransGen (Next a) _
    ⟨rest, resolving,
      (TypeExpr.conclude a expandable n (meaning a n position x).1 (meaning a n position x).2).2⟩
  cases hmeaning : (meaning a n position x).1 with
  | nothing => exact .single (next_exit_nothing hmeaning)
  | type t => exact .single (next_exit_type hmeaning)
  | expansion t operand =>
    have hsuspends := suspends_of_meaning hmeaning
    have hstate : (meaning a n position x).2 = x := by rw [meaning_of_suspends hsuspends]
    rw [hstate]
    by_cases ht : t ∈ resolving
    · have hnot : t ∉ expandable :=
        fun hmem => (hbalanced.iff_not_mem t hsuspends.isAlias).1 hmem ht
      rw [conclude_of_not_mem hnot]
      exact .single (next_exit_resolving hsuspends ht position)
    · have hmem : t ∈ expandable := (hbalanced.iff_not_mem t hsuspends.isAlias).2 ht
      rw [conclude_of_mem hmem]
      let y := (TypeExpr.enter a (expandable.erase t) (some operand) .plain x).2
      have hfills : Fills a x (finishAlias t operand y) :=
        (enter_fills a _ _ _ x).trans (finishAlias_fills a t operand y)
      have hnames : Names (finishAlias t operand y) a n t :=
        (hfills.names_iff hx).2 hsuspends.toNames
      -- the second look at the node finds the target
      have hagain := meaning_of_target hnames (aliasTarget?_finishAlias t operand y) position
      have hlast : Next a ⟨.exit n position :: rest, resolving, finishAlias t operand y⟩ _ :=
        next_exit_type (congrArg Prod.fst hagain)
      rw [hagain] at hlast
      have hexpression := h t hmem operand x (.aliasDone t operand :: .exit n position :: rest) hx
        hbalanced.erase
      have hdone : Next a
          ⟨.aliasDone t operand :: .exit n position :: rest, t :: resolving, y⟩ _ :=
        next_aliasDone t operand
      rw [List.erase_cons_head] at hdone
      exact (ReflTransGen.single (next_exit_expand hsuspends ht position)).trans
        (hexpression.trans ((ReflTransGen.single hdone).tail hlast))

/-- The machine works an expression out as the recursion does, and the rest of the stack is left
for later. -/
theorem steps_enter (a : Arena) (expandable resolving : List TypeId) (r : NodeRef)
    (position : Position) : Simulates a expandable resolving r position := by
  intro x rest hx hbalanced
  match r with
  | none =>
    rw [enter_none]
    exact .single (next_enter_none position)
  | some n =>
    rw [enter_some]
    cases htyped : (x.typeOf? (some n)).isSome with
    | true =>
      simp only [run_bind, run_get, htyped, if_true]
      exact .single (next_enter_typed htyped position)
    | false =>
      simp only [run_bind, run_get, htyped, Bool.false_eq_true, if_false]
      have hoperands : ∀ c ∈ operands a n, Simulates a expandable resolving c.1 c.2 :=
        fun (c, p) hc => steps_enter a expandable resolving c p
      let y := ((operands a n).forM (fun c => TypeExpr.enter a expandable c.1 c.2) x).2
      have hleads : x.Leads y := (Runs.forM (Leads.refl hx) fun c _ z hz =>
        enter_runs hz.closed a expandable c.1 c.2).1
      have hfills : Fills a x y := Moves.forM (fun c _ => enter_fills a expandable c.1 c.2) x
      have hwalk := steps_operands (operands a n) hoperands hx hbalanced
        (.exit n position :: rest)
      have hexit := steps_exit (fun t ht operand =>
          steps_enter a (expandable.erase t) (t :: resolving) (some operand) .plain)
        hleads.closed (hbalanced.fills hfills) n position rest
      refine .head (next_enter_untyped htyped position) ?_
      rw [framesOf, List.append_assoc]
      exact hwalk.trans hexit
termination_by effort a expandable r
decreasing_by
  · exact effort_operand_lt hc expandable
  · exact effort_erase_lt ht a _ _

/-- The machine that works out an expression. -/
def start (x : Analysis) (r : NodeRef) (position : Position) : Machine :=
  { stack := [.enter r position], analysis := x }

/-- The machine comes to an end in the state that the recursion leads to. -/
theorem run_start (hx : x.Closed) (a : Arena) (r : NodeRef) (position : Position) :
    ReflTransGen (Next a) (start x r position)
      ⟨[], [], (TypeExpr.enter a x.store.types.aliases r position x).2⟩ := by
  refine steps_enter a _ [] r position x [] hx ⟨nodup_aliases _, fun t ht => ?_⟩
  simp only [mem_aliases, ht, List.not_mem_nil, not_false_eq_true]

/-- The machine that works out the expression of an alias. -/
def startAlias (x : Analysis) (t : TypeId) (operand : Nat) : Machine :=
  { stack := [.enter (some operand) .plain], resolving := [t], analysis := x }

theorem run_startAlias (hx : x.Closed) (a : Arena) (t : TypeId) (operand : Nat) :
    ReflTransGen (Next a) (startAlias x t operand)
      ⟨[], [t], (TypeExpr.enter a (x.store.types.aliases.erase t) (some operand) .plain x).2⟩ := by
  refine steps_enter a _ [t] (some operand) .plain x [] hx ?_
  have hbalanced : Balanced x x.store.types.aliases [] :=
    ⟨nodup_aliases _, fun u hu => by simp only [mem_aliases, hu, List.not_mem_nil,
      not_false_eq_true]⟩
  exact hbalanced.erase

/-! ## Expansions -/

/-- An alias is being expanded, or has a target. -/
def Started (m : Machine) (t : TypeId) : Prop :=
  t ∈ m.resolving ∨ (m.analysis.store.types.aliasTarget? t).isSome

/-- A run of the machine, with the aliases that it expands. -/
inductive Trace (a : Arena) (m : Machine) : List TypeId → Machine → Prop
  | refl : Trace a m [] m
  | step {ts : List TypeId} {m' m'' : Machine} (h : Trace a m ts m') (hnext : Next a m' m'') :
    Trace a m (ts ++ (m'.expanding? a).toList) m''

theorem conclude_started {n : Nat} {position : Position} {meaning : Meaning} {t : TypeId}
    (ht : t ∈ resolving ∨ (x.store.types.aliasTarget? t).isSome) :
    Started (conclude a rest resolving x n position meaning) t := by
  cases meaning with
  | nothing => exact ht
  | type u => exact ht
  | expansion u operand =>
    by_cases hmem : u ∈ resolving
    · simp only [conclude, if_pos hmem]
      exact ht
    · simp only [conclude, if_neg hmem]
      exact ht.imp_left (List.mem_cons_of_mem u)

/-- What is started stays so. -/
theorem Next.started {m m' : Machine} (h : Next a m m') {t : TypeId} (ht : Started m t) :
    Started m' t := by
  obtain ⟨stack, resolving, x⟩ := m
  rw [Next, step?] at h
  match stack with
  | [] => cases h
  | .enter none position :: rest =>
    cases h
    exact ht
  | .enter (some n) position :: rest =>
    rw [← Option.some.inj h, enter]
    dsimp only
    split <;> exact ht
  | .exit n position :: rest =>
    rw [← Option.some.inj h]
    exact conclude_started (ht.imp_right ((meaning_evaluates a n position x).targets t))
  | .aliasDone u operand :: rest =>
    cases h
    by_cases heq : t = u
    · subst heq
      exact .inr (by rw [aliasTarget?_finishAlias]; rfl)
    · refine ht.imp (fun hmem => (List.mem_erase_of_ne heq).2 hmem) fun htarget => ?_
      exact (finishAlias_fills a u operand x).targets t htarget

/-- The alias that is about to be expanded is that of the node on the stack. -/
theorem suspends_of_expanding {m : Machine} {t : TypeId} (h : m.expanding? a = some t) :
    ∃ n position rest operand, m.stack = .exit n position :: rest ∧
      Suspends m.analysis a n t operand ∧ t ∉ m.resolving := by
  obtain ⟨stack, resolving, x⟩ := m
  match stack with
  | [] => cases h
  | .enter r position :: rest => cases h
  | .aliasDone u operand :: rest => cases h
  | .exit n position :: rest =>
    simp only [expanding?] at h
    split at h
    · next u operand hmeaning =>
      split at h
      · cases h
      · next hnot =>
        cases h
        exact ⟨n, position, rest, operand, rfl, suspends_of_meaning hmeaning, hnot⟩
    · cases h

theorem not_started_of_expanding {m : Machine} {t : TypeId} (h : m.expanding? a = some t) :
    ¬Started m t := by
  obtain ⟨n, position, rest, operand, -, hsuspends, hnot⟩ := suspends_of_expanding h
  rintro (hmem | htarget)
  · exact hnot hmem
  · rw [hsuspends.open_] at htarget
    cases htarget

/-- An alias is started by its expansion. -/
theorem Next.started_of_expanding {m m' : Machine} (h : Next a m m') {t : TypeId}
    (ht : m.expanding? a = some t) : Started m' t := by
  obtain ⟨n, position, rest, operand, hstack, hsuspends, hnot⟩ := suspends_of_expanding ht
  obtain ⟨stack, resolving, x⟩ := m
  subst hstack
  have hnext : Next a ⟨.exit n position :: rest, resolving, x⟩ _ :=
    next_exit_expand hsuspends hnot position
  have heq : m' = _ := Option.some.inj (h.symm.trans hnext)
  rw [heq]
  exact .inl List.mem_cons_self

/-- Along a run no alias is expanded twice. -/
theorem expansions_nodup {m m' : Machine} {ts : List TypeId} (h : Trace a m ts m') : ts.Nodup := by
  suffices hrun : ts.Nodup ∧ ∀ t ∈ ts, Started m' t from hrun.1
  induction h with
  | refl => exact ⟨List.nodup_nil, fun t ht => (List.not_mem_nil ht).elim⟩
  | @step ts m' m'' _ hnext ih =>
    obtain ⟨hnodup, hstarted⟩ := ih
    cases hexpanding : m'.expanding? a with
    | none =>
      rw [Option.toList_none, List.append_nil]
      exact ⟨hnodup, fun t ht => hnext.started (hstarted t ht)⟩
    | some u =>
      have hnew : u ∉ ts := fun hmem => not_started_of_expanding hexpanding (hstarted u hmem)
      rw [Option.toList_some]
      refine ⟨?_, fun t ht => ?_⟩
      · rw [List.nodup_append]
        refine ⟨hnodup, List.nodup_singleton u, ?_⟩
        rintro t ht v hv rfl
        exact hnew (List.mem_singleton.1 hv ▸ ht)
      · rcases List.mem_append.1 ht with ht | ht
        · exact hnext.started (hstarted t ht)
        · exact List.mem_singleton.1 ht ▸ hnext.started_of_expanding hexpanding

/-- What is expanded along a run was not started before and is started after. -/
theorem Trace.started {m m' : Machine} {ts : List TypeId} (h : Trace a m ts m') :
    (∀ t, Started m t → Started m' t) ∧ ∀ t ∈ ts, ¬Started m t ∧ Started m' t := by
  induction h with
  | refl => exact ⟨fun _ => id, fun t ht => (List.not_mem_nil ht).elim⟩
  | @step ts m' m'' _ hnext ih =>
    refine ⟨fun t ht => hnext.started (ih.1 t ht), fun t ht => ?_⟩
    rcases List.mem_append.1 ht with ht | ht
    · exact ⟨(ih.2 t ht).1, hnext.started (ih.2 t ht).2⟩
    · have hexpanding : m'.expanding? a = some t := Option.mem_toList.1 ht
      exact ⟨fun hstarted => not_started_of_expanding hexpanding (ih.1 t hstarted),
        hnext.started_of_expanding hexpanding⟩

theorem exists_trace {m m' : Machine} (h : ReflTransGen (Next a) m m') : ∃ ts, Trace a m ts m' := by
  induction h with
  | refl => exact ⟨[], .refl⟩
  | tail _ hnext ih =>
    obtain ⟨ts, htrace⟩ := ih
    exact ⟨_, htrace.step hnext⟩

/-- The machine stops in a state, and has expanded no alias twice on the way. The aliases that it
has expanded had no target before and have one in that state. -/
def Halts (a : Arena) (m : Machine) (y : Analysis) : Prop :=
  ∃ ts, Trace a m ts ⟨[], m.resolving, y⟩ ∧ ts.Nodup ∧ ∀ t ∈ ts, t ∉ m.resolving ∧
    m.analysis.store.types.aliasTarget? t = none ∧ (y.store.types.aliasTarget? t).isSome

theorem halts_of_steps {m : Machine} {y : Analysis}
    (h : ReflTransGen (Next a) m ⟨[], m.resolving, y⟩) : Halts a m y := by
  obtain ⟨ts, htrace⟩ := exists_trace h
  refine ⟨ts, htrace, expansions_nodup htrace, fun t ht => ?_⟩
  obtain ⟨hbefore, hafter⟩ := htrace.started.2 t ht
  have hresolving : t ∉ m.resolving := fun hmem => hbefore (.inl hmem)
  refine ⟨hresolving, ?_, hafter.resolve_left hresolving⟩
  cases htarget : m.analysis.store.types.aliasTarget? t with
  | none => rfl
  | some target => exact (hbefore (.inr (Option.isSome_of_eq_some htarget))).elim

/-- A type expression is worked out by a machine that stops. -/
theorem halts_start (hx : x.Closed) (a : Arena) (n : Nat) (position : Position) :
    Halts a (start x (some n) position) (transform a (some n) position x).2 :=
  halts_of_steps (run_start hx a (some n) position)

/-- An alias is worked out by a machine that stops, and then gets a target if it has none. -/
theorem halts_startAlias (hx : x.Closed) (a : Arena) {t : TypeId} {operand : Nat}
    (hoperand : aliasOperand x a t = some operand) (hopen : x.store.types.aliasTarget? t = none) :
    ∃ y, Halts a (startAlias x t operand) y ∧ (resolveAlias a t x).2 =
      if (y.store.types.aliasTarget? t).isSome then y
      else (onTypes (fun types => ((), types.setAliasTarget t (y.typeOf (some operand)))) y).2 := by
  refine ⟨_, halts_of_steps (run_startAlias hx a t operand), ?_⟩
  unfold aliasOperand at hoperand
  split at hoperand
  · next hkey =>
    unfold resolveAlias
    rw [run_bind, run_get]
    dsimp only
    simp only [hopen, hkey, hoperand]
    rw [run_bind, run_bind, run_get]
    dsimp only
    generalize (TypeExpr.enter a (x.store.types.aliases.erase t) (some operand) .plain x).2 = y
    cases y.store.types.aliasTarget? t <;> rfl
  · cases hoperand

end Machine

end TypeExpr

end DocTypes
