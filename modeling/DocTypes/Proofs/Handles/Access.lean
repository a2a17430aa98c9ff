import DocTypes.Analysis.Access
import DocTypes.Proofs.Handles.Names
import DocTypes.Proofs.Handles.Typing
import DocTypes.Proofs.Handles.Walk

/-!
# Accesses find what they name

In a closed state no access stops, so the questions that are made of accesses have the answers that
the passes work with. What is asked for has to name something only where the first access
of a question is one without a look: for a scope, and for the class behind a value.

## Main statements

* `Analysis.Closed.fetchDenoted`, `Analysis.Closed.fetchPath`: what a value or a path stands for.
* `ScopeTree.fetchNearest_eq`, `ScopeTree.fetchName_eq`: searches from a scope outward.
-/

namespace DocTypes

/-! ## Single accesses -/

theorem ValueStore.fetch_of_some {s : ValueStore} {v : ValueId} {value : Value}
    (h : s.get? v = some value) : s.fetch v = .ok value := by
  rw [fetch, h]
  rfl

theorem ScopeTree.fetch_of_some {t : ScopeTree} {id : ScopeId} {scope : Scope}
    (h : t.get? id = some scope) : t.fetch id = .ok scope := by
  rw [fetch, h]
  rfl

/-- A member is found if the table of the value is there. -/
theorem ValueStore.fetchMember_eq {s : ValueStore} {v : ValueId}
    (h : ∀ t, s.tableOf? v = some t → (s.table? t).isSome) (key : PropertyKey) :
    s.fetchMember v key = .ok (s.property? v key) := by
  unfold fetchMember property? members
  cases ht : s.tableOf? v with
  | none => rfl
  | some t =>
    obtain ⟨table, htable⟩ := Option.isSome_iff_exists.1 (h t ht)
    rw [Option.bind_some, htable]
    show (s.fetchTable t >>= fun table => pure (table.property? key)) = _
    rw [fetchTable, htable]
    rfl

/-! ## Searches outward -/

namespace ScopeTree

variable {α : Type} {t : ScopeTree}

/-- From a scope that is there, a search outward finds every scope that it asks, and it ends before
its steps are used up. Its answer is `f`, if `f` asks in the same way. -/
theorem fetchOutward_eq (ht : t.Nested) {ask : ScopeId → Scope → Option α} {last f : ScopeId → α}
    (hf : ∀ id scope, t.get? id = some scope →
      f id = (ask id scope).getD ((scope.outer.map f).getD (last id)))
    {id : ScopeId} (hid : (t.get? id).isSome) : t.fetchOutward ask last t.size id = .ok (f id) := by
  suffices h : ∀ steps id, (t.get? id).isSome → id.index < steps →
      t.fetchOutward ask last steps id = .ok (f id) by
    obtain ⟨scope, hscope⟩ := Option.isSome_iff_exists.1 hid
    exact h t.size id hid (lt_size_of_get? hscope)
  clear hid id
  intro steps
  induction steps with
  | zero => exact fun id _ hlt => absurd hlt (Nat.not_lt_zero _)
  | succ steps ih =>
    intro id hid hlt
    obtain ⟨scope, hscope⟩ := Option.isSome_iff_exists.1 hid
    rw [hf id scope hscope]
    unfold fetchOutward
    rw [fetch_of_some hscope]
    cases hanswer : ask id scope with
    | some answer => simp [hanswer, bind, Except.bind, pure, Except.pure]
    | none =>
      cases houter : scope.outer with
      | none => simp [hanswer, houter, bind, Except.bind, pure, Except.pure]
      | some o =>
        have ho : t.outer? id = some o := by
          rw [outer?, hscope]
          exact houter
        have hnested := ht id o ho
        have hsize := lt_size_of_get? hscope
        have hknown : (t.get? o).isSome := by
          rw [get?, Array.getElem?_eq_getElem (Nat.lt_trans hnested hsize)]
          rfl
        have hrest := ih o hknown (by omega)
        simpa [hanswer, houter, bind, Except.bind] using hrest

/-- The nearest scope of a kind is found. -/
theorem fetchNearest_eq (ht : t.Nested) {id : ScopeId} (hid : (t.get? id).isSome)
    (accept : ScopeKind → Bool) : t.fetchNearest id accept = .ok (t.nearest id accept) := by
  refine fetchOutward_eq (f := fun id => t.nearest id accept) ht (fun id scope hscope => ?_) hid
  rw [nearest_eq ht hscope, outer?, hscope, Option.bind_some]
  split <;> rfl

/-- What scopes say about a name is found. -/
theorem fetchName_eq (ht : t.Nested) {id : ScopeId} (hid : (t.get? id).isSome) (space : Namespace)
    (name : Atom) (bindings : Scope → Bindings α) :
    t.fetchName space name bindings id = .ok (t.lookup space name bindings id) := by
  refine fetchOutward_eq (f := fun id => t.lookup space name bindings id) ht
    (fun id scope hscope => ?_) hid
  have houter : t.outer? id = scope.outer := by
    rw [outer?, hscope]
    rfl
  rw [lookup, chain_eq ht, List.findSome?_cons, verdict?, hscope, Option.bind_some, houter]
  cases (bindings scope).lookup name with
  | some binding => rfl
  | none =>
    cases scope.reserves space name with
    | true => rfl
    | false =>
      cases scope.outer with
      | none => rfl
      | some o => rfl

end ScopeTree

/-! ## What values and nodes stand for -/

namespace Analysis

variable {x : Analysis}

namespace Closed

/-- What is written to a slot is found. -/
theorem fetchWritten (hx : x.Closed) (v : ValueId) (found : Option ValueId)
    (writes : List NodeRef) : x.fetchWritten v found writes = .ok (x.scan v found writes) := by
  induction writes generalizing found with
  | nil => rfl
  | cons site rest ih =>
    unfold Analysis.fetchWritten scan
    cases hw : x.valueOf? site with
    | none => exact ih found
    | some w =>
      obtain ⟨value, hvalue⟩ := Option.isSome_iff_exists.1 (hx.values site w hw)
      dsimp only
      rw [ValueStore.fetch_of_some hvalue, isSolid, ValueStore.slot?, hvalue, Option.bind_some]
      obtain ⟨node, table, data⟩ := value
      cases data with
      | functionValue | classValue | constructedClass | objectValue => rfl
      | undefinedValue =>
        refine (ih found).trans ?_
        simp [Value.slot?]
      | variableSlot | propertySlot =>
        rw [if_neg Bool.false_ne_true]
        show (if w ≠ v ∧ found.isNone then _ else _) = _
        by_cases hw : w ≠ v ∧ found.isNone
        · rw [if_pos hw, if_pos ⟨rfl, hw⟩, ih]
        · rw [if_neg hw, if_neg fun h => hw h.2, ih]

/-- What a value stands for is found. -/
theorem fetchDenoted (hx : x.Closed) (steps : Nat) (v : ValueId) :
    x.fetchDenoted steps v = .ok (x.denoteIn steps v) := by
  induction steps generalizing v with
  | zero => rfl
  | succ steps ih =>
    rw [denoteIn_succ_eq_scan]
    unfold Analysis.fetchDenoted
    cases x.store.values.slot? v with
    | none => rfl
    | some slot =>
      dsimp only
      rw [hx.fetchWritten]
      rcases x.scan v none slot.writes with w | (_ | w)
      · rfl
      · rfl
      · exact ih w

/-- The class behind a value that is there is found. -/
theorem fetchClass (hx : x.Closed) {v : ValueId} (hv : x.store.ValueKnown v) :
    x.fetchClass v = .ok (x.classOf? v) := by
  obtain ⟨value, hvalue⟩ := Option.isSome_iff_exists.1 (hx.valueKnown_denote hv)
  unfold Analysis.fetchClass
  rw [hx.fetchDenoted, ← denote]
  show (do return if (← x.store.values.fetch (x.denote v)).isClassLike then _ else _) = _
  rw [ValueStore.fetch_of_some hvalue, classOf?, ValueStore.isClassLike, hvalue, Option.any_some]
  rfl

/-- The members of a value are found. -/
theorem fetchMember (hx : x.Closed) (v : ValueId) (key : PropertyKey) :
    x.store.values.fetchMember v key = .ok (x.store.values.property? v key) :=
  ValueStore.fetchMember_eq (fun _ => hx.store.tableKnown_of_tableOf?) key

/-- What a path stands for is found. -/
theorem fetchPath (hx : x.Closed) (a : Arena) (r : NodeRef) :
    x.fetchPath a r = .ok (x.resolvePath a r) := by
  fun_induction Analysis.fetchPath x a r with
  | case1 =>
    rw [resolvePath]
    rfl
  | case2 n hkind ih =>
    rw [ih, resolvePath, hkind]
    dsimp only
    cases x.resolvePath a (a.child (some n) 0) with
    | none => rfl
    | some object =>
      show (x.fetchDenoted aliasSteps object >>= fun owner =>
        x.store.values.fetchMember owner _) = _
      rw [hx.fetchDenoted]
      exact hx.fetchMember _ _
  | case3 n hkind =>
    rw [resolvePath, hkind]
    rfl
  | case4 n hmember hidentifier =>
    unfold resolvePath
    split
    · next h => exact (hmember h).elim
    · next h => exact (hidentifier h).elim
    · rfl

/-- The slot of a node is found. -/
theorem fetchSlot (hx : x.Closed) (site : NodeRef) :
    x.fetchSlot site = .ok (Typing.slotAt? x site) := by
  unfold Analysis.fetchSlot Typing.slotAt?
  cases hv : x.valueOf? site with
  | none => rfl
  | some v =>
    obtain ⟨value, hvalue⟩ := Option.isSome_iff_exists.1 (hx.values site v hv)
    dsimp only
    rw [ValueStore.fetch_of_some hvalue, Option.filter_some, ValueStore.slot?, hvalue,
      Option.bind_some]
    rfl

end Closed

end Analysis

end DocTypes
