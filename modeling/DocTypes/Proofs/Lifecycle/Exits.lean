import DocTypes.Proofs.Lifecycle.Trails

/-!
# How scopes close

Closing a scope takes each of its parked names in turn, and each has one outcome
(`Scope.outcome`): it is registered with the binding of the scope, it moves to the scope around
it, or, if there is none, it is reported or dropped. Nothing else happens to scopes.

## Main statements

* `Binder.retry_eq`: what is done with a parked name is what its outcome says.
* `Binder.On.exitScope`: closing the current scope.
-/

namespace DocTypes

/-- What becomes of a parked name when its scope closes. -/
inductive Outcome where
  /-- It is bound to what the scope binds it to. -/
  | registered
  | moved (outer : ScopeId)
  | reported
  | dropped
  deriving DecidableEq

namespace Outcome

/-- Whether the name is done with. -/
def isFinal : Outcome → Bool
  | .moved _ => false
  | _ => true

end Outcome

/-- What becomes of a name that is parked in a scope when the scope closes. -/
def Scope.outcome (reportUndefined : Bool) (scope : Scope) (p : Parked) : Outcome :=
  if (scope.target? p.space p.name).isSome then .registered
  else match scope.outer with
    | some outer => .moved outer
    | none => if reportUndefined then .reported else .dropped

namespace Binder

/-- Bind a parked name to what a scope binds it to. -/
def register (scope : Scope) (p : Parked) : Bind Unit :=
  match scope.target? p.space p.name with
  | some (.inl v) => bindReference p.node v p.assigned
  | some (.inr t) => Analysis.setType p.node t
  | none => pure ()

/-- Do with a parked name what its outcome says. -/
def carryOut (a : Arena) (scope : Scope) (p : Parked) : Outcome → Bind Unit
  | .registered => register scope p
  | .moved outer => park outer p
  | .reported => Analysis.reportAt a (unboundProblem p.space) p.node
  | .dropped => pure ()

/-- What is done with a parked name is what its outcome says. -/
theorem retry_eq (a : Arena) (reportUndefined : Bool) (scope : Scope) (p : Parked) :
    retry a reportUndefined scope p = carryOut a scope p (scope.outcome reportUndefined p) := by
  have hunbound (h : scope.target? p.space p.name = none) :
      (match scope.outer with
        | some outer => park outer p
        | none =>
          if reportUndefined then Analysis.reportAt a (unboundProblem p.space) p.node
          else pure () : Bind Unit) =
        carryOut a scope p (scope.outcome reportUndefined p) := by
    rw [Scope.outcome, h]
    cases scope.outer with
    | some outer => rfl
    | none => cases reportUndefined <;> rfl
  unfold retry
  split
  · next binding hspace hbound =>
    have htarget : scope.target? p.space p.name = some (.inl binding.target) := by
      rw [hspace, Scope.target?, hbound, Option.map_some]
    rw [Scope.outcome, htarget]
    simp only [Option.isSome_some, if_true, carryOut, register, htarget]
  · next binding hspace hbound =>
    have htarget : scope.target? p.space p.name = some (.inr binding.target) := by
      rw [hspace, Scope.target?, hbound, Option.map_some]
    rw [Scope.outcome, htarget]
    simp only [Option.isSome_some, if_true, carryOut, register, htarget]
  · next hvalue htype =>
    refine hunbound ?_
    cases hspace : p.space with
    | value =>
      cases hbound : scope.boundVariable? p.name with
      | some binding => exact (hvalue binding hspace hbound).elim
      | none => rw [Scope.target?, hbound, Option.map_none]
    | type =>
      cases hbound : scope.boundType? p.name with
      | some binding => exact (htype binding hspace hbound).elim
      | none => rw [Scope.target?, hbound, Option.map_none]

/-- The outcomes of the names that are parked in the current scope. -/
def outcomes (reportUndefined : Bool) (b : Binder) : List (Parked × Outcome) :=
  match b.analysis.scopes.get? b.current with
  | none => []
  | some scope => scope.parked.toList.map fun p => (p, scope.outcome reportUndefined p)

/-- The walk after the current scope is closed: its parked names are taken out, each is dealt with
as its outcome says, and the walk goes on in the scope around it. -/
def closeWith (a : Arena) (scope : Scope) (outcomes : List (Parked × Outcome))
    (b : Binder) : Binder :=
  let tried := (outcomes.forM (fun x => carryOut a scope x.1 x.2) b.suspended).2
  { tried.shut with current := scope.outer.getD b.current }

variable {c : ScopeId} {cs : List ScopeId} {b b' : Binder}

/-! ## The names that are tried again -/

/-- The scope that leftover names move to takes entries. -/
structure Tries (c : ScopeId) (outer : Option ScopeId) (b : Binder) : Prop where
  current : b.current = c
  nested : b.analysis.scopes.Nested
  takes : ∀ o, outer = some o → b.Takes o

/-- The scopes after some names are moved to one of them. -/
structure Moved (outer : Option ScopeId) (names : List Parked) (b b' : Binder) : Prop where
  trail : ∃ es, b.Trail es b'
  waiting : b'.waiting.Perm (b.waiting ++ names)
  get? : ∀ s, b'.analysis.scopes.get? s = (b.analysis.scopes.get? s).map fun scope =>
    if outer = some s then { scope with parked := scope.parked ++ names.toArray } else scope

theorem Moved.trans {outer : Option ScopeId} {names names' : List Parked} {b'' : Binder}
    (h : Moved outer names b b') (h' : Moved outer names' b' b'') :
    Moved outer (names ++ names') b b'' := by
  obtain ⟨es, htrail⟩ := h.trail
  obtain ⟨es', htrail'⟩ := h'.trail
  refine ⟨⟨_, htrail.trans htrail'⟩, ?_, fun s => ?_⟩
  · rw [← List.append_assoc]
    exact h'.waiting.trans (h.waiting.append_right _)
  · rw [h'.get?, h.get?, Option.map_map]
    congr 1
    funext scope
    by_cases hs : outer = some s <;> simp [hs, Function.comp]

theorem Moved.apart {outer : Option ScopeId} (hscopes : b'.analysis.scopes = b.analysis.scopes)
    (hcurrent : b'.current = b.current) : Moved outer [] b b' := by
  refine ⟨⟨[], .apart .refl hscopes hcurrent⟩, by simp [Binder.waiting, hscopes], fun s => ?_⟩
  rw [hscopes]
  cases b.analysis.scopes.get? s with
  | none => rfl
  | some scope => by_cases hs : outer = some s <;> simp [hs]

theorem Tries.apart {outer : Option ScopeId} (hb : Tries c outer b)
    (hscopes : b'.analysis.scopes = b.analysis.scopes) (hcurrent : b'.current = b.current) :
    Tries c outer b' := by
  refine ⟨hcurrent.trans hb.current, hscopes ▸ hb.nested, fun o ho => ?_⟩
  obtain ⟨hmem, scope, hscope, hstate⟩ := hb.takes o ho
  exact ⟨by rwa [hscopes, hcurrent], scope, by rwa [hscopes], hstate⟩

theorem Tries.park {o : ScopeId} (hb : Tries c (some o) b) (p : Parked) :
    Tries c (some o) (Binder.park o p b).2 ∧ Moved (some o) [p] b (Binder.park o p b).2 := by
  have hget (s : ScopeId) : (Binder.park o p b).2.analysis.scopes.get? s =
      if o = s then (b.analysis.scopes.get? s).map (Scope.park p)
      else b.analysis.scopes.get? s := ScopeTree.get?_update _ _ _ _
  obtain ⟨hmem, scope, hscope, hstate⟩ := hb.takes o rfl
  have hchain := chain_update hb.nested (f := Scope.park p) (fun _ => rfl) o b.current
  refine ⟨⟨hb.current, nested_update hb.nested (f := Scope.park p) (fun _ => rfl) o,
    fun o' ho' => ?_⟩,
    ⟨[.parked p], .add .refl o (.parked p) ⟨hmem, scope, hscope, hstate⟩⟩, ?_, fun s => ?_⟩
  · cases ho'
    refine ⟨?_, scope.park p, ?_, hstate⟩
    · show o ∈ (b.analysis.scopes.update o (Scope.park p)).chain b.current
      rwa [hchain]
    · rw [hget, if_pos rfl, hscope, Option.map_some]
  · obtain ⟨before, after, hold, hnew⟩ := ScopeTree.parkedNames_update hscope (Scope.park p)
    show ((b.analysis.scopes.update o (Scope.park p)).parkedNames).Perm
      (b.analysis.scopes.parkedNames ++ [p])
    rw [hold, hnew]
    simp only [Scope.park, Array.toList_push, List.append_assoc]
    exact .append_left _ (.append_left _ List.perm_append_comm)
  · rw [hget]
    by_cases hs : o = s
    · subst hs
      rw [if_pos rfl, hscope]
      simp [Scope.park, Scope.receive, hstate]
    · rw [if_neg hs]
      simp [hs]

/-- The names that move on. -/
def leftover (reportUndefined : Bool) (scope : Scope) (names : List Parked) : List Parked :=
  names.filter fun p => !(scope.outcome reportUndefined p).isFinal

theorem register_apart (scope : Scope) (p : Parked) (b : Binder) :
    (register scope p b).2.analysis.scopes = b.analysis.scopes ∧
      (register scope p b).2.current = b.current := by
  unfold register
  rcases scope.target? p.space p.name with _ | (v | t)
  · exact ⟨rfl, rfl⟩
  · dsimp only [bindReference]
    cases p.assigned <;> exact ⟨rfl, rfl⟩
  · exact ⟨rfl, rfl⟩

theorem Tries.retry {scope : Scope} (hb : Tries c scope.outer b) (a : Arena)
    (reportUndefined : Bool) (p : Parked) :
    Tries c scope.outer (Binder.retry a reportUndefined scope p b).2 ∧
      Moved scope.outer (leftover reportUndefined scope [p]) b
        (Binder.retry a reportUndefined scope p b).2 := by
  have hapart {m : Bind Unit} (hscopes : (m b).2.analysis.scopes = b.analysis.scopes)
      (hcurrent : (m b).2.current = b.current) :
      Tries c scope.outer (m b).2 ∧ Moved scope.outer [] b (m b).2 :=
    ⟨hb.apart hscopes hcurrent, .apart hscopes hcurrent⟩
  rw [retry_eq]
  simp only [leftover, List.filter_cons, List.filter_nil]
  cases houtcome : scope.outcome reportUndefined p with
  | registered => exact hapart (register_apart scope p b).1 (register_apart scope p b).2
  | reported => exact hapart (m := carryOut a scope p .reported) rfl rfl
  | dropped => exact hapart (m := carryOut a scope p .dropped) rfl rfl
  | moved o =>
    have houter : scope.outer = some o := by
      unfold Scope.outcome at houtcome
      split at houtcome
      · cases houtcome
      · split at houtcome
        · next outer heq =>
          cases houtcome
          exact heq
        · split at houtcome <;> cases houtcome
    rw [houter] at hb ⊢
    exact hb.park p

theorem Tries.forM_retry {scope : Scope} (hb : Tries c scope.outer b) (a : Arena)
    (reportUndefined : Bool) (names : List Parked) :
    Tries c scope.outer (names.forM (Binder.retry a reportUndefined scope) b).2 ∧
      Moved scope.outer (leftover reportUndefined scope names) b
        (names.forM (Binder.retry a reportUndefined scope) b).2 := by
  induction names generalizing b with
  | nil => exact ⟨hb, .apart rfl rfl⟩
  | cons p rest ih =>
    obtain ⟨hfirst, hmoved⟩ := hb.retry a reportUndefined p
    obtain ⟨hrest, hmoved'⟩ := ih hfirst
    refine ⟨hrest, ?_⟩
    have hsplit : leftover reportUndefined scope (p :: rest) =
        leftover reportUndefined scope [p] ++ leftover reportUndefined scope rest := by
      rw [leftover, leftover, leftover, ← List.filter_append, List.singleton_append]
    rw [hsplit]
    exact hmoved.trans hmoved'

/-! ## The current scope -/

/-- No scope is open any more, and nothing is parked. -/
structure Finished (b : Binder) : Prop where
  nested : b.analysis.scopes.Nested
  closed : ∀ s scope, b.analysis.scopes.get? s = some scope →
    scope.state = .closed ∧ scope.parked = #[]

theorem Finished.waiting (hb : b.Finished) : b.waiting = [] := by
  refine List.flatMap_eq_nil_iff.2 fun scope hscope => ?_
  obtain ⟨i, hi⟩ := List.mem_iff_getElem?.1 hscope
  have hget : b.analysis.scopes.get? ⟨i⟩ = some scope := by simpa [ScopeTree.get?] using hi
  rw [(hb.closed ⟨i⟩ scope hget).2]

/-- The names that are done with when the current scope closes. -/
def settles (reportUndefined : Bool) (b : Binder) : List (Parked × Outcome) :=
  (b.outcomes reportUndefined).filter (·.2.isFinal)

section Closing

variable {scope : Scope}

theorem On.outer_ne (hb : b.On c cs) (hscope : b.analysis.scopes.get? c = some scope) {o : ScopeId}
    (ho : scope.outer = some o) : o ≠ c := by
  have houter : b.analysis.scopes.outer? c = some o := by
    rw [ScopeTree.outer?, hscope, Option.bind_some, ho]
  rintro rfl
  exact Nat.lt_irrefl _ (hb.nested o o houter)

theorem On.chain_outer (hb : b.On c cs) (hscope : b.analysis.scopes.get? c = some scope) :
    cs = c :: (scope.outer.map b.analysis.scopes.chain).getD [] := by
  rw [← hb.chain, ScopeTree.chain_eq hb.nested, ScopeTree.outer?, hscope, Option.bind_some]

theorem On.get?_suspended (hb : b.On c cs) (s : ScopeId) : b.suspended.analysis.scopes.get? s =
    if c = s then (b.analysis.scopes.get? s).map fun s =>
      { s with state := .resolving, parked := #[] }
    else b.analysis.scopes.get? s := by
  rw [← hb.current]
  exact ScopeTree.get?_update _ _ _ _

/-- The scope around the current one still takes entries. -/
theorem On.suspended_tries (hb : b.On c cs) (hscope : b.analysis.scopes.get? c = some scope) :
    Tries c scope.outer b.suspended := by
  have hsame : ∀ s : Scope, ({ s with state := .resolving, parked := #[] } :
    Scope).outer = s.outer :=
    fun _ => rfl
  refine ⟨hb.current, nested_update hb.nested hsame _, fun o ho => ?_⟩
  have hmem : o ∈ cs := by
    rw [hb.chain_outer hscope, ho]
    exact List.mem_cons_of_mem _ (ScopeTree.mem_chain_self hb.nested o)
  obtain ⟨hmem', around, haround, hstate⟩ := hb.takes hmem
  refine ⟨?_, around, ?_, hstate⟩
  · show o ∈ (b.analysis.scopes.update b.current _).chain b.current
    rwa [chain_update hb.nested hsame]
  · rw [hb.get?_suspended, if_neg (hb.outer_ne hscope ho).symm, haround]

/-- Closing a scope: its names are taken out and tried again, then it is closed. -/
theorem On.exists_tried (hb : b.On c cs) (hscope : b.analysis.scopes.get? c = some scope)
    (a : Arena) (reportUndefined : Bool) : ∃ tried, Tries c scope.outer tried ∧
      Moved scope.outer (leftover reportUndefined scope scope.parked.toList) b.suspended tried ∧
      tried.analysis.scopes.get? c = some { scope with state := .resolving, parked := #[] } ∧
      (exitScope a reportUndefined b).2 = { tried.shut with current := scope.outer.getD c } ∧
      tried = (scope.parked.toList.forM (retry a reportUndefined scope) b.suspended).2 := by
  obtain ⟨htried, hmoved⟩ :=
    (hb.suspended_tries hscope).forM_retry a reportUndefined scope.parked.toList
  refine ⟨_, htried, hmoved, ?_, ?_, rfl⟩
  · have houter : scope.outer ≠ some c := fun ho => hb.outer_ne hscope ho rfl
    rw [hmoved.get?, hb.get?_suspended, hscope]
    simp [houter]
  · rw [run_exitScope a reportUndefined (hb.current ▸ hscope), shut]
    generalize (scope.parked.toList.forM (retry a reportUndefined scope) b.suspended).2 = tried
      at htried
    dsimp only
    rw [htried.current, hb.current]

/-- Closing a scope does with each name what its outcome says. -/
theorem On.exitScope_eq (hb : b.On c cs) (hscope : b.analysis.scopes.get? c = some scope)
    (a : Arena) (reportUndefined : Bool) :
    (exitScope a reportUndefined b).2 = b.closeWith a scope (b.outcomes reportUndefined) := by
  obtain ⟨tried, -, -, -, hrun, htried⟩ := hb.exists_tried hscope a reportUndefined
  have hretry : retry a reportUndefined scope =
      fun p => carryOut a scope p (scope.outcome reportUndefined p) :=
    funext (retry_eq a reportUndefined scope)
  have houtcomes : tried = ((b.outcomes reportUndefined).forM (fun x => carryOut a scope x.1 x.2)
      b.suspended).2 := by
    rw [htried, outcomes, hb.current, hscope, hretry]
    simp only [List.forM_eq_forM, List.forM_map]
  rw [hrun, closeWith, ← houtcomes, hb.current]

/-- What has become of each scope when the current one is closed. -/
theorem On.get?_exitScope (hb : b.On c cs) (hscope : b.analysis.scopes.get? c = some scope)
    (a : Arena) (reportUndefined : Bool) (s : ScopeId) :
    (exitScope a reportUndefined b).2.analysis.scopes.get? s =
      if c = s then some { scope with state := .closed, parked := #[] }
      else (b.analysis.scopes.get? s).map fun old =>
        if scope.outer = some s then
          { old with parked := old.parked ++
              (leftover reportUndefined scope scope.parked.toList).toArray }
        else old := by
  obtain ⟨tried, htried, hmoved, hget, hrun, -⟩ := hb.exists_tried hscope a reportUndefined
  rw [hrun]
  refine (ScopeTree.get?_update _ tried.current s _).trans ?_
  rw [htried.current]
  by_cases hs : c = s
  · rw [if_pos hs, if_pos hs, ← hs, hget, Option.map_some]
  · rw [if_neg hs, if_neg hs, hmoved.get?, hb.get?_suspended, if_neg hs]

/-- The writes that close a scope. -/
theorem On.exitScope_trail (hb : b.On c cs) (hscope : b.analysis.scopes.get? c = some scope)
    (a : Arena) (reportUndefined : Bool) :
    ∃ es, b.Trail es (exitScope a reportUndefined b).2 := by
  obtain ⟨tried, htried, hmoved, hget, hrun, -⟩ := hb.exists_tried hscope a reportUndefined
  obtain ⟨es, htrail⟩ := hmoved.trail
  have htakes : b.Takes b.current := hb.takes (hb.current ▸ hb.mem_current)
  have hclosed : b.Trail ([] ++ es) tried.shut := .shut ((Trail.refl.suspend htakes).trans htrail)
  refine ⟨[] ++ es, ?_⟩
  rw [hrun]
  cases ho : scope.outer with
  | none => exact hclosed.apart rfl htried.current.symm
  | some o =>
    refine hclosed.leave (o := o) ?_
    have hsame : ∀ s : Scope, ({ s with state := .closed } : Scope).outer = s.outer := fun _ => rfl
    show ((tried.analysis.scopes.update tried.current _).outer? tried.current) = some o
    rw [outer?_update hsame, htried.current, ScopeTree.outer?, hget]
    exact ho

/-- The names that were parked are done with, or still parked. -/
theorem On.exitScope_waiting (hb : b.On c cs) (hscope : b.analysis.scopes.get? c = some scope)
    (a : Arena) (reportUndefined : Bool) :
    b.waiting.Perm ((exitScope a reportUndefined b).2.waiting ++
      (b.settles reportUndefined).map (·.1)) := by
  obtain ⟨tried, htried, hmoved, hget, hrun, -⟩ := hb.exists_tried hscope a reportUndefined
  have hsettles : (b.settles reportUndefined).map (·.1) =
      scope.parked.toList.filter fun p => (scope.outcome reportUndefined p).isFinal := by
    rw [settles, outcomes, hb.current, hscope, List.filter_map, List.map_map]
    exact List.map_id _
  have hemptied : b.waiting.Perm (b.suspended.waiting ++ scope.parked.toList) := by
    obtain ⟨before, after, hold, hnew⟩ := ScopeTree.parkedNames_update hscope
      fun s => { s with state := .resolving, parked := #[] }
    rw [← hb.current] at hnew
    show b.analysis.scopes.parkedNames.Perm
      ((b.analysis.scopes.update b.current _).parkedNames ++ scope.parked.toList)
    rw [hold, hnew]
    simp only [List.nil_append, List.append_assoc]
    exact .append_left _ List.perm_append_comm
  have hshut : (exitScope a reportUndefined b).2.waiting = tried.waiting := by
    obtain ⟨before, after, hold, hnew⟩ := ScopeTree.parkedNames_update hget
      fun s => { s with state := .closed }
    rw [← htried.current] at hnew
    rw [hrun]
    show (tried.analysis.scopes.update tried.current _).parkedNames =
      tried.analysis.scopes.parkedNames
    rw [hold, hnew]
  have hparts : scope.parked.toList.Perm (leftover reportUndefined scope scope.parked.toList ++
      scope.parked.toList.filter fun p => (scope.outcome reportUndefined p).isFinal) :=
    (List.perm_append_comm.trans (List.filter_append_perm _ _)).symm
  rw [hshut, hsettles]
  refine hemptied.trans ((hparts.append_left _).trans ?_)
  rw [← List.append_assoc]
  exact hmoved.waiting.symm.append_right _

theorem On.outer?_exitScope (hb : b.On c cs) (hscope : b.analysis.scopes.get? c = some scope)
    (a : Arena) (reportUndefined : Bool) (s : ScopeId) :
    (exitScope a reportUndefined b).2.analysis.scopes.outer? s = b.analysis.scopes.outer? s := by
  rw [ScopeTree.outer?, ScopeTree.outer?, hb.get?_exitScope hscope]
  by_cases hs : c = s
  · rw [if_pos hs, ← hs, hscope]
    rfl
  · rw [if_neg hs]
    cases b.analysis.scopes.get? s with
    | none => rfl
    | some old => by_cases hso : scope.outer = some s <;> simp [hso]

end Closing

/-- **Closing a scope.** The scope around it is the current one afterwards, or the walk is
finished. The names that were parked in it are done with, or are parked in the scope around it. -/
theorem On.exitScope (hb : b.On c cs) (a : Arena) (reportUndefined : Bool) :
    (∃ o rest, cs = c :: rest ∧ (Binder.exitScope a reportUndefined b).2.On o rest) ∨
      (cs = [c] ∧ (Binder.exitScope a reportUndefined b).2.Finished) := by
  obtain ⟨scope, hscope⟩ := Option.isSome_iff_exists.1 (hb.known c hb.mem_current)
  have hget := hb.get?_exitScope hscope a reportUndefined
  have hchain := hb.chain_outer hscope
  have houter := hb.outer?_exitScope hscope a reportUndefined
  have hnested : (Binder.exitScope a reportUndefined b).2.analysis.scopes.Nested :=
    fun s o' ho' => hb.nested s o' (by rwa [← houter])
  obtain ⟨tried, -, -, -, hrun, -⟩ := hb.exists_tried hscope a reportUndefined
  cases ho : scope.outer with
  | none =>
    rw [ho] at hchain
    refine .inr ⟨hchain, hnested, fun s old hold => ?_⟩
    rw [hget, ho] at hold
    by_cases hs : c = s
    · rw [if_pos hs] at hold
      cases hold
      exact ⟨rfl, rfl⟩
    · rw [if_neg hs] at hold
      obtain ⟨old', hold', rfl⟩ := Option.map_eq_some_iff.1 hold
      refine hb.closed s old' hold' ?_
      rw [hchain]
      simpa using Ne.symm hs
  | some o =>
    rw [ho] at hchain hget
    have hlt (s : ScopeId) (hs : s ∈ b.analysis.scopes.chain o) : c ≠ s := by
      rintro rfl
      have hle := ScopeTree.index_le_of_mem_chain hb.nested hs
      have houter' : b.analysis.scopes.outer? c = some o := by
        rw [ScopeTree.outer?, hscope, Option.bind_some, ho]
      exact Nat.lt_irrefl _ (Nat.lt_of_le_of_lt hle (hb.nested c o houter'))
    have hrest (s : ScopeId) (hs : s ∈ b.analysis.scopes.chain o) : s ∈ cs := by
      rw [hchain]
      exact List.mem_cons_of_mem _ hs
    refine .inl ⟨o, b.analysis.scopes.chain o, hchain, by rw [hrun, ho]; rfl,
      ScopeTree.chain_congr hb.nested hnested fun s _ => houter s, hnested, fun s hs => ?_,
      fun s old hold hs => ?_, fun s old hold hs => ?_⟩
    · rw [hget, if_neg (hlt s hs)]
      exact (Option.isSome_map ..).trans (hb.known s (hrest s hs))
    · rw [hget, if_neg (hlt s hs)] at hold
      obtain ⟨old', hold', rfl⟩ := Option.map_eq_some_iff.1 hold
      have hopened := hb.opened s old' hold' (hrest s hs)
      split
      · exact hopened
      · exact hopened
    · rw [hget] at hold
      by_cases hcs : c = s
      · rw [if_pos hcs] at hold
        cases hold
        exact ⟨rfl, rfl⟩
      · rw [if_neg hcs] at hold
        obtain ⟨old', hold', rfl⟩ := Option.map_eq_some_iff.1 hold
        have hos : some o ≠ some s := by
          rintro heq
          cases heq
          exact hs (ScopeTree.mem_chain_self hb.nested o)
        rw [if_neg hos]
        refine hb.closed s old' hold' ?_
        rw [hchain]
        exact fun hmem => (List.mem_cons.1 hmem).elim (fun h => hcs h.symm) hs

end Binder

end DocTypes
