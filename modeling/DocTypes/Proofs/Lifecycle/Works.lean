import DocTypes.Binding.Visit
import DocTypes.Proofs.Handles.Names

/-!
# The work that a visit asks for

A visit of a node asks for visits of nodes below that node. What it asks for does not depend on
the state that it is made from, apart from the scope that it may want closed in the end.

## Main statements

* `Binder.visitPath_asks`, `Binder.enterBody_asks`: the work that is left of a dotted path and
  that a function's body gives.
-/

namespace DocTypes

theorem Work.ne_exitScope_of_mem_children {a : Arena} {r : NodeRef} {work : Work}
    (h : work ∈ Work.children a r) : work ≠ .exitScope := by
  obtain ⟨c, -, rfl⟩ := List.mem_map.1 h
  nofun

/-- Work below a node, none of which closes a scope. -/
def Below (n : Nat) (works : List Work) : Prop :=
  ∀ w ∈ works, w ≠ .exitScope ∧ w.rank < n + 1

section Below

variable {a : Arena} {n : Nat} {works works' : List Work}

theorem below_nil : Below n [] := fun _ h => (List.not_mem_nil h).elim

theorem below_append (h : Below n works) (h' : Below n works') : Below n (works ++ works') :=
  fun w hw => (List.mem_append.1 hw).elim (h w) (h' w)

theorem below_flatten {lists : List (List Work)} (h : ∀ works ∈ lists, Below n works) :
    Below n lists.flatten := by
  intro w hw
  obtain ⟨works, hworks, hmem⟩ := List.mem_flatten.1 hw
  exact h works hworks w hmem

theorem below_flatMap {α : Type} {xs : List α} {f : α → List Work} (h : ∀ x ∈ xs, Below n (f x)) :
    Below n (xs.flatMap f) := by
  intro w hw
  obtain ⟨x, hx, hmem⟩ := List.mem_flatMap.1 hw
  exact h x hx w hmem

theorem below_reverse (h : Below n works) : Below n works.reverse :=
  fun w hw => h w (List.mem_reverse.1 hw)

theorem below_visit {m : Nat} (h : m < n) : Below n [.visit m] := by
  intro w hw
  rw [List.mem_singleton.1 hw]
  exact ⟨nofun, Nat.succ_lt_succ h⟩

theorem below_visit? {r : NodeRef} (h : r.rank < n + 1) : Below n (Work.visit? r) := by
  cases r with
  | none => exact below_nil
  | some m => exact below_visit (Nat.lt_of_succ_lt_succ h)

theorem below_visit?_child (i : Nat) : Below n (Work.visit? (a.child (some n) i)) :=
  below_visit? (a.rank_child_lt n i)

theorem below_children {r : NodeRef} (h : r.rank ≤ n + 1) : Below n (Work.children a r) := by
  intro w hw
  obtain ⟨c, hc, rfl⟩ := List.mem_map.1 hw
  refine ⟨nofun, Nat.lt_of_lt_of_le ?_ h⟩
  cases r with
  | none => simp [Arena.presentChildren, Arena.children, Arena.node?] at hc
  | some m =>
    have hmem : some c ∈ a.children (some m) := by simpa [Arena.presentChildren] using hc
    exact Nat.succ_lt_succ (Arena.lt_of_mem_children hmem)

theorem below_children_self : Below n (Work.children a (some n)) := below_children (Nat.le_refl _)

theorem below_children_child (i : Nat) : Below n (Work.children a (a.child (some n) i)) :=
  below_children (Nat.le_of_lt (a.rank_child_lt n i))

end Below

namespace Binder

variable {a : Arena}

/-- Of a dotted path, at most the expression at its root is left to be visited. -/
theorem visitPath_rest (r : NodeRef) (create : Bool) :
    Yields (fun found => found.2 = [] ∨ ∃ m, found.2 = [.visit m] ∧ m + 1 ≤ r.rank ∧
      a.kind? (some m) ≠ some .memberExpression) (visitPath a r create) := by
  fun_induction visitPath a r create with
  | case1 | case2 | case5 => exact .pure (.inl rfl)
  | case3 => exact .after fun _ => .pure (.inl rfl)
  | case4 create n _ ih =>
    refine .bind ih fun found hfound => ?_
    have hrest : found.2 = [] ∨ ∃ m, found.2 = [.visit m] ∧ m + 1 ≤ NodeRef.rank (some n) ∧
        a.kind? (some m) ≠ some .memberExpression := by
      refine hfound.imp_right ?_
      rintro ⟨m, hm, hle, hkind⟩
      refine ⟨m, hm, ?_, hkind⟩
      exact Nat.le_trans hle (Nat.le_of_lt (a.rank_child_lt n 0))
    obtain ⟨object?, works⟩ := found
    cases object? with
    | none => exact .pure hrest
    | some object => exact .after fun _ => .pure hrest
  | case6 create n kind hkind hidentifier hmember hthis =>
    exact .pure (.inr ⟨n, rfl, Nat.le_refl _, fun h => by simp_all⟩)

theorem visitPath_asks {n : Nat} {r : NodeRef} (hr : r.rank < n + 1) (create : Bool) :
    Yields (fun found => Below n found.2) (visitPath a r create) := by
  intro s
  rcases visitPath_rest (a := a) r create s with hnil | ⟨m, hm, hle, -⟩
  · exact hnil ▸ below_nil
  · exact hm ▸ below_visit (by omega)

/-- A dotted path is not visited again. -/
theorem visitPath_asks_self {n : Nat} (hn : a.kind? (some n) = some .memberExpression)
    (create : Bool) : Yields (fun found => Below n found.2) (visitPath a (some n) create) := by
  intro s
  rcases visitPath_rest (a := a) (some n) create s with hnil | ⟨m, hm, hle, hkind⟩
  · exact hnil ▸ below_nil
  · have hle' : m ≤ n := Nat.le_of_succ_le_succ hle
    have hne : m ≠ n := fun heq => hkind (heq ▸ hn)
    exact hm ▸ below_visit (by omega)

theorem declareParameter_asks {n : Nat} (id : ScopeId) {param : NodeRef} (h : param.rank < n + 1) :
    Yields (Below n) (declareParameter a id param) := by
  have hchild (i : Nat) : (a.child param i).rank < n + 1 :=
    Nat.lt_of_le_of_lt (a.rank_child_le param i) h
  unfold declareParameter
  split
  · exact .after fun _ => .pure below_nil
  · refine .after fun _ => ?_
    split
    · exact .pure below_nil
    · exact .after fun _ => .pure (below_visit? (hchild 1))
  · exact .after fun _ => .pure below_nil
  · exact .pure below_nil

/-- The work that a function gives whose parts are below a node. -/
theorem enterBody_asks {n : Nat} {params body : NodeRef} (hparams : params.rank < n + 1)
    (hbody : body.rank < n + 1) : Yields (Below n) (enterBody a params body) := by
  have hparam (param : NodeRef) (hmem : param ∈ a.children params) : param.rank < n + 1 := by
    cases params with
    | none => simp [Arena.children, Arena.node?] at hmem
    | some m => exact Nat.lt_trans (Arena.rank_lt_of_mem_children hmem) hparams
  refine .after fun b => .bind (.mapM fun param hmem => declareParameter_asks _ (hparam param hmem))
    fun defaults hdefaults => ?_
  have hflat := below_flatten hdefaults
  refine .ite (fun _ => .after fun _ => .pure ?_) fun _ => .pure ?_
  · exact below_append hflat (below_children (Nat.le_of_lt hbody))
  · exact below_append hflat (below_visit? hbody)

theorem annotatedVariable_asks {n : Nat} (id : ScopeId) (doc : Option DocComment)
    {declaration : NodeRef} (hinit : Below n (Work.visit? (a.child declaration 1)))
    (variableId : ValueId) :
    Yields (fun works => Below n works.1 ∧ Below n works.2) (do
      match doc with
      | some x => declareAnnotated a x id declaration variableId
      | none => pure ()
      if (a.child declaration 1).isSome then
        Analysis.modifyValues (·.addWrite variableId (a.child declaration 1))
      return (Work.visit? (a.child declaration 1), []) : Bind (List Work × List Work)) := by
  have hpair := And.intro hinit (below_nil (n := n))
  cases doc with
  | some x => exact .after fun _ => .ite (fun _ => .after fun _ => .pure hpair) fun _ => .pure hpair
  | none => exact .ite (fun _ => .after fun _ => .pure hpair) fun _ => .pure hpair

theorem visitDeclaration_asks {n : Nat} (id : ScopeId) (doc : Option DocComment)
    {declaration : NodeRef} (h : declaration ∈ a.children (some n)) :
    Yields (fun works => Below n works.1 ∧ Below n works.2)
      (visitDeclaration a id doc declaration) := by
  have hchild (i : Nat) : Below n (Work.visit? (a.child declaration i)) :=
    below_visit? (Nat.lt_of_le_of_lt (a.rank_child_le _ i) (Arena.rank_lt_of_mem_children h))
  have hlast := annotatedVariable_asks id doc (hchild 1)
  refine .ite (fun _ => .pure ⟨below_nil, hchild 0⟩) fun _ => .after fun b => ?_
  dsimp only
  split
  · exact hlast _
  · exact .after fun _ => hlast _

theorem visitDeclarations_asks (n : Nat) : Yields (Below n) (visitDeclarations a n) := by
  refine .after fun id => .after fun b => ?_
  refine .bind (.mapM fun declaration h => visitDeclaration_asks id _ h)
    fun works hworks => .pure ?_
  refine below_append (below_flatMap fun w hw => (hworks w hw).1) ?_
  exact below_reverse (below_flatMap fun w hw => (hworks w hw).2)

theorem visitExpressionStatement_asks (n : Nat) :
    Yields (Below n) (visitExpressionStatement a n) := by
  have hvisit := below_visit?_child (a := a) (n := n) 0
  refine .after fun b => ?_
  dsimp only
  split
  · exact .pure hvisit
  · refine .ite (fun _ => .pure hvisit) fun _ => ?_
    refine .bind (visitPath_asks (a.rank_child_lt n 0) true) fun found hfound => ?_
    obtain ⟨property?, works⟩ := found
    dsimp only
    split
    · exact .pure hfound
    · refine .ite (fun _ => .after fun _ => .after fun _ => .pure hfound) fun _ => ?_
      exact .ite (fun _ => .after fun _ => .after fun _ => .pure hfound) fun _ => .pure hfound

theorem visitAssignment_asks (n : Nat) : Yields (Below n) (visitAssignment a n) := by
  have hvalue := below_visit?_child (a := a) (n := n) 1
  have hobject : (a.child (a.child (some n) 0) 0).rank < n + 1 :=
    Nat.lt_of_le_of_lt (a.rank_child_le _ 0) (a.rank_child_lt n 0)
  have hkey : (a.child (a.child (some n) 0) 1).rank < n + 1 :=
    Nat.lt_of_le_of_lt (a.rank_child_le _ 1) (a.rank_child_lt n 0)
  unfold visitAssignment
  dsimp only
  split
  · exact .pure hvalue
  · exact .after fun _ => .pure hvalue
  · refine .bind (visitPath_asks (a.rank_child_lt n 0) true) fun found hfound => ?_
    obtain ⟨property?, works⟩ := found
    have hworks := below_append hfound hvalue
    dsimp only
    split
    · refine .ite (fun _ => .after fun _ => ?_) fun _ => ?_
      · exact .after fun _ => .pure hworks
      · exact .after fun _ => .pure hworks
    · exact .pure hworks
  · refine .bind (visitPath_asks hobject false) fun found hfound => ?_
    obtain ⟨object?, works⟩ := found
    have hworks := below_append hfound hvalue
    dsimp only
    split
    · refine .after fun b => .after fun _ => .after fun _ => ?_
      exact .ite (fun _ => .after fun _ => .pure hworks) fun _ => .pure hworks
    · exact .pure (below_append (below_append (below_visit? hkey) hfound) hvalue)
  · exact .pure (below_append (below_visit?_child 0) hvalue)

theorem visitProperty_asks (n : Nat) : Yields (Below n) (visitProperty a n) := by
  have hvalue := below_visit?_child (a := a) (n := n) 1
  have hkey : (a.child (a.child (some n) 0) 0).rank < n + 1 :=
    Nat.lt_of_le_of_lt (a.rank_child_le _ 0) (a.rank_child_lt n 0)
  refine .after fun b => ?_
  dsimp only
  split
  · exact .pure hvalue
  · split
    · refine .after fun _ => .after fun _ => ?_
      exact .ite (fun _ => .after fun _ => .pure hvalue) fun _ => .pure hvalue
    · exact .ite (fun _ => .pure (below_append (below_visit? hkey) hvalue)) fun _ => .pure hvalue

end Binder

end DocTypes
