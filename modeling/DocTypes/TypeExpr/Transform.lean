import DocTypes.TypeExpr.Meaning

/-!
# Types of type expressions

`TypeExpr.transform` gives a type to every node of a type expression, from the leaves up.
A node that has a type keeps it, so no expression is worked out twice.

An alias whose meaning is not known yet is expanded where it is met first. The aliases
that may still be expanded are carried along: those that are being expanded are not among
them, so meeting one of these again means that it is defined through itself. Each nested
expansion leaves one alias fewer, and below one expansion the nodes get smaller, which is
why it ends.
-/

namespace DocTypes

namespace TypeExpr

/-- The parts of a type expression that have types of their own, and where they stand. The
name of an applied type is not among them. -/
def operands (a : Arena) (n : Nat) : List (NodeRef × Position) :=
  match a.kind? (some n) with
  | some .typeName => []
  | some .typeApplication => ((a.children (some n)).drop 1).map (·, .plain)
  | some .recordMember => [(a.child (some n) 1, .plain)]
  | some .functionTypeParameters =>
    (a.children (some n)).map fun c =>
      (c, if a.isKind c .thisType || a.isKind c .newType then .plain else .parameter)
  | _ => (a.children (some n)).map (·, .plain)

theorem rank_lt_of_mem_operands {a : Arena} {n : Nat} {c : NodeRef} {p : Position}
    (h : (c, p) ∈ operands a n) : c.rank < n + 1 := by
  unfold operands at h
  split at h
  · simp at h
  · simp only [List.mem_map, Prod.mk.injEq] at h
    obtain ⟨_, hmem, rfl, _⟩ := h
    exact Arena.rank_lt_of_mem_children (List.mem_of_mem_drop hmem)
  · simp only [List.mem_singleton, Prod.mk.injEq] at h
    exact h.1 ▸ Arena.rank_child_lt a n 1
  · simp only [List.mem_map, Prod.mk.injEq] at h
    obtain ⟨_, hmem, rfl, _⟩ := h
    exact Arena.rank_lt_of_mem_children hmem
  · simp only [List.mem_map, Prod.mk.injEq] at h
    obtain ⟨_, hmem, rfl, _⟩ := h
    exact Arena.rank_lt_of_mem_children hmem

theorem lt_size_of_mem_operands {a : Arena} {n : Nat} {c : NodeRef} {p : Position}
    (h : (c, p) ∈ operands a n) : n < a.size := by
  rcases Nat.lt_or_ge n a.size with hlt | hge
  · exact hlt
  · have hnode : a.node? (some n) = none := by simpa [Arena.node?, Arena.size] using hge
    simp [operands, Arena.kind?, Arena.children, hnode] at h

/-- A bound on the steps of a walk: the nodes below a node get smaller, and each alias that may
still be expanded may start a walk of its own. -/
def effort (a : Arena) (expandable : List TypeId) (r : NodeRef) : Nat :=
  expandable.length * (a.size + 2) + min r.rank (a.size + 1)

theorem effort_operand_lt {a : Arena} {n : Nat} {c : NodeRef} {p : Position}
    (h : (c, p) ∈ operands a n) (expandable : List TypeId) :
    effort a expandable c < effort a expandable (some n) := by
  have hrank : c.rank < n + 1 := rank_lt_of_mem_operands h
  have hsize : n < a.size := lt_size_of_mem_operands h
  have hnode : NodeRef.rank (some n) = n + 1 := rfl
  unfold effort
  omega

theorem effort_erase_lt {expandable : List TypeId} {t : TypeId} (h : t ∈ expandable) (a : Arena)
    (r r' : NodeRef) : effort a (expandable.erase t) r < effort a expandable r' := by
  have hpos : 0 < expandable.length := List.length_pos_of_mem h
  have hsplit : expandable.length * (a.size + 2) =
      (expandable.length - 1) * (a.size + 2) + (a.size + 2) := by
    rw [← Nat.succ_mul, Nat.succ_eq_add_one, Nat.sub_add_cancel hpos]
  unfold effort
  rw [List.length_erase_of_mem h, hsplit]
  omega

/-- Give types to a type expression and all below it. Only the aliases in `expandable` may be
expanded. -/
def enter (a : Arena) (expandable : List TypeId) (r : NodeRef) (position : Position) :
    Analyze Unit :=
  match r with
  | none => pure ()
  | some n => do
    if ((← get).typeOf? (some n)).isSome then return
    (operands a n).attach.forM fun ⟨(c, p), _⟩ => enter a expandable c p
    match ← meaning a n position with
    | .nothing => pure ()
    | .type t => Analysis.setType (some n) t
    | .expansion t operand =>
      if _h : t ∈ expandable then
        enter a (expandable.erase t) (some operand) .plain
        let target := ((← get).typeOf? (some operand)).getD .invalid
        Analysis.onTypes fun types => ((), types.setAliasTarget t target)
        Analysis.setType (some n) target
      else
        Analysis.reportAt a .cyclicTypedef (some n)
        Analysis.setType (some n) .invalid
termination_by effort a expandable r
decreasing_by
  · exact effort_operand_lt ‹_› expandable
  · exact effort_erase_lt _h a _ _

/-- What is done at a node once its meaning is known. -/
def conclude (a : Arena) (expandable : List TypeId) (n : Nat) : Meaning → Analyze Unit
  | .nothing => pure ()
  | .type t => Analysis.setType (some n) t
  | .expansion t operand =>
    if t ∈ expandable then do
      enter a (expandable.erase t) (some operand) .plain
      let target := ((← get).typeOf? (some operand)).getD .invalid
      Analysis.onTypes fun types => ((), types.setAliasTarget t target)
      Analysis.setType (some n) target
    else do
      Analysis.reportAt a .cyclicTypedef (some n)
      Analysis.setType (some n) .invalid

theorem conclude_of_mem {expandable : List TypeId} {t : TypeId} (h : t ∈ expandable) (a : Arena)
    (n operand : Nat) : conclude a expandable n (.expansion t operand) = (do
      enter a (expandable.erase t) (some operand) .plain
      let target := ((← get).typeOf? (some operand)).getD .invalid
      Analysis.onTypes fun types => ((), types.setAliasTarget t target)
      Analysis.setType (some n) target) := if_pos h

theorem conclude_of_not_mem {expandable : List TypeId} {t : TypeId} (h : t ∉ expandable)
    (a : Arena) (n operand : Nat) : conclude a expandable n (.expansion t operand) = (do
      Analysis.reportAt a .cyclicTypedef (some n)
      Analysis.setType (some n) .invalid) := if_neg h

theorem enter_none (a : Arena) (expandable : List TypeId) (position : Position) :
    enter a expandable none position = pure () := by
  rw [enter]

/-- A node is worked out after those below it. -/
theorem enter_some (a : Arena) (expandable : List TypeId) (n : Nat) (position : Position) :
    enter a expandable (some n) position = (do
      if ((← get).typeOf? (some n)).isSome then return
      (operands a n).forM fun operand => enter a expandable operand.1 operand.2
      conclude a expandable n (← meaning a n position)) := by
  have hforM : ((operands a n).attach.forM fun operand =>
    enter a expandable operand.1.1 operand.1.2) =
      (operands a n).forM fun operand => enter a expandable operand.1 operand.2 := by
    have h := List.forM_map (l := (operands a n).attach) (g := Subtype.val)
      (f := fun operand => enter a expandable operand.1 operand.2)
    rw [List.attach_map_subtype_val] at h
    exact h.symm
  rw [enter, ← hforM]
  rfl

/-- The type of a type expression. -/
def transform (a : Arena) (r : NodeRef) (position : Position) : Analyze TypeId := do
  if r.isNone then return .unspecified
  enter a (← get).store.types.aliases r position
  return (← get).typeOf r

/-- What an alias stands for, worked out now if it is not known. -/
def resolveAlias (a : Arena) (t : TypeId) : Analyze TypeId := do
  let types := (← get).store.types
  match types.aliasTarget? t with
  | some target => return target
  | none =>
    match types.key? t with
    | some (.aliasOf _ tag) =>
      match a.typeOperand tag with
      | none => defaultTarget a t tag
      | some operand =>
        enter a (types.aliases.erase t) (some operand) .plain
        let x ← get
        match x.store.types.aliasTarget? t with
        | some target => return target
        | none =>
          let target := x.typeOf (some operand)
          Analysis.onTypes fun types => ((), types.setAliasTarget t target)
          return target
    | _ => return t

end TypeExpr

end DocTypes
