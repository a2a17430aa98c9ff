import DocTypes.Binding.Reference
import DocTypes.Proofs.Run
import DocTypes.Proofs.Tree.Comments
import DocTypes.Typing.Receiver
import DocTypes.Typing.Sites

/-!
# Loops over a tree end

The functions that look through a declaration, or along a dotted path, or up to a comment, each
hold one node at a time and move it until there is nothing to look through. Written as a loop, such
a function has no counter: it ends because each turn moves the node to a child, which stands before
its parent in the arena, or to the parent, which stands behind.

A `Turn` is the body of such a loop. `Turn.run` takes a number of turns, and gives nothing if the
loop is still going on after them. `Turn.Computes.run_eq` is what all loops here rest
on: a measure that every turn lowers is a number of turns that is enough, and what every turn keeps
is what the loop gives.

## Main statements

* `Arena.loopsEnd`: every one of these loops ends, within a number of turns that the node tells,
  with what the recursive function gives.
* `Binder.visitPath_eq`: a dotted path is visited at its root and then from member to member.
-/

namespace DocTypes

/-- One turn of a loop: it goes on with a state, or it stops with a result. -/
abbrev Turn (σ ρ : Type) := σ → σ ⊕ ρ

namespace Turn

variable {σ ρ : Type}

/-- The result of a loop that stops within a number of turns. -/
def run (turn : Turn σ ρ) : (turns : Nat) → σ → Option ρ
  | 0, _ => none
  | turns + 1, s =>
    match turn s with
    | .inl next => run turn turns next
    | .inr result => some result

/-- A turn from `s` keeps a value and lowers a measure, or its result is that value. -/
inductive Keeps (value : σ → ρ) (measure : σ → Nat) (s : σ) : σ ⊕ ρ → Prop
  | next {next : σ} : value s = value next → measure next < measure s →
      Keeps value measure s (.inl next)
  | stop {result : ρ} : value s = result → Keeps value measure s (.inr result)

/-- The value that every turn of a loop keeps until it is the result. -/
def Computes (turn : Turn σ ρ) (value : σ → ρ) (measure : σ → Nat) : Prop :=
  ∀ s, Keeps value measure s (turn s)

/-- A loop ends with what it computes, within more turns than the measure of its start. -/
theorem Computes.run_eq {turn : Turn σ ρ} {value : σ → ρ} {measure : σ → Nat}
    (h : turn.Computes value measure) {turns : Nat} {s : σ} (hturns : measure s < turns) :
    turn.run turns s = some (value s) := by
  induction turns generalizing s with
  | zero => omega
  | succ turns ih =>
    rw [run]
    cases hturn : turn s with
    | inl next =>
      cases hturn ▸ h s with
      | next hvalue hless =>
        rw [hvalue]
        apply ih
        omega
    | inr result =>
      cases hturn ▸ h s with
      | stop hvalue => rw [hvalue]

end Turn

namespace Arena

/-! ## Down from a declaration -/

/-- One step through a declaration, to the node of an accepted kind that it defines. -/
def definedTurn (a : Arena) (accept : NodeKind → Bool) : Turn NodeRef NodeRef := fun r =>
  match a.kind? r with
  | none => .inr none
  | some kind =>
    if accept kind then .inr r
    else match kind with
      | .expressionStatement => .inl (a.child r 0)
      | .varStatement => .inl (a.child (a.child r 0) 1)
      | .assignment | .property => .inl (a.child r 1)
      | _ => .inr none

/-- One step through a declaration, to the nodes that carry its names. -/
def sitesTurn (a : Arena) : Turn NodeRef (List Nat) := fun r =>
  match a.kind? r with
  | some .expressionStatement => .inl (a.child r 0)
  | some .assignment => .inr ((a.child r 0).filter fun l => a.isAssignable (some l)).toList
  | some .memberExpression => .inr r.toList
  | some .varStatement => .inr (a.bindingNames r)
  | some .property | some .method | some .functionDeclaration | some .classDeclaration =>
    .inr (a.child r 0).toList
  | _ => .inr []

end Arena

/-- One step through a declaration, to the class that it makes. -/
def Analysis.declaredClassTurn (x : Analysis) (a : Arena) :
    Turn NodeRef (Option ValueId) := fun r =>
  match x.classAt? r with
  | some cls => .inr (some cls)
  | none =>
    match a.kind? r with
    | some .expressionStatement | some .varStatement => .inl (a.child r 0)
    | some .varDeclaration | some .assignment | some .property => .inl (a.child r 1)
    | _ => .inr none

namespace Arena

/-! ## Along a dotted path -/

/-- One step along a dotted path, with the parts of its text that were met. -/
def pathTurn (a : Arena) : Turn (NodeRef × List String) (List String) := fun (r, parts) =>
  match a.kind? r with
  | some .memberExpression => .inl (a.child r 0, a.text (a.child r 1) :: parts)
  | some .identifier | some .propertyName => .inr (a.text r :: parts)
  | some .thisExpression => .inr ("this" :: parts)
  | _ => .inr parts

/-- One step along a dotted path, with the members that were met. -/
def membersTurn (a : Arena) : Turn (NodeRef × List Nat) (NodeRef × List Nat) := fun (r, members) =>
  match r with
  | none => .inr (none, members)
  | some n =>
    if a.isKind (some n) .memberExpression then .inl (a.child (some n) 0, n :: members)
    else .inr (some n, members)

/-- The members of a dotted path, from the one next to its root outward. -/
def pathMembers (a : Arena) (r : NodeRef) : List Nat :=
  match r with
  | none => []
  | some n =>
    match a.kind? (some n) with
    | some .memberExpression => pathMembers a (a.child (some n) 0) ++ [n]
    | _ => []
termination_by r.rank
decreasing_by exact rank_child_lt a n 0

/-! ## Up to a comment -/

/-- One step up, to the node under a comment whose declaration gives `n` its value. -/
def governingTurn (a : Arena) : Turn Nat NodeRef := fun n =>
  match a.parent (some n) with
  | none => .inr none
  | some p =>
    match a.kind? (some p) with
    | some .annotated => .inr (if a.child (some p) 1 = some n then some n else none)
    | some .varDeclaration | some .assignment | some .property =>
      if a.child (some p) 1 = some n then .inl p else .inr none
    | some .varStatement | some .expressionStatement => .inl p
    | _ => .inr none

/-! ## What the loops compute -/

theorem definedTurn_computes (a : Arena) (accept : NodeKind → Bool) :
    (a.definedTurn accept).Computes (a.defined accept) NodeRef.rank := by
  intro r
  fun_cases definedTurn a accept r with
  | case1 hnone =>
    cases r with
    | none => exact .stop (by rw [defined])
    | some n => exact .stop (by rw [defined, hnone])
  | case2 kind hkind haccept =>
    obtain ⟨n, rfl⟩ := exists_of_kind? hkind
    exact .stop (by rw [defined, hkind]; exact if_pos haccept)
  | case3 hkind haccept =>
    obtain ⟨n, rfl⟩ := exists_of_kind? hkind
    exact .next (by rw [defined, hkind]; exact if_neg haccept) (rank_child_lt a n 0)
  | case4 hkind haccept =>
    obtain ⟨n, rfl⟩ := exists_of_kind? hkind
    exact .next (by rw [defined, hkind]; exact if_neg haccept)
      (Nat.lt_of_le_of_lt (rank_child_le a _ 1) (rank_child_lt a n 0))
  | case5 hkind haccept | case6 hkind haccept =>
    obtain ⟨n, rfl⟩ := exists_of_kind? hkind
    exact .next (by rw [defined, hkind]; exact if_neg haccept) (rank_child_lt a n 1)
  | case7 kind hkind haccept hstatement hlist hassignment hproperty =>
    obtain ⟨n, rfl⟩ := exists_of_kind? hkind
    exact .stop (by rw [defined, hkind]; simp [haccept])

theorem sitesTurn_computes (a : Arena) :
    a.sitesTurn.Computes a.declarationSites NodeRef.rank := by
  intro r
  fun_cases sitesTurn a r with
  | case1 hkind =>
    obtain ⟨n, rfl⟩ := exists_of_kind? hkind
    exact .next (by rw [declarationSites, hkind]) (rank_child_lt a n 0)
  | case3 hkind =>
    obtain ⟨n, rfl⟩ := exists_of_kind? hkind
    exact .stop (by rw [declarationSites, hkind]; rfl)
  | case2 hkind | case4 hkind | case5 hkind | case6 hkind | case7 hkind | case8 hkind =>
    obtain ⟨n, rfl⟩ := exists_of_kind? hkind
    exact .stop (by rw [declarationSites, hkind])
  | case9 =>
    cases r with
    | none => exact .stop (by rw [declarationSites])
    | some n => exact .stop (by rw [declarationSites]; simp)

theorem declaredClassTurn_computes (x : Analysis) (a : Arena) :
    (x.declaredClassTurn a).Computes (x.declaredClass? a) NodeRef.rank := by
  intro r
  fun_cases Analysis.declaredClassTurn x a r with
  | case1 cls hcls => exact .stop (by rw [Analysis.declaredClass?.eq_def, hcls])
  | case2 hnone hkind | case3 hnone hkind =>
    obtain ⟨n, rfl⟩ := exists_of_kind? hkind
    exact .next (by rw [Analysis.declaredClass?, hnone, hkind]) (rank_child_lt a n 0)
  | case4 hnone hkind | case5 hnone hkind | case6 hnone hkind =>
    obtain ⟨n, rfl⟩ := exists_of_kind? hkind
    exact .next (by rw [Analysis.declaredClass?, hnone, hkind]) (rank_child_lt a n 1)
  | case7 hnone =>
    cases r with
    | none => exact .stop (by rw [Analysis.declaredClass?, hnone])
    | some n => exact .stop (by rw [Analysis.declaredClass?, hnone]; simp)

/-- What was met of a path stands behind what is left of it. -/
theorem pathTurn_computes (a : Arena) :
    a.pathTurn.Computes (fun s => a.pathParts s.1 ++ s.2) fun s => s.1.rank := by
  intro s
  fun_cases pathTurn a s with
  | case1 r parts hkind =>
    obtain ⟨n, rfl⟩ := exists_of_kind? hkind
    refine .next ?_ (rank_child_lt a n 0)
    rw [pathParts, hkind]
    exact List.append_assoc ..
  | case2 r parts hkind | case3 r parts hkind | case4 r parts hkind =>
    obtain ⟨n, rfl⟩ := exists_of_kind? hkind
    exact .stop (by rw [pathParts, hkind]; rfl)
  | case5 r parts =>
    cases r with
    | none => exact .stop (by rw [pathParts]; rfl)
    | some n => exact .stop (by rw [pathParts]; simp)

theorem membersTurn_computes (a : Arena) :
    a.membersTurn.Computes (fun s => (a.pathRoot s.1, a.pathMembers s.1 ++ s.2)) fun s =>
      s.1.rank := by
  intro s
  fun_cases membersTurn a s with
  | case1 members => exact .stop (by rw [pathRoot, pathMembers]; rfl)
  | case2 members n hmember =>
    refine .next ?_ (rank_child_lt a n 0)
    rw [pathRoot, pathMembers, isKind_iff.1 hmember, List.append_assoc]
    rfl
  | case3 members n hother =>
    rw [isKind_iff] at hother
    refine .stop ?_
    rw [pathRoot, pathMembers]
    simp

theorem lt_rank_of_mem_pathMembers {a : Arena} {r : NodeRef} {m : Nat} (h : m ∈ a.pathMembers r) :
    m < r.rank := by
  fun_induction pathMembers a r with
  | case1 => exact (List.not_mem_nil h).elim
  | case2 n hkind ih =>
    rcases List.mem_append.1 h with h | h
    · exact Nat.lt_trans (ih h) (rank_child_lt a n 0)
    · cases List.mem_singleton.1 h
      exact Nat.lt_succ_self _
  | case3 => exact (List.not_mem_nil h).elim

theorem governingTurn_computes (a : Arena) :
    a.governingTurn.Computes a.governingTarget fun n => a.size - n := by
  intro n
  have hless {p : Nat} (hparent : a.parent (some n) = some p) : a.size - p < a.size - n := by
    have hlt := lt_of_parent_eq_some hparent
    omega
  fun_cases governingTurn a n with
  | case1 hnone => exact .stop (governingTarget_eq_none hnone)
  | case2 p hparent hkind =>
    refine .stop ?_
    rw [governingTarget_eq hparent]
    simp [isKind, passesOn, hkind]
  | case3 p hparent hkind hchild | case5 p hparent hkind hchild | case7 p hparent hkind hchild =>
    refine .next (governingTarget_of_passesOn hparent ?_) (hless hparent)
    simp [passesOn, hkind, hchild]
  | case9 p hparent hkind | case10 p hparent hkind =>
    refine .next (governingTarget_of_passesOn hparent ?_) (hless hparent)
    simp [passesOn, hkind]
  | case4 p hparent hkind hchild | case6 p hparent hkind hchild | case8 p hparent hkind hchild =>
    refine .stop ?_
    rw [governingTarget_eq hparent]
    simp [isKind, passesOn, hkind, hchild]
  | case11 p hparent hother =>
    have hannotated : a.isKind (some p) .annotated = false := by simpa [isKind] using hother
    refine .stop ?_
    rw [governingTarget_eq hparent, hannotated]
    simp [passesOn]

end Arena

/-! ## Visiting a dotted path -/

namespace Binder

/-- Look a member up in what an object stands for, if there is an object. -/
def visitMember? (a : Arena) (create : Nat → Bool) (object? : Option ValueId) (n : Nat) :
    Bind (Option ValueId) :=
  match object? with
  | none => return none
  | some object => visitMember a n object (create n)

/-- Look members up one after another, each in what the one before it stands for. A member that
`create` accepts is made if it is missing. -/
def visitMembers (a : Arena) (create : Nat → Bool) (members : List Nat) (object? : Option ValueId) :
    Bind (Option ValueId) := members.foldlM (visitMember? a create) object?

theorem visitMembers_concat (a : Arena) (create : Nat → Bool) (members : List Nat) (n : Nat)
    (object? : Option ValueId) : visitMembers a create (members ++ [n]) object? =
      visitMembers a create members object? >>= fun found? => visitMember? a create found? n := by
  simp [visitMembers]

theorem visitMembers_congr {a : Arena} {create create' : Nat → Bool} {members : List Nat}
    (h : ∀ n ∈ members, create n = create' n) (object? : Option ValueId) :
    visitMembers a create members object? = visitMembers a create' members object? := by
  induction members generalizing object? with
  | nil => rfl
  | cons n rest ih =>
    have hfirst : visitMember? a create object? n = visitMember? a create' object? n := by
      unfold visitMember?
      rw [h n List.mem_cons_self]
    have hrest := ih fun m hm => h m (List.mem_cons_of_mem _ hm)
    simp only [visitMembers, List.foldlM_cons] at hrest ⊢
    rw [hfirst]
    exact congrArg _ (funext hrest)

theorem visitPath_member {a : Arena} {n : Nat} (h : a.kind? (some n) = some .memberExpression)
    (create : Bool) : visitPath a (some n) create = do
      let found ← visitPath a (a.child (some n) 0) false
      return (← visitMember? a (fun _ => create) found.1 n, found.2) := by
  rw [visitPath, h]
  refine bind_congr fun found => ?_
  obtain ⟨object?, works⟩ := found
  cases object? with
  | none => rfl
  | some object => rfl

/-- Only a member can be made. -/
theorem visitPath_other {a : Arena} {r : NodeRef} (h : a.kind? r ≠ some .memberExpression)
    (create : Bool) : visitPath a r create = visitPath a r false := by
  cases r with
  | none => rw [visitPath, visitPath]
  | some n =>
    rw [visitPath, visitPath]
    split
    · rfl
    · rfl
    · next hmember => exact absurd hmember h
    · rfl
    · rfl

/-- **A dotted path is visited from its root outward.** The root has a value or is to be visited,
and then the members follow in order. Only the path's own node is made if it is missing. -/
theorem visitPath_eq (a : Arena) (r : NodeRef) (create : Bool) : visitPath a r create = do
      let found ← visitPath a (a.pathRoot r) false
      return (← visitMembers a (fun n => create && r = some n) (a.pathMembers r) found.1,
        found.2) := by
  match r with
  | none =>
    rw [Arena.pathRoot, Arena.pathMembers, visitPath_other (by simp [Arena.kind?, Arena.node?])]
    simp [visitMembers]
  | some n =>
    by_cases hmember : a.kind? (some n) = some .memberExpression
    · have hbelow : ∀ m ∈ a.pathMembers (a.child (some n) 0),
          (false && a.child (some n) 0 = some m) = (create && some n = some m) := by
        intro m hm
        have hlt := Arena.lt_rank_of_mem_pathMembers hm
        have hrank := Arena.rank_child_lt a n 0
        have hne : n ≠ m := by omega
        simp [hne]
      rw [visitPath_member hmember, visitPath_eq a (a.child (some n) 0) false, Arena.pathRoot,
        Arena.pathMembers, hmember]
      simp only [bind_assoc, pure_bind, visitMembers_concat]
      refine bind_congr fun found => ?_
      rw [visitMembers_congr hbelow]
      refine bind_congr fun found? => ?_
      simp [visitMember?]
    · rw [Arena.pathRoot, Arena.pathMembers, visitPath_other hmember]
      simp [visitMembers]
termination_by r.rank
decreasing_by exact Arena.rank_child_lt a n 0

end Binder

/-! ## All loops -/

/-- The loops over a tree come to their ends: down through a declaration and along a dotted
path within one turn more than the rank of the node where they start, up to a comment
within one turn more than there are nodes behind. What each of them ends with is what the
function on trees gives. -/
structure Arena.LoopsEnd (a : Arena) : Prop where
  defined : ∀ accept target,
    (a.definedTurn accept).run (target.rank + 1) target = some (a.defined accept target)
  declaredClass : ∀ (x : Analysis) target,
    (x.declaredClassTurn a).run (target.rank + 1) target = some (x.declaredClass? a target)
  sites : ∀ target, a.sitesTurn.run (target.rank + 1) target = some (a.declarationSites target)
  path : ∀ r, a.pathTurn.run (r.rank + 1) (r, []) = some (a.pathParts r)
  members : ∀ r, a.membersTurn.run (r.rank + 1) (r, []) = some (a.pathRoot r, a.pathMembers r)
  visited : ∀ r create, Binder.visitPath a r create = do
    let found ← Binder.visitPath a (a.pathRoot r) false
    return (← Binder.visitMembers a (fun n => create && r = some n)
      (a.pathMembers r) found.1, found.2)
  governing : ∀ n, a.governingTurn.run (a.size - n + 1) n = some (a.governingTarget n)

/-- The loops over a tree end, in whatever way its nodes are shared. -/
theorem Arena.loopsEnd (a : Arena) : a.LoopsEnd where
  defined accept _ := (a.definedTurn_computes accept).run_eq (Nat.lt_succ_self _)
  declaredClass x _ := (Arena.declaredClassTurn_computes x a).run_eq (Nat.lt_succ_self _)
  sites _ := a.sitesTurn_computes.run_eq (Nat.lt_succ_self _)
  path r := by
    have hrun := a.pathTurn_computes.run_eq (s := (r, [])) (Nat.lt_succ_self _)
    rwa [List.append_nil] at hrun
  members r := by
    have hrun := a.membersTurn_computes.run_eq (s := (r, [])) (Nat.lt_succ_self _)
    rwa [List.append_nil] at hrun
  visited := Binder.visitPath_eq a
  governing _ := a.governingTurn_computes.run_eq (Nat.lt_succ_self _)

end DocTypes
