import DocTypes.Proofs.Binding.Reading
import DocTypes.Proofs.Comment.Accounting
import DocTypes.Proofs.Lifecycle.Moments

/-!
# A comment says the same whenever it is read

A comment is compiled when a scope opens, to reserve the type names that it declares, again when the
declaration is visited, and again when it is typed. Only the visit reports what is wrong with the
comment, so what is reported must not matter: a sink takes what is reported and decides nothing.

While names are bound the comment that is noted on a node is compiled from the commented statement
around it, and it is there when the node is visited (`Moment.visit_target`).

## Main statements

* `DocComment.compile_some`: a sink keeps what it has, and what it gets does not depend on that.
* `Moment.Step.documented`: the comments that are noted, at every moment.
* `Analysis.comments_agree`: one comment, read three times.
-/

namespace DocTypes

open Relation

/-! ## Sinks -/

namespace DocComment

variable (a : Arena) (document target : NodeRef)

/-- Nothing is reported without a sink. -/
theorem compile_none : (compile a document target none).2 = none := by
  rw [compile_eq]
  rfl

/-- What is reported comes after what was reported earlier, and does not depend on it. -/
theorem compile_some : ∃ more : List Diagnostic, ∀ reported,
    (compile a document target (some reported)).2 = some (reported ++ more.toArray) := by
  refine ⟨problems a document target, fun reported => ?_⟩
  rw [compile_eq]
  rfl

end DocComment

/-! ## The last pass -/

/-- Type a commented declaration by a comment. -/
def Typing.annotatedBy (a : Arena) (node : NodeRef) (doc : DocComment) : Analyze Unit := do
  let target := a.child node 1
  let function := a.definedFunction target
  if function.isNone || ((← get).typeOf? function).isNone then
    let sites := a.declarationSites target
    match a.definedClass target with
    | some cls =>
      let t ← classBody a (some cls) (some doc)
      sites.forM fun site => register (some site) t
    | none => declaration a doc function sites
  remainingOperands a (a.child node 0)

/-- Whether a comment says what the statement at a node is reserved, declared and typed by. -/
structure DocComment.Governs (a : Arena) (n : Nat) (x : DocComment) : Prop where
  reserved : x.kind = a.declaredKind (some n)
  typed : Typing.annotated a (some n) = Typing.annotatedBy a (some n) x

theorem DocComment.governs_silent (a : Arena) (n : Nat) :
    (silent a (a.child (some n) 0) (a.child (some n) 1)).Governs a n := ⟨rfl, rfl⟩

/-! ## The visit -/

namespace Binder

variable {a : Arena} {reportUndefined : Bool} {b : Binder}

/-- A commented statement notes its comment on its declaration, and asks for the declaration after
the type names of the comment. -/
theorem visitAnnotated_notes (a : Arena) (n : Nat) (b : Binder) : ∃ exits,
    (visitAnnotated a n b).1 =
        .typeNames (a.child (some n) 0) :: (Work.visit? (a.child (some n) 1) ++ exits) ∧
      (visitAnnotated a n b).2.comments.get? (a.child (some n) 1) =
        some (DocComment.silent a (a.child (some n) 0) (a.child (some n) 1)) := by
  rw [visitAnnotated_eq]
  generalize a.child (some n) 0 = document
  generalize a.child (some n) 1 = target
  let doc := DocComment.silent a document target
  let Noted (out : List Work × Binder) : Prop := ∃ exits,
    out.1 = .typeNames document :: (Work.visit? target ++ exits) ∧
      out.2.comments.get? target = some doc
  -- what is done before the comment is kept makes no difference
  have hafter {α : Type} {m : Bind α} {f : α → Bind (List Work)} (h : ∀ x b, Noted (f x b))
    (b : Binder) : Noted ((m >>= f) b) := h _ _
  have hite {c : Bool} {m m' : Bind (List Work)} (h : ∀ b, Noted (m b)) (h' : ∀ b, Noted (m' b))
      (b : Binder) : Noted ((if c then m else m') b) := by
    cases c
    · exact h' b
    · exact h b
  have hkept (exits : List Work) (b : Binder) : Noted ((do
      modify fun b => { b with comments := b.comments.insert target doc }
      return .typeNames document :: (Work.visit? target ++ exits) : Bind (List Work)) b) := by
    refine ⟨exits, rfl, ?_⟩
    show (b.comments.insert target doc).get? target = some doc
    rw [NodeTable.get?_insert, if_pos rfl]
  refine hafter (fun _ => hite (hafter fun _ => ?_) ?_) b
  all_goals exact hite (hafter fun _ => hafter fun _ => hkept _) (hkept _)

theorem visitTypeNames_sameNotes (a : Arena) (document : NodeRef) :
    Moves SameNotes (visitTypeNames a document) := .forM fun n _ => visitTypeName_sameNotes a n

end Binder

namespace Moment

variable {a : Arena} {root : NodeRef} {reportUndefined : Bool} {m m' : Moment}

theorem documented_act (work : Work) {b : Binder} (hb : b.Documented a) :
    (act a reportUndefined work b).2.Documented a := by
  have hwithin {k : Nat} {f : List Work → Nat} {step : Bind (List Work)}
      (h : Binder.Within a reportUndefined 0 k f step) : (step b).2.Documented a := by
    obtain ⟨acts, hrun, hsound, -⟩ := h b hb
    rw [hrun]
    exact Binder.doAll_induction hsound hb fun act hact b hb => hb.act hact reportUndefined
  cases work with
  | exitScope =>
    have hexit : Act.exit.Sound a := trivial
    exact hb.act hexit reportUndefined
  | typeNames document =>
    exact hwithin (f := fun _ => 0) (.bind (j := 0) (Binder.visitTypeNames_within document) fun _ =>
      .pure (Nat.le_refl 0))
  | visit n => exact hwithin (Binder.visit_within n)

/-- The comments that are noted stand on their nodes after each step. -/
theorem Step.documented (h : m.Step a reportUndefined m') (hm : m.state.Documented a) :
    m'.state.Documented a := by
  obtain ⟨works, b⟩ := m
  cases works with
  | nil => cases h
  | cons work rest =>
    rw [step_cons_eq h]
    exact documented_act work hm

theorem documented_start (a : Arena) (root : NodeRef) : (start a root).state.Documented a := by
  have hopens : Binder.Mute a false (Binder.openBody a ((Analysis.new a).unit root).current
      (a.children root)) := Binder.openBody_mute _ _
  obtain ⟨acts, hrun, hsound, -⟩ := hopens 0 _ (Analysis.documented_unit a root)
  show (Binder.openBody a _ (a.children root) ((Analysis.new a).unit root)).2.Documented a
  rw [hrun]
  exact Binder.doAll_induction hsound (Analysis.documented_unit a root) fun act hact b hb =>
    hb.act hact false

/-- The comments that are noted stand on their nodes at every moment. -/
theorem documented_of_steps (h : ReflTransGen (Step a reportUndefined) (start a root) m) :
    m.state.Documented a := by
  induction h with
  | refl => exact documented_start a root
  | tail _ hstep ih => exact hstep.documented ih

variable (reportUndefined) in
/-- When the declaration under a comment is visited, its comment is noted on it. -/
theorem visit_target {n t : Nat} (hkind : a.kind? (some n) = some .annotated)
    (ht : a.child (some n) 1 = some t) (rest : List Work) (b : Binder) : ∃ exits b',
    ReflTransGen (Step a reportUndefined) ⟨.visit n :: rest, b⟩ ⟨.visit t :: (exits ++ rest), b'⟩ ∧
      b'.comments.get? (some t) = some (DocComment.silent a (a.child (some n) 0) (some t)) := by
  obtain ⟨exits, hworks, hdoc⟩ := Binder.visitAnnotated_notes a n b
  have hact : act a reportUndefined (.visit n) b = Binder.visitAnnotated a n b := by
    show Binder.visit a n b = _
    unfold Binder.visit
    rw [hkind]
  have hfirst := step_cons a reportUndefined (.visit n) rest b
  rw [hact, hworks, ht] at hfirst
  have hsecond := step_cons a reportUndefined (.typeNames (a.child (some n) 0))
    (.visit t :: (exits ++ rest)) (Binder.visitAnnotated a n b).2
  refine ⟨exits, _, .head hfirst (.single hsecond), ?_⟩
  have hsame := Binder.visitTypeNames_sameNotes a (a.child (some n) 0)
    (Binder.visitAnnotated a n b).2
  rw [ht] at hdoc
  exact (congrArg (NodeTable.get? · (some t)) hsame.comments).trans hdoc

end Moment

namespace Analysis

/-- **One comment, read three times.** What is reported about a comment decides nothing: the
compiled comment is the same with and without a sink, a sink keeps what it has and gets the same
problems whatever that is, and nothing is reported without one.

So at every moment of the walk that binds names, a comment that is noted on a node is that of a
commented statement around it, with the kind that its type names were reserved by and the one that
the last pass types it by; and when the walk comes to a commented statement, such a comment is noted
on its declaration once that is visited. -/
theorem comments_agree (a : Arena) (root : NodeRef) (reportUndefined : Bool) :
    (∀ document target,
      (∀ sink, (DocComment.compile a document target sink).1 =
        (DocComment.compile a document target none).1) ∧
      (∃ more : List Diagnostic, ∀ reported,
        (DocComment.compile a document target (some reported)).2 =
          some (reported ++ more.toArray)) ∧
      (DocComment.compile a document target none).2 = none) ∧
    ∀ m, ReflTransGen (Moment.Step a reportUndefined) (.start a root) m →
      (∀ r doc, m.state.comments.get? r = some doc → ∃ n,
        a.kind? (some n) = some .annotated ∧ a.child (some n) 1 = r ∧ doc.Governs a n) ∧
      (∀ n t rest, m.works = .visit n :: rest → a.kind? (some n) = some .annotated →
        a.child (some n) 1 = some t → ∃ exits b doc,
          ReflTransGen (Moment.Step a reportUndefined) m ⟨.visit t :: (exits ++ rest), b⟩ ∧
            b.comments.get? (some t) = some doc ∧ doc.Governs a n) := by
  refine ⟨fun document target => ⟨fun sink => ?_, DocComment.compile_some a document target,
    DocComment.compile_none a document target⟩, fun m hm => ⟨fun r doc hdoc => ?_, ?_⟩⟩
  · rw [DocComment.compile_fst, DocComment.silent]
  · obtain ⟨n, hkind, rfl, rfl⟩ := Moment.documented_of_steps hm r doc hdoc
    exact ⟨n, hkind, rfl, DocComment.governs_silent a n⟩
  · intro n t rest hworks hkind ht
    obtain ⟨exits, b, hsteps, hdoc⟩ := Moment.visit_target reportUndefined hkind ht rest m.state
    refine ⟨exits, b, _, ?_, hdoc, ?_⟩
    · rwa [← hworks] at hsteps
    · rw [← ht]
      exact DocComment.governs_silent a n

end Analysis

end DocTypes
