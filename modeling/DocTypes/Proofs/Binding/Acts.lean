import DocTypes.Binding.Visit
import DocTypes.Proofs.Run
import DocTypes.Proofs.Tree.Comments

/-!
# The acts of a walk

Whatever a walk does to its state is one of a few acts (`Act`), done one after another
(`Binder.doAll`). Which acts these are depends on the state, but not what they are about: the
comments are compiled comments of the tree, each kept where it stands, and the references are among
the nodes that are visited (`Act.Sound`, `Act.reads`).

What is true before the first act and is kept by every act is true in the end, so a fact about the
whole pass is one about each act.

## Main statements

* `Binder.doAll_induction`: what every sound act keeps.
* `Binder.Documented.act`: the comments that are kept stand on their nodes.
-/

namespace DocTypes

/-- One thing that a walk does to its state. -/
inductive Act where
  | enter (kind : ScopeKind) (node : NodeRef)
  | exit
  | reserve (id : ScopeId) (space : Namespace) (name : Atom)
  | bindName (id : ScopeId) (binding : NodeRef)
  | bindType (id : ScopeId) (name : NodeRef) (t : TypeId)
  /-- Give the name of a `@template` tag its own parameter as type. -/
  | template (name : Nat)
  | makeClass (site : NodeRef) (name : String) (doc : Option DocComment) (heritage node : NodeRef)
  /-- Report what is wrong with a comment. -/
  | compile (document target : NodeRef)
  | keepComment (target : NodeRef) (doc : DocComment)
  | identifier (node assigned : NodeRef)
  | member (n : Nat) (owner : ValueId) (create : Bool)
  /-- Bind the type name at a node, which is not dotted. -/
  | typeReference (n : Nat)
  | function (n : Nat)
  | object (n : Nat)
  | property (owner : ValueId) (key : PropertyKey) (node : NodeRef)
  | value (r : NodeRef) (v : ValueId)
  | write (v : ValueId) (node : NodeRef)
  | instanceType (cls : ValueId)
  | aliasType (doc : DocComment) (name : Atom)
  | nameType (v : ValueId) (t : TypeId)
  | report (problem : Problem) (node : NodeRef)

/-- Report what is wrong with a comment. -/
def Binder.reportComment (a : Arena) (document target : NodeRef) : Bind Unit := modify fun b =>
  let sink := (DocComment.compile a document target (some b.analysis.diagnostics)).2
  { b with analysis := { b.analysis with diagnostics := sink.getD b.analysis.diagnostics } }

/-- A comment that was compiled. -/
def DocComment.Compiled (a : Arena) (x : DocComment) : Prop :=
  ∃ document target, x = silent a document target

/-- The comment of a commented statement or member, seen from the node under it. -/
def DocComment.StandsOn (a : Arena) (x : DocComment) (r : NodeRef) : Prop :=
  ∃ n, a.kind? (some n) = some .annotated ∧ a.child (some n) 1 = r ∧
    x = silent a (a.child (some n) 0) r

theorem DocComment.StandsOn.compiled {a : Arena} {x : DocComment} {r : NodeRef}
    (h : x.StandsOn a r) : x.Compiled a := by
  obtain ⟨n, -, -, hx⟩ := h
  exact ⟨_, _, hx⟩

namespace Act

open Binder

/-- Do one thing. -/
def run (a : Arena) (reportUndefined : Bool) : Act → Bind Unit
  | .enter kind node => discard (enterScope kind node)
  | .exit => exitScope a reportUndefined
  | .reserve id space name => updateScope id (Scope.reserve space name)
  | .bindName id binding => discard (declareVariable a id binding)
  | .bindType id name t => declareType a id name t
  | .template name => do
    let t ← Analysis.onTypes (·.parameter (a.atom (some name)) (some name))
    Analysis.setType (some name) t
  | .makeClass site name doc heritage node => discard (declareClass a site name doc heritage node)
  | .compile document target => reportComment a document target
  | .keepComment target doc => modify fun b => { b with comments := b.comments.insert target doc }
  | .identifier node assigned => discard (visitIdentifier a node assigned)
  | .member n owner create => discard (visitMember a n owner create)
  | .typeReference n => visitTypeName a n
  | .function n => discard (Analysis.onValues (·.newFunction (some n)) : Bind ValueId)
  | .object n => discard (Analysis.onValues (·.newObject (some n)) : Bind ValueId)
  | .property owner key node =>
    discard (Analysis.onValues (·.newProperty owner key node) : Bind ValueId)
  | .value r v => Analysis.setValue r v
  | .write v node => Analysis.modifyValues (·.addWrite v node)
  | .instanceType cls => discard (instanceOf cls)
  | .aliasType doc name => discard (aliasFor doc name)
  | .nameType v t => Analysis.nameType v t
  | .report problem node => Analysis.reportAt a problem node

/-- Whether an act is about a comment that was compiled, the comment on the node where it is kept,
a name, or a type name that is not dotted. -/
def Sound (a : Arena) : Act → Prop
  | .makeClass _ _ doc _ _ => ∀ x ∈ doc, x.Compiled a
  | .keepComment target doc => doc.StandsOn a target
  | .identifier node _ => a.kind? node = some .identifier
  | .typeReference n => a.kind? (a.child (some n) 0) = some .identifier
  | _ => True

/-- The references that an act makes. -/
def reads : Act → List Nat
  | .identifier node _ => node.toList
  | .member n _ false => [n]
  | _ => []

end Act

namespace Binder

/-- Do things one after another. -/
def doAll (a : Arena) (reportUndefined : Bool) (acts : List Act) (b : Binder) : Binder :=
  acts.foldl (fun b act => (act.run a reportUndefined b).2) b

/-- Every comment that is kept is the one that stands on its node. -/
def Documented (a : Arena) (b : Binder) : Prop :=
  ∀ r doc, b.comments.get? r = some doc → doc.StandsOn a r

section Doing

variable {a : Arena} {reportUndefined : Bool} {b : Binder}

theorem doAll_append (acts acts' : List Act) :
    doAll a reportUndefined (acts ++ acts') b =
      doAll a reportUndefined acts' (doAll a reportUndefined acts b) := List.foldl_append

/-- What every sound act keeps is kept by all of them. -/
theorem doAll_induction {I : Binder → Prop} {acts : List Act}
    (hacts : ∀ act ∈ acts, act.Sound a) (hb : I b)
    (hstep : ∀ act : Act, act.Sound a → ∀ b, I b → I (act.run a reportUndefined b).2) :
    I (doAll a reportUndefined acts b) := by
  induction acts generalizing b with
  | nil => exact hb
  | cons act acts ih =>
    exact ih (fun other h => hacts other (List.mem_cons_of_mem _ h))
      (hstep act (hacts act List.mem_cons_self) b hb)

end Doing

/-! ## Comments and classes -/

/-- The comments and the classes that are declared stay as they are. -/
structure SameNotes (b b' : Binder) : Prop where
  comments : b'.comments = b.comments
  classes : b'.analysis.classes = b.analysis.classes

instance : Std.Refl SameNotes := ⟨fun _ => ⟨rfl, rfl⟩⟩

instance : IsTrans Binder SameNotes :=
  ⟨fun _ _ _ h h' => ⟨h'.comments.trans h.comments, h'.classes.trans h.classes⟩⟩

theorem onAnalysis_sameNotes {α : Type} {step : Analyze α}
    (h : ∀ x, (step x).2.classes = x.classes) :
    Moves SameNotes (Bind.onAnalysis step) := fun b => ⟨rfl, h b.analysis⟩

theorem setValue_sameNotes (r : NodeRef) (v : ValueId) :
    Moves SameNotes (Bind.onAnalysis (Analysis.setValue r v)) := onAnalysis_sameNotes fun _ => rfl

theorem setType_sameNotes (r : NodeRef) (t : TypeId) :
    Moves SameNotes (Bind.onAnalysis (Analysis.setType r t)) := onAnalysis_sameNotes fun _ => rfl

theorem onValues_sameNotes {α : Type} (f : ValueStore → α × ValueStore) :
    Moves SameNotes (Bind.onAnalysis (Analysis.onValues f)) := onAnalysis_sameNotes fun _ => rfl

theorem modifyValues_sameNotes (f : ValueStore → ValueStore) :
    Moves SameNotes (Bind.onAnalysis (Analysis.modifyValues f)) := onAnalysis_sameNotes fun _ => rfl

theorem reportAt_sameNotes (a : Arena) (problem : Problem) (node : NodeRef) :
    Moves SameNotes (Bind.onAnalysis (Analysis.reportAt a problem node)) :=
  onAnalysis_sameNotes fun _ => rfl

theorem reportRelated_sameNotes (a : Arena) (problem : Problem) (node related : NodeRef) :
    Moves SameNotes (Bind.onAnalysis (Analysis.reportRelated a problem node related)) :=
  onAnalysis_sameNotes fun _ => rfl

theorem updateScope_sameNotes (id : ScopeId) (f : Scope → Scope) :
    Moves SameNotes (updateScope id f) := fun _ => ⟨rfl, rfl⟩

theorem declareVariable_sameNotes (a : Arena) (id : ScopeId) (binding : NodeRef) :
    Moves SameNotes (declareVariable a id binding) := by
  refine .bind .get fun b => ?_
  split
  · refine .bind (reportRelated_sameNotes _ _ _ _) fun _ => ?_
    exact .bind (setValue_sameNotes _ _) fun _ => .pure _
  · refine .bind (onValues_sameNotes _) fun _ => .bind (updateScope_sameNotes _ _) fun _ => ?_
    exact .bind (setValue_sameNotes _ _) fun _ => .pure _

theorem declareType_sameNotes (a : Arena) (id : ScopeId) (name : NodeRef) (t : TypeId) :
    Moves SameNotes (declareType a id name t) := by
  refine .bind .get fun b => ?_
  split
  · exact reportRelated_sameNotes _ _ _ _
  · exact updateScope_sameNotes _ _

theorem bindReference_sameNotes (node : NodeRef) (target : ValueId) (assigned : NodeRef) :
    Moves SameNotes (bindReference node target assigned) := by
  refine .bind (setValue_sameNotes _ _) fun _ => .bind (modifyValues_sameNotes _) fun _ => ?_
  exact .ite (fun _ => modifyValues_sameNotes _) fun _ => .pure _

theorem visitIdentifier_sameNotes (a : Arena) (node assigned : NodeRef) :
    Moves SameNotes (visitIdentifier a node assigned) := by
  refine .bind .get fun b => ?_
  dsimp only
  split
  · exact .bind (bindReference_sameNotes _ _ _) fun _ => .pure _
  · exact .bind (updateScope_sameNotes _ _) fun _ => .pure _
  · refine .ite (fun _ => .bind (setValue_sameNotes _ _) fun _ => .pure _) fun _ => ?_
    exact .ite (fun _ => .pure _) fun _ => .bind (updateScope_sameNotes _ _) fun _ => .pure _

theorem visitMember_sameNotes (a : Arena) (n : Nat) (object : ValueId) (create : Bool) :
    Moves SameNotes (visitMember a n object create) := by
  refine .bind .get fun b => ?_
  dsimp only
  refine .ite (fun _ => ?_) fun _ => ?_
  · refine .bind (onValues_sameNotes _) fun _ => .bind (setValue_sameNotes _ _) fun _ => ?_
    exact .bind (setValue_sameNotes _ _) fun _ => .pure _
  · split
    · exact .pure _
    · refine .bind (setValue_sameNotes _ _) fun _ => .bind (setValue_sameNotes _ _) fun _ => ?_
      exact .bind (modifyValues_sameNotes _) fun _ => .pure _

theorem visitTypeName_sameNotes (a : Arena) (n : Nat) :
    Moves SameNotes (visitTypeName a n) := by
  unfold visitTypeName
  dsimp only
  split
  · refine .ite (fun _ => .pure _) fun _ => .bind .get fun b => ?_
    split
    · exact setType_sameNotes _ _
    · exact updateScope_sameNotes _ _
    · exact updateScope_sameNotes _ _
  · exact .ite (fun _ => (visitIdentifier_sameNotes a _ _).discard) fun _ => .pure _
  · exact .pure _

theorem retry_sameNotes (a : Arena) (reportUndefined : Bool) (scope : Scope) (p : Parked) :
    Moves SameNotes (retry a reportUndefined scope p) := by
  unfold retry
  split
  · exact bindReference_sameNotes _ _ _
  · exact setType_sameNotes _ _
  · split
    · exact updateScope_sameNotes _ _
    · exact .ite (fun _ => reportAt_sameNotes _ _ _) fun _ => .pure _

theorem exitScope_sameNotes (a : Arena) (reportUndefined : Bool) :
    Moves SameNotes (exitScope a reportUndefined) := by
  refine .bind .get fun b => .bind .get fun b' => ?_
  split
  · exact .pure _
  · refine .bind (updateScope_sameNotes _ _) fun _ => ?_
    refine .bind (.forM fun p _ => retry_sameNotes a reportUndefined _ p) fun _ => ?_
    refine .bind (updateScope_sameNotes _ _) fun _ => ?_
    split
    · exact fun _ => ⟨rfl, rfl⟩
    · exact .pure _

/-- An act declares a class or keeps a comment, or leaves both alone. -/
theorem act_notes (a : Arena) (reportUndefined : Bool) (act : Act) (b : Binder) :
    SameNotes b (act.run a reportUndefined b).2 ∨
      (∃ target doc, act = .keepComment target doc ∧
        (act.run a reportUndefined b).2 = { b with comments := b.comments.insert target doc }) ∨
      ∃ site name doc heritage node cls, act = .makeClass site name doc heritage node ∧
        (act.run a reportUndefined b).2.comments = b.comments ∧
        (act.run a reportUndefined b).2.analysis.classes =
          b.analysis.classes ++ [{ cls, node, bases := baseRefs a doc heritage }] := by
  cases act with
  | makeClass site name doc heritage node =>
    exact .inr (.inr ⟨site, name, doc, heritage, node, _, rfl, rfl, rfl⟩)
  | keepComment target doc => exact .inr (.inl ⟨target, doc, rfl, rfl⟩)
  | exit => exact .inl (exitScope_sameNotes a reportUndefined b)
  | bindName id binding => exact .inl ((declareVariable_sameNotes a id binding).discard b)
  | bindType id name t => exact .inl (declareType_sameNotes a id name t b)
  | identifier node assigned => exact .inl ((visitIdentifier_sameNotes a node assigned).discard b)
  | member n owner create => exact .inl ((visitMember_sameNotes a n owner create).discard b)
  | typeReference n => exact .inl (visitTypeName_sameNotes a n b)
  | _ => exact .inl ⟨rfl, rfl⟩

/-- After a sound act the comments that are kept still stand on their nodes. -/
theorem Documented.act {a : Arena} {b : Binder} (hb : b.Documented a) {act : Act}
    (hact : act.Sound a)
    (reportUndefined : Bool) : Documented a (act.run a reportUndefined b).2 := by
  rcases act_notes a reportUndefined act b with hsame | ⟨target, doc, rfl, hrun⟩ |
    ⟨_, _, _, _, _, _, _, hsame, -⟩
  · unfold Documented
    rwa [hsame.comments]
  · intro r other hother
    rw [hrun] at hother
    have hget : (b.comments.insert target doc).get? r = some other := hother
    rw [NodeTable.get?_insert] at hget
    split at hget
    · next heq => exact heq ▸ Option.some.inj hget ▸ hact
    · exact hb r other hget
  · unfold Documented
    rwa [hsame]

end Binder

end DocTypes
