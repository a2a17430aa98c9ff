import DocTypes.Proofs.Binding.Reading
import DocTypes.Proofs.Handles.Names
import DocTypes.Proofs.Hierarchy.Arity
import DocTypes.Proofs.Hierarchy.Inheritance
import DocTypes.Proofs.Types.Shapes
import DocTypes.Tree.Builder

/-!
# Function types at every step

A function type is made in a type expression, of a declaration, or out of another one when types are
put in for parameters. In the first two cases each parameter is counted when it gets its type, and
in the third the types of a list are changed one by one and the arity stays. So along each step the
lists keep their types, and the shapes of the store go on to fit their arities
(`Store.KeepsShapes`). While names are bound no function type is made at all.

What is in the store in the end was there as soon as it was made, and with its list. So the function
types fit at every step.

## Main statements

* `Store.Change.shapesFit`: what fits after a change fitted before.
* `Analysis.runPasses_shapesFit`: function types at every step of a run.
-/

namespace DocTypes

open Relation

/-! ## Stores -/

namespace Store

/-- Lists keep their types, and the shapes of functions go on to fit. -/
structure KeepsShapes (s t : Store) : Prop where
  lists : ∀ (l : ListId) ts, s.types.lists.get? l.index = some ts →
    t.types.lists.get? l.index = some ts
  fit : s.types.ShapesFit → t.types.ShapesFit

theorem KeepsShapes.refl (s : Store) : s.KeepsShapes s := ⟨fun _ _ => id, id⟩

theorem KeepsShapes.trans {s t u : Store} (h : s.KeepsShapes t) (h' : t.KeepsShapes u) :
    s.KeepsShapes u :=
  ⟨fun l ts hl => h'.lists l ts (h.lists l ts hl), fun hs => h'.fit (h.fit hs)⟩

instance : Std.Refl KeepsShapes := ⟨.refl⟩

instance : IsTrans Store KeepsShapes := ⟨fun _ _ _ => .trans⟩

/-- Types that have the same numbers have the same shapes. -/
theorem KeepsShapes.ofTypes {s t : Store} (h : t.types = s.types) : s.KeepsShapes t := by
  constructor
  · intro l ts hl
    rw [h]
    exact hl
  · intro hs
    rw [h]
    exact hs

theorem KeepsShapes.interns {s : Store} {types : TypeStore}
    (h : s.types.Interns TypeKey.Shapeless types) : s.KeepsShapes { s with types } :=
  ⟨fun _ _ => h.list_eq, fun hs => hs.interns h⟩

theorem onTypes_keepsShapes {α : Type} {f : TypeStore → α × TypeStore}
    (h : ∀ types : TypeStore, types.Interns TypeKey.Shapeless (f types).2) :
    Moves KeepsShapes (onTypes f) := fun s => .interns (h s.types)

theorem onValues_keepsShapes {α : Type} (f : ValueStore → α × ValueStore) :
    Moves KeepsShapes (onValues f) := fun _ => .ofTypes rfl

/-- A function gets what becomes of its parts, one for each. -/
theorem functionOfParts_keepsShapes {inst : TypeId → StateM Store TypeId}
    (h : ∀ t, Moves KeepsShapes (inst t)) {s : Store} {t : TypeId} {shape : FunctionShape}
    (ht : s.types.key? t = some (.function shape)) : MovesFrom KeepsShapes s (do
      let parameters ← ((← get).types.list shape.parameters).mapM inst
      let parameters ← onTypes (·.internList parameters)
      let thisType ← inst shape.thisType
      let returnType ← inst shape.returnType
      onTypes (·.function { shape with parameters, thisType, returnType })) := by
  let types := s.types.list shape.parameters
  let us := (types.mapM inst s).1
  let s₁ := (types.mapM inst s).2
  let l := (onTypes (·.internList us) s₁).1
  let s₂ := (onTypes (·.internList us) s₁).2
  let s₃ := (inst shape.thisType s₂).2
  let s₄ := (inst shape.returnType s₃).2
  have h₁ : s.KeepsShapes s₁ := Moves.mapM (fun t _ => h t) s
  have h₂ : s₁.KeepsShapes s₂ := onTypes_keepsShapes (fun types => .internList types us) s₁
  have h₄ : s₂.KeepsShapes s₄ := (h shape.thisType s₂).trans (h shape.returnType s₃)
  have hlist : s₄.types.lists.get? l.index = some us :=
    h₄.lists l us (Registry.get?_intern s₁.types.lists us)
  let shape' : FunctionShape :=
    { shape with
      parameters := l
      thisType := (inst shape.thisType s₂).1
      returnType := (inst shape.returnType s₃).1 }
  have hparts : s.KeepsShapes s₄ := (h₁.trans h₂).trans h₄
  show s.KeepsShapes { s₄ with types := (s₄.types.function shape').2 }
  constructor
  · intro l ts hl
    show (s₄.types.intern (.function shape')).2.lists.get? l.index = some ts
    rw [TypeStore.lists_intern]
    exact hparts.lists l ts hl
  · intro hs
    have hfits : s₄.types.Fits shape' :=
      (hs t shape ht).withParameters rfl hlist (length_mapM inst types s)
    exact (hparts.fit hs).function hfits

instance : Substituting KeepsShapes where
  interns h := onTypes_keepsShapes fun types => (h types).mono fun _ hkey => hkey.2
  instantiates h cls := by
    refine .bind .get fun s => ?_
    split
    · refine .bind .get fun s => .bind (.mapM fun t _ => h t) fun us => ?_
      refine .bind (onTypes_keepsShapes fun types => .internList types us) fun l => ?_
      exact onValues_keepsShapes _
    · exact .pure cls
  shapes := functionOfParts_keepsShapes

/-- Ancestors of a constructed class are noted. -/
theorem finalizeConstructed_keepsShapes (v : ValueId) : Moves KeepsShapes (finalizeConstructed v) :=
  .bind (directBases_applies v) fun _ => .bind (linearize_applies _) fun _ => onValues_keepsShapes _

end Store

/-! ## The later passes -/

namespace Analysis

/-- The shapes of functions go on to fit. -/
def KeepsShapes (x y : Analysis) : Prop := x.store.KeepsShapes y.store

instance : Std.Refl KeepsShapes := ⟨fun x => .refl x.store⟩

instance : IsTrans Analysis KeepsShapes := ⟨fun _ _ _ => Store.KeepsShapes.trans⟩

/-- Steps that do not touch the types. -/
theorem keepsShapes_of_types {α : Type} {m : Analyze α}
    (h : ∀ x, (m x).2.store.types = x.store.types) : Moves KeepsShapes m :=
  fun x => .ofTypes (h x)

theorem onTypes_keepsShapes {α : Type} {f : TypeStore → α × TypeStore}
    (h : ∀ types : TypeStore, types.Interns TypeKey.Shapeless (f types).2) :
    Moves KeepsShapes (onTypes f) := fun x => Store.onTypes_keepsShapes h x.store

theorem onStore_keepsShapes {α : Type} {m : StateM Store α} (hm : Moves Store.KeepsShapes m) :
    Moves KeepsShapes (Analyze.onStore m) := fun x => hm x.store

instance : Forming KeepsShapes where
  interns h := onTypes_keepsShapes fun types => (h types).mono fun _ hkey => hkey.2
  functions x shape hfits := by
    refine ⟨fun l ts hl => ?_, fun hx => hx.function hfits⟩
    show (x.store.types.intern (.function shape)).2.lists.get? l.index = some ts
    rw [TypeStore.lists_intern]
    exact hl
  targets _ _ _ := ⟨fun _ _ => id, fun hx t shape ht => (hx t shape ht).mono fun _ => id⟩
  reports _ _ := keepsShapes_of_types fun _ => rfl

instance : Evaluating KeepsShapes where
  applications :=
    TypeExpr.application_moves fun _ _ _ => keepsShapes_of_types fun _ => rfl

instance (a : Arena) : Declaring a KeepsShapes where
  typed _ _ _ := keepsShapes_of_types fun _ => rfl
  cyclic _ := keepsShapes_of_types fun _ => rfl
  aliases _ _ := onTypes_keepsShapes fun types => .intern types (by simp [TypeKey.Shapeless])

instance : Annotating KeepsShapes where
  sets _ _ := keepsShapes_of_types fun _ => rfl
  setsIfNew _ _ := keepsShapes_of_types fun _ => rfl
  declares _ _ := keepsShapes_of_types fun _ => rfl

instance (a : Arena) : Building a KeepsShapes where
  notesBases _ _ := keepsShapes_of_types fun _ => rfl
  finalizes cls := by
    refine onStore_keepsShapes (.bind .get fun s => ?_)
    split
    · exact .bind (Store.linearize_applies _) fun _ => Store.onValues_keepsShapes _
    · exact .pure _
  completes := onStore_keepsShapes
    (Store.finalizeAllConstructed_moves Store.finalizeConstructed_keepsShapes)

end Analysis

namespace Typing

open Analysis

theorem run_keepsShapes (a : Arena) (root : NodeRef) : Moves KeepsShapes (run a root) := by
  refine .bind (.forM fun n _ => visit_moves n) fun _ => .bind .get fun x => ?_
  refine .bind (.forM fun v _ => propagate_moves v) fun _ => ?_
  exact onStore_keepsShapes
    (Store.finalizeAllConstructed_moves Store.finalizeConstructed_keepsShapes)

end Typing

/-! ## Names -/

namespace Binder

/-- The shapes of functions go on to fit. -/
def KeepsShapes (b b' : Binder) : Prop := b.analysis.KeepsShapes b'.analysis

variable {a : Arena}

instance : Std.Refl KeepsShapes := ⟨fun b => Std.Refl.refl b.analysis⟩

instance : IsTrans Binder KeepsShapes := ⟨fun _ _ _ => Store.KeepsShapes.trans⟩

/-- Steps that do not touch the types. -/
theorem keepsShapes_of_types {α : Type} {m : Bind α}
    (h : ∀ b, (m b).2.analysis.store.types = b.analysis.store.types) : Moves KeepsShapes m :=
  fun b => .ofTypes (h b)

theorem onTypes_keepsShapes {α : Type} {f : TypeStore → α × TypeStore}
    (h : ∀ types : TypeStore, types.Interns TypeKey.Shapeless (f types).2) :
    Moves KeepsShapes (Bind.onAnalysis (Analysis.onTypes f)) :=
  fun b => Analysis.onTypes_keepsShapes h b.analysis

theorem setValue_keepsShapes (r : NodeRef) (v : ValueId) :
    Moves KeepsShapes (Bind.onAnalysis (Analysis.setValue r v)) :=
  keepsShapes_of_types fun _ => rfl

theorem setType_keepsShapes (r : NodeRef) (t : TypeId) :
    Moves KeepsShapes (Bind.onAnalysis (Analysis.setType r t)) :=
  keepsShapes_of_types fun _ => rfl

theorem onValues_keepsShapes {α : Type} (f : ValueStore → α × ValueStore) :
    Moves KeepsShapes (Bind.onAnalysis (Analysis.onValues f)) :=
  keepsShapes_of_types fun _ => rfl

theorem modifyValues_keepsShapes (f : ValueStore → ValueStore) :
    Moves KeepsShapes (Bind.onAnalysis (Analysis.modifyValues f)) :=
  keepsShapes_of_types fun _ => rfl

theorem updateScope_keepsShapes (id : ScopeId) (f : Scope → Scope) :
    Moves KeepsShapes (updateScope id f) := keepsShapes_of_types fun _ => rfl

theorem declareVariable_keepsShapes (id : ScopeId) (binding : NodeRef) :
    Moves KeepsShapes (declareVariable a id binding) := by
  refine .bind .get fun b => ?_
  split
  · exact keepsShapes_of_types fun _ => rfl
  · exact keepsShapes_of_types fun _ => rfl

theorem declareType_keepsShapes (id : ScopeId) (name : NodeRef) (t : TypeId) :
    Moves KeepsShapes (declareType a id name t) := by
  refine .bind .get fun b => ?_
  split
  · exact keepsShapes_of_types fun _ => rfl
  · exact updateScope_keepsShapes _ _

theorem bindReference_keepsShapes (node : NodeRef) (target : ValueId) (assigned : NodeRef) :
    Moves KeepsShapes (bindReference node target assigned) := by
  refine .bind (setValue_keepsShapes _ _) fun _ => .bind (modifyValues_keepsShapes _) fun _ => ?_
  exact .ite (fun _ => modifyValues_keepsShapes _) fun _ => .pure _

theorem visitIdentifier_keepsShapes (node assigned : NodeRef) :
    Moves KeepsShapes (visitIdentifier a node assigned) := by
  refine .bind .get fun b => ?_
  dsimp only
  split
  · exact .bind (bindReference_keepsShapes _ _ _) fun _ => .pure _
  · exact .bind (updateScope_keepsShapes _ _) fun _ => .pure _
  · refine .ite (fun _ => .bind (setValue_keepsShapes _ _) fun _ => .pure _) fun _ => ?_
    exact .ite (fun _ => .pure _) fun _ => .bind (updateScope_keepsShapes _ _) fun _ => .pure _

theorem visitMember_keepsShapes (n : Nat) (object : ValueId) (create : Bool) :
    Moves KeepsShapes (visitMember a n object create) := by
  refine .bind .get fun b => ?_
  dsimp only
  refine .ite (fun _ => ?_) fun _ => ?_
  · refine .bind (onValues_keepsShapes _) fun _ => .bind (setValue_keepsShapes _ _) fun _ => ?_
    exact .bind (setValue_keepsShapes _ _) fun _ => .pure _
  · split
    · exact .pure _
    · refine .bind (setValue_keepsShapes _ _) fun _ => .bind (setValue_keepsShapes _ _) fun _ => ?_
      exact .bind (modifyValues_keepsShapes _) fun _ => .pure _

theorem visitTypeName_keepsShapes (n : Nat) : Moves KeepsShapes (visitTypeName a n) := by
  unfold visitTypeName
  dsimp only
  split
  · refine .ite (fun _ => .pure _) fun _ => .bind .get fun b => ?_
    split
    · exact setType_keepsShapes _ _
    · exact updateScope_keepsShapes _ _
    · exact updateScope_keepsShapes _ _
  · exact .ite (fun _ => (visitIdentifier_keepsShapes _ _).discard) fun _ => .pure _
  · exact .pure _

theorem retry_keepsShapes (reportUndefined : Bool) (scope : Scope) (p : Parked) :
    Moves KeepsShapes (retry a reportUndefined scope p) := by
  unfold retry
  split
  · exact bindReference_keepsShapes _ _ _
  · exact setType_keepsShapes _ _
  · split
    · exact updateScope_keepsShapes _ _
    · exact .ite (fun _ => keepsShapes_of_types fun _ => rfl) fun _ => .pure _

theorem exitScope_keepsShapes (reportUndefined : Bool) :
    Moves KeepsShapes (exitScope a reportUndefined) := by
  refine .bind .get fun b => .bind .get fun b' => ?_
  split
  · exact .pure _
  · next scope _ =>
    refine .bind (updateScope_keepsShapes _ _) fun _ => ?_
    refine .bind (.forM fun p _ => retry_keepsShapes reportUndefined scope p) fun _ => ?_
    refine .bind (updateScope_keepsShapes _ _) fun _ => ?_
    split
    · exact keepsShapes_of_types fun _ => rfl
    · exact .pure _

/-- No act makes a function type. -/
theorem KeepsShapes.act (act : Act) (reportUndefined : Bool) :
    Moves KeepsShapes (act.run a reportUndefined) := by
  cases act with
  | enter | compile | keepComment | nameType | report | makeClass =>
    exact keepsShapes_of_types fun _ => rfl
  | exit => exact exitScope_keepsShapes reportUndefined
  | reserve id space name => exact updateScope_keepsShapes id _
  | bindName id binding => exact (declareVariable_keepsShapes id binding).discard
  | bindType id name t => exact declareType_keepsShapes id name t
  | template name =>
    refine .bind (onTypes_keepsShapes fun types => ?_) fun t => setType_keepsShapes _ t
    exact .intern types (by simp [TypeKey.Shapeless])
  | identifier node assigned => exact (visitIdentifier_keepsShapes node assigned).discard
  | member n owner create => exact (visitMember_keepsShapes n owner create).discard
  | typeReference n => exact visitTypeName_keepsShapes n
  | function | object | property => exact (onValues_keepsShapes _).discard
  | value r v => exact setValue_keepsShapes r v
  | write v node => exact modifyValues_keepsShapes _
  | instanceType cls =>
    refine Moves.discard (onTypes_keepsShapes fun types => ?_)
    exact .intern types (by simp [TypeKey.Shapeless])
  | aliasType doc name =>
    refine Moves.discard (onTypes_keepsShapes fun types => ?_)
    exact .intern types (by simp [TypeKey.Shapeless])

end Binder

namespace Analysis

/-- Before the first pass there is no function type. -/
theorem shapesFit_new (a : Arena) : (new a).store.types.ShapesFit := by
  intro t shape ht
  have hintrinsic := (Store.intrinsic_of_key?_new ht).1
  cases hintrinsic

theorem bindNames_keepsShapes (a : Arena) (reportUndefined : Bool) (root : NodeRef) :
    (bindNames a reportUndefined root (new a)).2.store.types.ShapesFit := by
  obtain ⟨acts, hrun, hsound, -⟩ := bindNames_acts a reportUndefined root 0
  rw [hrun]
  refine Binder.doAll_induction (I := fun b => b.analysis.store.types.ShapesFit) hsound ?_ ?_
  · exact shapesFit_new a
  · exact fun act _ b hb => (Binder.KeepsShapes.act act reportUndefined b).fit hb

/-- After some of the passes the function types fit. -/
theorem shapesFit_runPasses (a : Arena) (reportUndefined : Bool) (root : NodeRef) (count : Nat) :
    (runPasses a reportUndefined root count).store.types.ShapesFit := by
  have hnames := bindNames_keepsShapes a reportUndefined root
  have hbuilt := (Hierarchy.build_moves (a := a) (R := KeepsShapes) _).fit hnames
  have htyped := (Typing.run_keepsShapes a root _).fit hbuilt
  unfold runPasses passes
  exact @foldl_take_cases (fun x => x.store.types.ShapesFit) _ _ _ _ (shapesFit_new a) hnames
    hbuilt htyped count

end Analysis

/-! ## Going back -/

/-- What fits after a change fitted before. -/
theorem Store.Change.shapesFit {s t : Store} (h : s.Change t) (hs : s.Closed)
    (ht : t.types.ShapesFit) : s.types.ShapesFit := by
  intro u shape hu
  have hkeeps := (h.retains hs).keeps
  have hfits := ht u shape (hkeeps.key u _ hu)
  have hknown : s.ListKnown shape.parameters := (hs.canonical.keyKnown u _ hu).1
  refine ⟨hknown, ?_, hfits.min_le, hfits.min_lt⟩
  rw [hfits.max, hkeeps.list _ hknown]

namespace Analysis

/-- What fits after changes fitted before. -/
theorem shapesFit_of_changes {x y : Analysis} (hx : x.Closed) (h : ReflTransGen Change x y)
    (hy : y.store.types.ShapesFit) : x.store.types.ShapesFit := by
  induction h using ReflTransGen.head_induction_on with
  | refl => exact hy
  | head hstep _ ih =>
    have hfit := ih (hstep.closed hx).1
    cases hstep with
    | store s hchange => exact hchange.shapesFit hx.store hfit
    | _ => exact hfit

end Analysis

/-! ## Every step -/

/-- The type of a declaration's function is a function type. -/
theorem Signature.key?_functionType (a : Arena) (doc : Option DocComment) (d : Declaration)
    (kind : FunctionKind) (x : Analysis) :
    ∃ shape, (functionType a doc d kind x).2.store.types.key? (functionType a doc d kind x).1 =
      some (.function shape) := by
  cases kind with
  | constructor => exact ⟨_, TypeStore.key?_intern _ (.function _)⟩
  | normal => exact ⟨_, TypeStore.key?_intern _ (.function _)⟩

namespace Analysis

/-- **Function types fit their arities.** At every step of a run, the arity of a function type
counts as many parameters as are in its list, no more of them are required than there are, and fewer
if the last one takes the rest. From any state with such types, putting types in for parameters,
working out bases and ancestors and a type expression in any position lead to another, and so do the
function types of declarations, with or without a function, a comment or a class. -/
theorem runPasses_shapesFit (a : Arena) (reportUndefined : Bool) (root : NodeRef) (count : Nat) :
    ReflTransGen Change (new a) (runPasses a reportUndefined root count) ∧
      (∀ x, ReflTransGen Change (new a) x →
        ReflTransGen Change x (runPasses a reportUndefined root count) →
        x.store.types.ShapesFit) ∧
      (∀ s : Store, s.types.ShapesFit →
        (∀ sub t, (Store.instantiate sub t s).2.types.ShapesFit) ∧
        (∀ sub v, (Store.instantiateClass sub v s).2.types.ShapesFit) ∧
        (∀ v, (Store.directBases v s).2.types.ShapesFit) ∧
        ∀ bases, (Store.linearize bases s).2.types.ShapesFit) ∧
      ∀ x : Analysis, x.store.types.ShapesFit →
        (∀ r position, (TypeExpr.transform a r position x).2.store.types.ShapesFit) ∧
        ∀ doc d kind, (Signature.functionType a doc d kind x).2.store.types.ShapesFit ∧
          ∃ shape, (Signature.functionType a doc d kind x).2.store.types.key?
              (Signature.functionType a doc d kind x).1 = some (.function shape) ∧
            (Signature.functionType a doc d kind x).2.store.types.Fits shape := by
  refine ⟨(runPasses_steps a _ root count).steps, fun x hx hend => ?_, fun s hs => ⟨fun sub t => ?_,
    fun sub v => ?_, fun v => ?_, fun bases => ?_⟩, fun x hx => ⟨fun r position => ?_,
    fun doc d kind => ?_⟩⟩
  · have hclosed := ((closed_new a).leads hx).closed
    exact shapesFit_of_changes hclosed hend (shapesFit_runPasses a reportUndefined root count)
  · exact (Store.instantiateTo_applies (R := Store.KeepsShapes) sub _ t s).fit hs
  · exact (Store.Substituting.instantiates (R := Store.KeepsShapes)
      (Store.instantiateTo_applies sub _) v s).fit hs
  · exact (Store.directBases_applies (R := Store.KeepsShapes) v s).fit hs
  · exact (Store.linearize_applies (R := Store.KeepsShapes) bases s).fit hs
  · exact (TypeExpr.transform_moves (R := KeepsShapes) r position x).fit hx
  · have hfit := (Signature.functionType_moves (R := KeepsShapes) (a := a) doc d kind x).fit hx
    obtain ⟨shape, hkey⟩ := Signature.key?_functionType a doc d kind x
    exact ⟨hfit, shape, hkey, hfit _ shape hkey⟩

/-- `/** @param {number} p @param {...string} q */ function f(p, q) {}`. -/
def restFunction : Build NodeRef := do
  let number ← Builder.simple .typeName [← Builder.identifier "number"]
  let first ← Builder.tag "param" [number, ← Builder.documentName "p"]
  let rest ← Builder.restType (← Builder.simple .typeName [← Builder.identifier "string"])
  let second ← Builder.tag "param" [rest, ← Builder.documentName "q"]
  let document ← Builder.document [first, second]
  let function ← Builder.functionDeclaration "f" (← Builder.parameterNames ["p", "q"]) []
  Builder.script [← Builder.annotated document function]

/-- The type of this function takes a number and, maybe, strings. -/
def restFunctionShape : FunctionShape :=
  { parameters := ⟨1⟩, arity := { min := 1, max := 2, hasRest := true } }

/-- In this tree, the type of the function is there after all passes, and it fits. -/
theorem restFunction_shapesFit :
    let tree := restFunction Builder.new
    let x := runPasses tree.2.arena true tree.1 3
    ReflTransGen Change (new tree.2.arena) x ∧
      x.store.types.key? ⟨1000⟩ = some (.function restFunctionShape) ∧
      x.store.types.Fits restFunctionShape ∧
      (Store.instantiate {} ⟨1000⟩ x.store).2.types.ShapesFit := by
  intro tree x
  obtain ⟨hsteps, hfit, hkeeps, -⟩ := runPasses_shapesFit tree.2.arena true tree.1 3
  have hend : x.store.types.ShapesFit := hfit x hsteps .refl
  have hkey : x.store.types.key? ⟨1000⟩ = some (.function restFunctionShape) := by
    decide +kernel
  obtain ⟨hinstantiate, -⟩ := hkeeps x.store hend
  exact ⟨hsteps, hkey, hend _ _ hkey, hinstantiate {} ⟨1000⟩⟩

end Analysis

end DocTypes
