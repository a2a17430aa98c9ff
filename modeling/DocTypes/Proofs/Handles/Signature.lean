import DocTypes.Proofs.Handles.TypeExpr
import DocTypes.Signature.Declared

/-!
# Handles in declared types

Reading the parameters of a function and working out the type that a comment declares lead
from closed states to closed states, and the types that come out are known. The class of a
declaration has to be a class, and its receiver a known type.

## Main statements

* `Signature.parameters_runs`: the types of the parameters are known.
* `Signature.declaredType_runs`: the type that a comment declares is known.
-/

namespace DocTypes

namespace Signature

open Analysis

variable {x : Analysis}

/-! ## Parameters -/

/-- The types of the parameters read so far are known. -/
def ParametersKnown (s : Parameters) (x : Analysis) : Prop := ∀ t ∈ s.types, x.store.Known t

theorem ParametersKnown.mono {y : Analysis} (h : x.Leads y) {s : Parameters}
    (hs : ParametersKnown s x) : ParametersKnown s y := fun t ht => h.known (hs t ht)

theorem ParametersKnown.addType {s : Parameters} (hs : ParametersKnown s x) {t : TypeId}
    (ht : x.store.Known t) : ParametersKnown (s.addType t) x := by
  intro u hu
  rcases List.mem_append.1 hu with hu | hu
  · exact hs u hu
  · exact List.mem_singleton.1 hu ▸ ht

theorem countKind_runs (hx : x.Closed) (a : Arena) {s : Parameters} (hs : ParametersKnown s x)
    (kind : ParameterKind) (node : NodeRef) :
    Runs Leads x (s.countKind a kind node) ParametersKnown := by
  unfold Parameters.countKind
  dsimp only
  split
  · exact (reportAt_runs hx a _ _).bind fun _ y hy _ => pure_runs hy.closed (hs.mono hy)
  · exact pure_runs hx hs

theorem pushTag_runs (hx : x.Closed) (a : Arena) {s : Parameters} (hs : ParametersKnown s x)
    (tag : Nat) : Runs Leads x (pushTag a s tag) ParametersKnown := by
  refine (countKind_runs hx a hs _ _).bind fun s y hy hs => ?_
  refine (TypeExpr.transform_runs hy.closed a _ .parameter).bind fun t z hz ht => ?_
  exact pure_runs hz.closed ((hs.mono hz).addType ht)

/-- The type that is found for a parameter, with its kind, is known. -/
def EntryKnown (r : ParameterKind × TypeId) (x : Analysis) : Prop := x.store.Known r.2

theorem taggedType_runs (hx : x.Closed) (a : Arena) (e : Entry) (tag : Nat) :
    Runs Leads x (taggedType a e tag) EntryKnown := by
  have htyped {y : Analysis} (hy : y.Closed) (operand : NodeRef) (declared : ParameterKind) :
      Runs Leads y (do
        let type ← TypeExpr.transform a operand .parameter
        if e.hasDefault && declared = .required then
          return (declared, ← TypeExpr.union2 type .void)
        else return (declared, type)) EntryKnown := by
    refine (TypeExpr.transform_runs hy a operand .parameter).bind fun t z hz ht => ?_
    refine .ite (fun _ => ?_) fun _ => pure_runs hz.closed ht
    have hvoid : z.store.Known .void := z.store.known_of_lt (by decide)
    exact (TypeExpr.union2_runs hz.closed ht hvoid).bind fun u w hw hu => pure_runs hw.closed hu
  unfold taggedType
  dsimp only
  split
  · exact (reportAt_runs hx a _ _).bind fun _ y hy _ => htyped hy.closed _ _
  · exact htyped hx _ _

theorem untaggedType_runs (hx : x.Closed) (a : Arena) (doc : Option DocComment) (e : Entry) :
    Runs Leads x (untaggedType a doc e) EntryKnown := by
  have hpure {y : Analysis} (hy : y.Closed) :
      Runs Leads y (pure (.required, .unspecified)) EntryKnown :=
    pure_runs hy (@Store.known_of_lt y.store .unspecified (by decide))
  unfold untaggedType
  split
  · exact (reportAt_runs hx a _ _).bind fun _ y hy _ => hpure hy.closed
  · exact hpure hx

theorem pushEntry_runs (hx : x.Closed) (a : Arena) (doc : Option DocComment) {s : Parameters}
    (hs : ParametersKnown s x) (e : Entry) :
    Runs Leads x (pushEntry a doc s e) ParametersKnown := by
  have hfound : ∀ found : ParameterKind × TypeId, ∀ y, x.Leads y → EntryKnown found y →
      Runs Leads y (do
        let s ← s.countKind a (e.kind found.1) e.node
        return s.addType found.2) ParametersKnown := by
    intro found y hy hfound
    refine (countKind_runs hy.closed a (hs.mono hy) _ _).bind fun s z hz hs => ?_
    exact pure_runs hz.closed (hs.addType (hz.known hfound))
  unfold pushEntry
  split
  · exact (taggedType_runs hx a e _).bind hfound
  · exact (untaggedType_runs hx a doc e).bind hfound

/-- The types of the parameters of a function are known. -/
theorem parameters_runs (hx : x.Closed) (a : Arena) (doc : Option DocComment) (function : NodeRef) :
    Runs Leads x (parameters a doc function) ParametersKnown := by
  have hstart : ParametersKnown {} x := fun t ht => (List.not_mem_nil ht).elim
  have hlist (doc : Option DocComment) : Runs Leads x (ofList a doc function) ParametersKnown := by
    refine (Runs.foldlM (.refl hx) hstart fun s e _ y hy hs =>
      pushEntry_runs hy.closed a doc hs e).bind fun s y hy hs => ?_
    split
    · refine (Runs.forM (.refl hy.closed) fun tag _ z hz =>
        reportAt_runs hz.closed a _ _).bind fun _ z hz _ => ?_
      exact pure_runs hz.closed (hs.mono hz)
    · exact pure_runs hy.closed hs
  unfold parameters
  split
  · exact Runs.foldlM (.refl hx) hstart fun s tag _ y hy hs => pushTag_runs hy.closed a hs tag
  · exact hlist _

/-! ## Declared types -/

/-- What a declaration stands on is there. -/
structure DeclarationKnown (d : Declaration) (x : Analysis) : Prop where
  cls : ∀ v, d.cls = some v → (x.store.values.class? v).isSome
  receiver : ∀ t, d.receiver = some t → x.store.Known t

theorem DeclarationKnown.mono {y : Analysis} (h : x.Leads y) {d : Declaration}
    (hd : DeclarationKnown d x) : DeclarationKnown d y :=
  ⟨fun v hv => h.class? (hd.cls v hv), fun t ht => h.known (hd.receiver t ht)⟩

theorem instanceTypeOf_runs (hx : x.Closed) {cls : Option ValueId}
    (hcls : ∀ v, cls = some v → (x.store.values.class? v).isSome) :
    Runs Leads x (instanceTypeOf cls) fun t y => y.store.Known t := by
  cases cls with
  | none => exact pure_runs hx (x.store.known_of_lt (by decide))
  | some v => exact onStore_runs hx (Store.instanceOf_runs hx.store (hcls v rfl))

theorem receiverType_runs (hx : x.Closed) (a : Arena) (doc : Option DocComment) {d : Declaration}
    (hd : DeclarationKnown d x) :
    Runs Leads x (receiverType a doc d) fun t y => y.store.Known t := by
  unfold receiverType
  split
  · refine (TypeExpr.transform_runs hx a _ .plain).bind fun t y hy ht => ?_
    have hnull : y.store.Known .null := y.store.known_of_lt (by decide)
    exact onStore_runs hy.closed (Store.removeMember_runs hy.closed.store ht hnull)
  · refine pure_runs hx ?_
    cases hreceiver : d.receiver with
    | none => exact @Store.known_of_lt x.store .unspecified (by decide)
    | some t => exact hd.receiver t hreceiver

theorem returnType_runs (hx : x.Closed) (a : Arena) (doc : Option DocComment) :
    Runs Leads x (returnType a doc) fun t y => y.store.Known t := by
  unfold returnType
  split
  · exact TypeExpr.transform_runs hx a _ .plain
  · exact pure_runs hx (x.store.known_of_lt (by decide))

theorem known_typeParameters (hx : x.Closed) {doc : Option DocComment} {t : TypeId}
    (ht : t ∈ typeParameters x doc) : x.store.Known t := by
  cases doc with
  | none => exact (List.not_mem_nil ht).elim
  | some doc =>
    obtain ⟨name, -, hname⟩ := List.mem_filterMap.1 ht
    exact hx.types _ t hname

theorem functionType_runs (hx : x.Closed) (a : Arena) (doc : Option DocComment) {d : Declaration}
    (hd : DeclarationKnown d x) (kind : FunctionKind) :
    Runs Leads x (functionType a doc d kind) fun t y => y.store.Known t := by
  have hrest : ∀ thisType y, x.Leads y → y.store.Known thisType →
      Runs Leads y (do
        let parameters ← parameters a doc d.function
        let returnType ← returnType a doc
        let typeParameters := typeParameters (← get) doc
        let types ← Analysis.onTypes (·.internList parameters.types)
        let typeParameters ← Analysis.onTypes (·.internList typeParameters)
        Analysis.onTypes (·.function
          { kind, parameters := types, arity := parameters.count.arity, thisType, returnType
            typeParameters })) fun t y => y.store.Known t := by
    intro thisType y hy hthis
    refine (parameters_runs hy.closed a doc _).bind fun parameters x₁ h₁ hparameters => ?_
    refine (returnType_runs h₁.closed a doc).bind fun returnType x₂ h₂ hreturn => .get_bind ?_
    have htypes : ∀ t ∈ parameters.types, x₂.store.Known t := hparameters.mono h₂
    refine (onStore_runs h₂.closed (Store.internList_runs h₂.closed.store htypes)).bind ?_
    intro types x₃ h₃ htypes
    have htemplates : ∀ t ∈ typeParameters x₂ doc, x₃.store.Known t :=
      fun t ht => h₃.known (known_typeParameters h₂.closed ht)
    refine (onStore_runs h₃.closed (Store.internList_runs h₃.closed.store htemplates)).bind ?_
    intro templates x₄ h₄ htemplates
    have hlast := h₂.trans (h₃.trans h₄)
    refine onStore_runs h₄.closed (Store.function_runs h₄.closed.store ⟨?_, ?_, ?_, ?_⟩)
    · exact h₄.listKnown htypes
    · exact (h₁.trans hlast).known hthis
    · exact (h₃.trans h₄).known hreturn
    · exact htemplates
  unfold functionType
  cases kind with
  | constructor => exact (instanceTypeOf_runs hx hd.cls).bind hrest
  | normal => exact (receiverType_runs hx a doc hd).bind hrest

theorem aliasType_runs (hx : x.Closed) (a : Arena) (doc : DocComment) (slot : TagSlot)
    (name : Atom) : Runs Leads x (aliasType a doc slot name) fun t y => y.store.Known t := by
  refine (onStore_runs hx (Store.aliasOf_runs hx.store name _)).bind fun t y hy ht => ?_
  refine (TypeExpr.resolveAlias_runs hy.closed a ht).bind fun _ z hz _ => ?_
  exact pure_runs hz.closed (hz.known ht)

/-- The type that a comment declares is known. -/
theorem declaredType_runs (hx : x.Closed) (a : Arena) (doc : DocComment) {d : Declaration}
    (hd : DeclarationKnown d x) :
    Runs Leads x (declaredType a doc d) fun t y => y.store.Known t := by
  unfold declaredType
  split
  · exact functionType_runs hx a _ hd _
  · exact instanceTypeOf_runs hx hd.cls
  · exact functionType_runs hx a _ hd _
  · exact TypeExpr.transform_runs hx a _ .plain
  · exact TypeExpr.transform_runs hx a _ .plain
  · exact aliasType_runs hx a doc _ _
  · exact aliasType_runs hx a doc _ _
  · exact pure_runs hx (x.store.known_of_lt (by decide))
  · refine .ite (fun _ => functionType_runs hx a _ hd _) fun _ => ?_
    exact pure_runs hx (x.store.known_of_lt (by decide))

end Signature

end DocTypes
