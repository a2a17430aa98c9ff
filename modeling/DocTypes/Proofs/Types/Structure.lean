import DocTypes.Store
import Mathlib.Data.List.Basic

/-!
# What the number of a type unfolds to

A number stands for a key, a key names other numbers, and so on down to the types without
parts. `Store.unfold` follows the numbers all the way and gives the `Structure` they spell
out: a tree in which nothing is named by number any more, except the values that are no
constructed classes, which are only themselves.

A union is a set and a record is a map, so two structures are compared by
`Structure.Same`, which does not look at the order in which members and fields are
listed. An alias is a name and a tag; what it stands for is not part of its structure.

The unfolding goes down to smaller numbers. `Store.unfoldTo` counts the steps, and the
bound `t.index + 1` that `Store.unfold` gives it is not felt in a store where the parts of
every type have smaller numbers (`Store.Descends`).

## Main statements

* `Store.unfold_eq`: a number unfolds to one layer of its key over what its parts unfold to.
* `Store.unfold_of_extends`: a store that grows keeps the structure of every number.
-/

namespace DocTypes

/-- What a type is made of, with nothing left to look up. -/
inductive Structure where
  /-- A type without parts: an intrinsic type, a type parameter or an alias. -/
  | leaf (key : TypeKey)
  /-- A value that is no constructed class. -/
  | value (v : ValueId)
  /-- A constructed class. -/
  | applied (generic : Structure) (arguments : List Structure)
  | instanceOf (cls : Structure)
  | constructedInstanceOf (cls : Structure)
  | reference (value : Structure)
  | function (kind : FunctionKind) (arity : Arity) (parameters : List Structure)
      (thisType returnType : Structure) (typeParameters : List Structure)
  | tuple (elements : List Structure)
  /-- The members of a union, of which only the set counts. -/
  | union (members : List Structure)
  /-- The fields of a record, of which only the map from labels to types counts. -/
  | record (fields : List (Atom × Structure))
  | labeled (label : Atom) (type : Structure)
  /-- A number that stands for nothing. -/
  | missing

namespace Structure

theorem sizeOf_getElem_lt {xs : List Structure} {i : Nat} (h : i < xs.length) :
    sizeOf xs[i] < sizeOf xs := List.sizeOf_lt_of_mem (List.getElem_mem h)

theorem mem_of_lookup_eq_some {β : Type} {fields : List (Atom × β)} {label : Atom} {x : β}
    (h : fields.lookup label = some x) : (label, x) ∈ fields := by
  induction fields with
  | nil => simp at h
  | cons field rest ih =>
    obtain ⟨l, y⟩ := field
    by_cases hl : label = l
    · subst hl
      simp only [List.lookup_cons_self, Option.some.injEq] at h
      simp [h]
    · have hrest : rest.lookup label = some x := by
        rwa [List.lookup_cons, show (label == l) = false by simpa using hl] at h
      exact List.mem_cons_of_mem _ (ih hrest)

theorem sizeOf_lookup_lt {fields : List (Atom × Structure)} {label : Atom} {x : Structure}
    (h : fields.lookup label = some x) : sizeOf x < sizeOf fields := by
  have hmem := List.sizeOf_lt_of_mem (mem_of_lookup_eq_some h)
  simp only [Prod.mk.sizeOf_spec] at hmem
  omega

/-- Two structures are the same, unions taken as sets and records as maps. -/
def Same : Structure → Structure → Prop
  | .leaf k, .leaf l => k = l
  | .value v, .value w => v = w
  | .applied g xs, .applied h ys =>
    Same g h ∧ xs.length = ys.length ∧
      ∀ (i : Nat) (hx : i < xs.length) (hy : i < ys.length), Same xs[i] ys[i]
  | .instanceOf x, .instanceOf y => Same x y
  | .constructedInstanceOf x, .constructedInstanceOf y => Same x y
  | .reference x, .reference y => Same x y
  | .function kind arity xs this result ts, .function kind' arity' ys this' result' us =>
    kind = kind' ∧ arity = arity' ∧ Same this this' ∧ Same result result' ∧
      xs.length = ys.length ∧ ts.length = us.length ∧
      (∀ (i : Nat) (hx : i < xs.length) (hy : i < ys.length), Same xs[i] ys[i]) ∧
      ∀ (i : Nat) (ht : i < ts.length) (hu : i < us.length), Same ts[i] us[i]
  | .tuple xs, .tuple ys =>
    xs.length = ys.length ∧
      ∀ (i : Nat) (hx : i < xs.length) (hy : i < ys.length), Same xs[i] ys[i]
  | .union xs, .union ys =>
    (∀ x ∈ xs, ∃ y ∈ ys, Same x y) ∧ ∀ y ∈ ys, ∃ x, ∃ _ : x ∈ xs, Same x y
  | .record fs, .record gs =>
    (∀ label, (fs.lookup label).isSome = (gs.lookup label).isSome) ∧
      ∀ label x y, fs.lookup label = some x → gs.lookup label = some y → Same x y
  | .labeled label x, .labeled label' y => label = label' ∧ Same x y
  | .missing, .missing => True
  | _, _ => False
termination_by x => x
decreasing_by
  all_goals simp only [applied.sizeOf_spec, instanceOf.sizeOf_spec,
    constructedInstanceOf.sizeOf_spec, reference.sizeOf_spec, function.sizeOf_spec,
    tuple.sizeOf_spec, union.sizeOf_spec, record.sizeOf_spec, labeled.sizeOf_spec]
  · omega
  · have := sizeOf_getElem_lt hx
    omega
  · omega
  · omega
  · omega
  · omega
  · omega
  · have := sizeOf_getElem_lt hx
    omega
  · have := sizeOf_getElem_lt ht
    omega
  · have := sizeOf_getElem_lt hx
    omega
  · have := List.sizeOf_lt_of_mem ‹x ∈ xs›
    omega
  · have := List.sizeOf_lt_of_mem ‹x ∈ xs›
    omega
  · have := sizeOf_lookup_lt ‹fs.lookup label = some x›
    omega
  · omega

/-- Every structure is the same as itself. -/
theorem Same.refl (x : Structure) : Same x x := by
  match x with
  | .leaf _ | .value _ | .missing => simp [Same]
  | .applied g xs =>
    simp only [Same, true_and]
    exact ⟨Same.refl g, fun i hx _ => have := sizeOf_getElem_lt hx; Same.refl xs[i]⟩
  | .instanceOf x | .constructedInstanceOf x | .reference x =>
    simp only [Same]
    exact Same.refl x
  | .function kind arity xs this result ts =>
    simp only [Same, true_and]
    exact ⟨Same.refl this, Same.refl result,
      fun i hx _ => have := sizeOf_getElem_lt hx; Same.refl xs[i],
      fun i ht _ => have := sizeOf_getElem_lt ht; Same.refl ts[i]⟩
  | .tuple xs =>
    simp only [Same, true_and]
    exact fun i hx _ => have := sizeOf_getElem_lt hx; Same.refl xs[i]
  | .union xs =>
    simp only [Same]
    exact ⟨fun y hy => ⟨y, hy, have := List.sizeOf_lt_of_mem hy; Same.refl y⟩,
      fun y hy => ⟨y, hy, have := List.sizeOf_lt_of_mem hy; Same.refl y⟩⟩
  | .record fs =>
    simp only [Same]
    refine ⟨fun _ => trivial, ?_⟩
    intro label y z hy hz
    obtain rfl : y = z := Option.some.inj (hy.symm.trans hz)
    have := sizeOf_lookup_lt hy
    exact Same.refl y
  | .labeled label x =>
    simp only [Same, true_and]
    exact Same.refl x
termination_by x

end Structure

/-- What a constructed class applies to what. -/
def ValueStore.application? (s : ValueStore) (v : ValueId) : Option Application :=
  (s.constructed? v).map fun cls => ⟨cls.generic, cls.arguments⟩

namespace Store

/-! ## Unfolding -/

/-- The structure of a value, over the structures `f` of types, after at most `steps`
generic classes. -/
def valueTo (s : Store) (f : TypeId → Structure) : (steps : Nat) → ValueId → Structure
  | 0, v => .value v
  | steps + 1, v =>
    match s.values.application? v with
    | some x => .applied (s.valueTo f steps x.generic) ((s.types.list x.arguments).map f)
    | none => .value v

/-- The structure of a value, over the structures `f` of types. -/
def valueStructure (s : Store) (f : TypeId → Structure) (v : ValueId) : Structure :=
  s.valueTo f (v.index + 1) v

/-- The field that a labelled type is, over the structures `f` of types. -/
def field? (s : Store) (f : TypeId → Structure) (t : TypeId) : Option (Atom × Structure) :=
  match s.types.key? t with
  | some (.labeled label type) => some (label, f type)
  | _ => none

/-- One layer: the structure of a key, over the structures `f` of types. -/
def layer (s : Store) (f : TypeId → Structure) : TypeKey → Structure
  | .instanceOf v => .instanceOf (s.valueStructure f v)
  | .constructedInstanceOf v => .constructedInstanceOf (s.valueStructure f v)
  | .reference v => .reference (s.valueStructure f v)
  | .function shape =>
    .function shape.kind shape.arity ((s.types.list shape.parameters).map f) (f shape.thisType)
      (f shape.returnType) ((s.types.list shape.typeParameters).map f)
  | .union l => .union ((s.types.list l).map f)
  | .tuple l => .tuple ((s.types.list l).map f)
  | .record l => .record ((s.types.list l).filterMap (s.field? f))
  | .labeled label type => .labeled label (f type)
  | key => .leaf key

/-- The structure of a type, after at most `steps` layers. -/
def unfoldTo (s : Store) : (steps : Nat) → TypeId → Structure
  | 0, _ => .missing
  | steps + 1, t =>
    match s.types.key? t with
    | some key => s.layer (s.unfoldTo steps) key
    | none => .missing

/-- The structure of a type. -/
def unfold (s : Store) (t : TypeId) : Structure := s.unfoldTo (t.index + 1) t

/-! ## Parts -/

/-- The types a value is applied to, itself or through its generic class. -/
def valueParts (s : Store) : (steps : Nat) → ValueId → List TypeId
  | 0, _ => []
  | steps + 1, v =>
    match s.values.application? v with
    | some x => s.types.list x.arguments ++ s.valueParts steps x.generic
    | none => []

/-- The type inside a labelled type. -/
def labeledPart (s : Store) (t : TypeId) : List TypeId :=
  match s.types.key? t with
  | some (.labeled _ type) => [type]
  | _ => []

/-- The types that the structure of a key is made from. -/
def parts (s : Store) : TypeKey → List TypeId
  | .instanceOf v | .constructedInstanceOf v | .reference v => s.valueParts (v.index + 1) v
  | .function shape =>
    shape.thisType :: shape.returnType ::
      (s.types.list shape.parameters ++ s.types.list shape.typeParameters)
  | .union l | .tuple l => s.types.list l
  | .record l => s.types.list l ++ (s.types.list l).flatMap s.labeledPart
  | .labeled _ type => [type]
  | _ => []

/-- Every part of a type was there before the type. -/
def Descends (s : Store) : Prop :=
  ∀ t key, s.types.key? t = some key → ∀ part ∈ s.parts key, part.index < t.index

theorem valueTo_congr {s : Store} {f g : TypeId → Structure} {steps : Nat} {v : ValueId}
    (h : ∀ t ∈ s.valueParts steps v, f t = g t) : s.valueTo f steps v = s.valueTo g steps v := by
  induction steps generalizing v with
  | zero => rfl
  | succ steps ih =>
    unfold valueParts at h
    unfold valueTo
    cases hv : s.values.application? v with
    | none => rfl
    | some x =>
      simp only [hv, List.mem_append] at h
      simp only [ih fun t ht => h t (.inr ht), List.map_congr_left fun t ht => h t (.inl ht)]

theorem field?_congr {s : Store} {f g : TypeId → Structure} {t : TypeId}
    (h : ∀ u ∈ s.labeledPart t, f u = g u) : s.field? f t = s.field? g t := by
  unfold labeledPart at h
  unfold field?
  split
  · next label type hkey => rw [h type (by simp [hkey])]
  · rfl

/-- A layer looks at the parts of its key only. -/
theorem layer_congr {s : Store} {f g : TypeId → Structure} {key : TypeKey}
    (h : ∀ t ∈ s.parts key, f t = g t) : s.layer f key = s.layer g key := by
  cases key with
  | instanceOf v | constructedInstanceOf v | reference v =>
    simp only [layer, valueStructure, valueTo_congr h]
  | function shape =>
    have hthis := h shape.thisType (by simp [parts])
    have hreturn := h shape.returnType (by simp [parts])
    have hparams : (s.types.list shape.parameters).map f = (s.types.list shape.parameters).map g :=
      List.map_congr_left fun t ht => h t (by simp [parts, ht])
    have htemplates : (s.types.list shape.typeParameters).map f
        = (s.types.list shape.typeParameters).map g :=
      List.map_congr_left fun t ht => h t (by simp [parts, ht])
    simp only [layer, hthis, hreturn, hparams, htemplates]
  | union l | tuple l =>
    have helements : (s.types.list l).map f = (s.types.list l).map g := List.map_congr_left h
    simp only [layer, helements]
  | record l =>
    have hfields : (s.types.list l).filterMap (s.field? f)
        = (s.types.list l).filterMap (s.field? g) := by
      refine List.filterMap_congr fun t ht => field?_congr fun u hu => h u ?_
      exact List.mem_append_right _ (List.mem_flatMap.2 ⟨t, ht, hu⟩)
    simp only [layer, hfields]
  | labeled label type => simp only [layer, h type (by simp [parts])]
  | _ => rfl

/-- Steps beyond the number of a type change nothing. -/
theorem unfoldTo_eq_unfoldTo {s : Store} (hs : s.Descends) {n m : Nat} {t : TypeId}
    (hn : t.index < n) (hm : t.index < m) : s.unfoldTo n t = s.unfoldTo m t := by
  induction n generalizing m t with
  | zero => omega
  | succ n ih =>
    obtain ⟨m, rfl⟩ : ∃ k, m = k + 1 := ⟨m - 1, by omega⟩
    unfold unfoldTo
    cases hkey : s.types.key? t with
    | none => rfl
    | some key =>
      refine layer_congr fun part hpart => ?_
      have hlt : part.index < t.index := hs t key hkey part hpart
      exact ih (by omega) (by omega)

/-- A number unfolds to one layer of its key over what its parts unfold to. -/
theorem unfold_eq {s : Store} (hs : s.Descends) {t : TypeId} {key : TypeKey}
    (hkey : s.types.key? t = some key) : s.unfold t = s.layer s.unfold key := by
  rw [unfold, unfoldTo, hkey]
  refine layer_congr fun part hpart => ?_
  exact unfoldTo_eq_unfoldTo hs (hs t key hkey part hpart) (Nat.lt_succ_self _)

/-! ## Growing stores -/

/-- A type that has a key. -/
def Known (s : Store) (t : TypeId) : Prop := (s.types.key? t).isSome

/-- A list that has a number. -/
def ListKnown (s : Store) (l : ListId) : Prop := (s.types.lists.get? l.index).isSome

/-- A value that is there. -/
def ValueKnown (s : Store) (v : ValueId) : Prop := (s.values.get? v).isSome

/-- Every handle inside a key names something. -/
def KeyKnown (s : Store) : TypeKey → Prop
  | .instanceOf v | .constructedInstanceOf v | .reference v => s.ValueKnown v
  | .function shape =>
    s.ListKnown shape.parameters ∧ s.Known shape.thisType ∧ s.Known shape.returnType ∧
      s.ListKnown shape.typeParameters
  | .union l | .tuple l => s.ListKnown l
  | .record l => s.ListKnown l ∧ ∀ t ∈ s.types.list l, s.Known t
  | .labeled _ type => s.Known type
  | _ => True

/-- Nothing that was there changes: keys, lists and applications stay. -/
structure Extends (s s' : Store) : Prop where
  key : ∀ t k, s.types.key? t = some k → s'.types.key? t = some k
  list : ∀ l, s.ListKnown l → s'.types.list l = s.types.list l
  listKnown : ∀ l, s.ListKnown l → s'.ListKnown l
  valueKnown : ∀ v, s.ValueKnown v → s'.ValueKnown v
  application : ∀ v, s.ValueKnown v → s'.values.application? v = s.values.application? v

/-- The applications of a store name values and lists that are there. -/
def ApplicationsKnown (s : Store) : Prop :=
  ∀ v x, s.values.application? v = some x → s.ValueKnown x.generic ∧ s.ListKnown x.arguments

namespace Extends

theorem refl (s : Store) : Extends s s :=
  ⟨fun _ _ h => h, fun _ _ => rfl, fun _ h => h, fun _ h => h, fun _ _ => rfl⟩

theorem trans {s s' s'' : Store} (h : Extends s s') (h' : Extends s' s'') : Extends s s'' where
  key t k hk := h'.key t k (h.key t k hk)
  list l hl := (h'.list l (h.listKnown l hl)).trans (h.list l hl)
  listKnown l hl := h'.listKnown l (h.listKnown l hl)
  valueKnown v hv := h'.valueKnown v (h.valueKnown v hv)
  application v hv := (h'.application v (h.valueKnown v hv)).trans (h.application v hv)

theorem known {s s' : Store} (h : Extends s s') {t : TypeId} (ht : s.Known t) : s'.Known t := by
  obtain ⟨key, hkey⟩ := Option.isSome_iff_exists.1 ht
  exact Option.isSome_iff_exists.2 ⟨key, h.key t key hkey⟩

theorem key?_eq {s s' : Store} (h : Extends s s') {t : TypeId} (ht : s.Known t) :
    s'.types.key? t = s.types.key? t := by
  obtain ⟨key, hkey⟩ := Option.isSome_iff_exists.1 ht
  rw [hkey, h.key t key hkey]

theorem valueTo_eq {s s' : Store} (h : Extends s s') (hs : s.ApplicationsKnown)
    {f : TypeId → Structure} {steps : Nat} {v : ValueId} (hv : s.ValueKnown v) :
    s'.valueTo f steps v = s.valueTo f steps v := by
  induction steps generalizing v with
  | zero => rfl
  | succ steps ih =>
    unfold valueTo
    rw [h.application v hv]
    cases hx : s.values.application? v with
    | none => rfl
    | some x =>
      obtain ⟨hgeneric, harguments⟩ := hs v x hx
      simp only [ih hgeneric, h.list _ harguments]

theorem valueParts_eq {s s' : Store} (h : Extends s s') (hs : s.ApplicationsKnown)
    {steps : Nat} {v : ValueId} (hv : s.ValueKnown v) :
    s'.valueParts steps v = s.valueParts steps v := by
  induction steps generalizing v with
  | zero => rfl
  | succ steps ih =>
    unfold valueParts
    rw [h.application v hv]
    cases hx : s.values.application? v with
    | none => rfl
    | some x =>
      obtain ⟨hgeneric, harguments⟩ := hs v x hx
      simp only [ih hgeneric, h.list _ harguments]

theorem field?_eq {s s' : Store} (h : Extends s s') {f : TypeId → Structure} {t : TypeId}
    (ht : s.Known t) : s'.field? f t = s.field? f t := by
  unfold field?
  rw [h.key?_eq ht]

theorem labeledPart_eq {s s' : Store} (h : Extends s s') {t : TypeId} (ht : s.Known t) :
    s'.labeledPart t = s.labeledPart t := by
  unfold labeledPart
  rw [h.key?_eq ht]

/-- A key whose handles are known has the same layer in a store that grew. -/
theorem layer_eq {s s' : Store} (h : Extends s s') (hs : s.ApplicationsKnown)
    {f : TypeId → Structure} {key : TypeKey} (hkey : s.KeyKnown key) :
    s'.layer f key = s.layer f key := by
  cases key with
  | instanceOf v | constructedInstanceOf v | reference v =>
    simp only [layer, valueStructure, h.valueTo_eq hs hkey]
  | function shape =>
    obtain ⟨hparams, _, _, htemplates⟩ := hkey
    simp only [layer, h.list _ hparams, h.list _ htemplates]
  | union l | tuple l => simp only [layer, h.list l hkey]
  | record l =>
    have hfields : (s.types.list l).filterMap (s'.field? f)
        = (s.types.list l).filterMap (s.field? f) :=
      List.filterMap_congr fun t ht => h.field?_eq (hkey.2 t ht)
    simp only [layer, h.list l hkey.1, hfields]
  | _ => rfl

theorem parts_eq {s s' : Store} (h : Extends s s') (hs : s.ApplicationsKnown)
    {key : TypeKey} (hkey : s.KeyKnown key) : s'.parts key = s.parts key := by
  cases key with
  | instanceOf v | constructedInstanceOf v | reference v =>
    simp only [parts, h.valueParts_eq hs hkey]
  | function shape =>
    obtain ⟨hparams, _, _, htemplates⟩ := hkey
    simp only [parts, h.list _ hparams, h.list _ htemplates]
  | union l | tuple l => simp only [parts, h.list l hkey]
  | record l =>
    have hlabeled : (s.types.list l).flatMap s'.labeledPart
        = (s.types.list l).flatMap s.labeledPart :=
      List.flatMap_congr fun t ht => h.labeledPart_eq (hkey.2 t ht)
    simp only [parts, h.list l hkey.1, hlabeled]
  | _ => rfl

theorem keyKnown {s s' : Store} (h : Extends s s') {key : TypeKey} (hkey : s.KeyKnown key) :
    s'.KeyKnown key := by
  cases key with
  | instanceOf v | constructedInstanceOf v | reference v => exact h.valueKnown v hkey
  | function shape =>
    obtain ⟨hparams, hthis, hreturn, htemplates⟩ := hkey
    exact ⟨h.listKnown _ hparams, h.known hthis, h.known hreturn, h.listKnown _ htemplates⟩
  | union l | tuple l => exact h.listKnown l hkey
  | record l =>
    refine ⟨h.listKnown l hkey.1, fun t ht => ?_⟩
    rw [h.list l hkey.1] at ht
    exact h.known (hkey.2 t ht)
  | labeled label type => exact h.known hkey
  | _ => trivial

end Extends

/-- A store that grows keeps the structure of every type. -/
theorem unfold_of_extends {s s' : Store} (h : Extends s s') (hs : s.Descends)
    (hs' : s'.Descends) (happ : s.ApplicationsKnown)
    (hkeys : ∀ t key, s.types.key? t = some key → s.KeyKnown key)
    (hparts : ∀ t key, s.types.key? t = some key → ∀ part ∈ s.parts key, s.Known part)
    {t : TypeId} (ht : s.Known t) : s'.unfold t = s.unfold t := by
  obtain ⟨n, hn⟩ : ∃ n, t.index < n := ⟨t.index + 1, Nat.lt_succ_self _⟩
  induction n generalizing t with
  | zero => omega
  | succ n ih =>
    obtain ⟨key, hkey⟩ := Option.isSome_iff_exists.1 ht
    rw [unfold_eq hs hkey, unfold_eq hs' (h.key t key hkey), h.layer_eq happ (hkeys t key hkey)]
    refine layer_congr fun part hpart => ih (hparts t key hkey part hpart) ?_
    have hlt : part.index < t.index := hs t key hkey part hpart
    omega

end Store

end DocTypes
