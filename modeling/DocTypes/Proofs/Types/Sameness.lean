import DocTypes.Proofs.Types.Structure
import Mathlib.Data.List.Forall2

/-!
# Sameness of structures

`Structure.Same` compares unions as sets and records as maps. It is an equivalence, and every
former of structures respects it.

`Structure.unite` is the union of structures: the members of unions among them are taken
out, `*` swallows the rest, the empty union is dropped, and what is left alone is the union. It
says of structures what the union of types says of numbers, and it respects sameness too.

Inductions on a structure go by `Structure.parts_induction`, which has one hypothesis for all
structures that are listed in a part.

## Main statements

* `Structure.Same.symm`, `Structure.Same.trans`: sameness is an equivalence.
* `Structure.unite_congr`: unions of the same structures are the same.
-/

namespace DocTypes

namespace Structure

/-- An induction over the parts of a structure, those in lists and fields included. -/
@[elab_as_elim]
theorem parts_induction {P : Structure → Prop} (leaf : ∀ key, P (.leaf key))
    (value : ∀ v, P (.value v))
    (applied : ∀ g xs, P g → (∀ x ∈ xs, P x) → P (.applied g xs))
    (instanceOf : ∀ x, P x → P (.instanceOf x))
    (constructedInstanceOf : ∀ x, P x → P (.constructedInstanceOf x))
    (reference : ∀ x, P x → P (.reference x))
    (function : ∀ kind arity xs this result ts, (∀ x ∈ xs, P x) → P this → P result →
      (∀ t ∈ ts, P t) → P (.function kind arity xs this result ts))
    (tuple : ∀ xs, (∀ x ∈ xs, P x) → P (.tuple xs))
    (union : ∀ xs, (∀ x ∈ xs, P x) → P (.union xs))
    (record : ∀ fs : List (Atom × Structure), (∀ f ∈ fs, P f.2) → P (.record fs))
    (labeled : ∀ label x, P x → P (.labeled label x)) (missing : P .missing)
    (x : Structure) : P x := by
  have ih (y : Structure) (_ : sizeOf y < sizeOf x) : P y :=
    parts_induction leaf value applied instanceOf constructedInstanceOf reference function tuple
      union record labeled missing y
  have ihList {xs : List Structure} (h : sizeOf xs < sizeOf x) : ∀ y ∈ xs, P y :=
    fun y hy => ih y (Nat.lt_trans (List.sizeOf_lt_of_mem hy) h)
  cases x with
  | leaf key => exact leaf key
  | value v => exact value v
  | applied g xs =>
    refine applied g xs (ih g ?_) (ihList ?_) <;>
      simp only [Structure.applied.sizeOf_spec] <;> omega
  | instanceOf x =>
    exact instanceOf x (ih x (by simp))
  | constructedInstanceOf x =>
    exact constructedInstanceOf x (ih x (by simp))
  | reference x =>
    exact reference x (ih x (by simp))
  | function kind arity xs this result ts =>
    refine function kind arity xs this result ts (ihList ?_) (ih this ?_) (ih result ?_) (ihList ?_)
      <;> simp only [Structure.function.sizeOf_spec] <;> omega
  | tuple xs =>
    exact tuple xs (ihList (by simp))
  | union xs =>
    exact union xs (ihList (by simp))
  | record fs =>
    refine record fs fun f hf => ih f.2 ?_
    have hlt := List.sizeOf_lt_of_mem hf
    obtain ⟨label, y⟩ := f
    simp only [Prod.mk.sizeOf_spec] at hlt
    simp only [Structure.record.sizeOf_spec]
    omega
  | labeled label x =>
    refine labeled label x (ih x ?_)
    simp only [Structure.labeled.sizeOf_spec]
    omega
  | missing => exact missing
termination_by sizeOf x

/-! ## Lists, sets and fields of structures -/

/-- Two lists list the same structures, in whatever order and however often. -/
def SameSet (xs ys : List Structure) : Prop :=
  (∀ x ∈ xs, ∃ y ∈ ys, Same x y) ∧ ∀ y ∈ ys, ∃ x ∈ xs, Same x y

/-- Two lists of fields give the same structures to the same labels. -/
def SameFields (fs gs : List (Atom × Structure)) : Prop :=
  ∀ label, Option.Rel Same (fs.lookup label) (gs.lookup label)

theorem forall₂_same_iff {xs ys : List Structure} :
    List.Forall₂ Same xs ys ↔ xs.length = ys.length ∧
      ∀ (i : Nat) (hx : i < xs.length) (hy : i < ys.length), Same xs[i] ys[i] :=
  List.forall₂_iff_get

theorem sameFields_iff {fs gs : List (Atom × Structure)} :
    SameFields fs gs ↔ (∀ label, (fs.lookup label).isSome = (gs.lookup label).isSome) ∧
      ∀ label x y, fs.lookup label = some x → gs.lookup label = some y → Same x y := by
  constructor
  · intro h
    refine ⟨fun label => ?_, fun label x y hx hy => ?_⟩
    · have hlabel := h label
      revert hlabel
      cases fs.lookup label <;> cases gs.lookup label <;> intro hlabel <;> cases hlabel <;> rfl
    · have hlabel := h label
      rw [hx, hy] at hlabel
      cases hlabel with
      | some hxy => exact hxy
  · rintro ⟨hdomain, hsame⟩ label
    have hlabel := hdomain label
    cases hf : fs.lookup label with
    | none =>
      cases hg : gs.lookup label with
      | none => exact .none
      | some y => simp [hf, hg] at hlabel
    | some x =>
      cases hg : gs.lookup label with
      | none => simp [hf, hg] at hlabel
      | some y => exact .some (hsame label x y hf hg)

/-- Fields that agree one by one give the same structures to the same labels. -/
theorem sameFields_of_forall₂ {fs gs : List (Atom × Structure)}
    (h : List.Forall₂ (fun x y => x.1 = y.1 ∧ Same x.2 y.2) fs gs) : SameFields fs gs := by
  intro label
  induction h with
  | nil => exact .none
  | @cons x y fs gs hxy _ ih =>
    obtain ⟨l, x⟩ := x
    obtain ⟨l', y⟩ := y
    obtain ⟨rfl, hsame⟩ := hxy
    rw [List.lookup_cons, List.lookup_cons]
    cases label == l with
    | true => exact .some hsame
    | false => exact ih

/-! ## What is the same as a structure -/

theorem same_applied_iff {g : Structure} {xs : List Structure} {y : Structure} :
    Same (.applied g xs) y ↔
      ∃ h ys, y = .applied h ys ∧ Same g h ∧ List.Forall₂ Same xs ys := by
  cases y <;> simp [Same, forall₂_same_iff]

theorem same_function_iff {kind : FunctionKind} {arity : Arity} {xs ts : List Structure}
    {this result y : Structure} : Same (.function kind arity xs this result ts) y ↔
      ∃ ys this' result' us, y = .function kind arity ys this' result' us ∧
        List.Forall₂ Same xs ys ∧ Same this this' ∧ Same result result' ∧
          List.Forall₂ Same ts us := by
  cases y <;> simp [Same, forall₂_same_iff]
  grind

theorem same_tuple_iff {xs : List Structure} {y : Structure} :
    Same (.tuple xs) y ↔ ∃ ys, y = .tuple ys ∧ List.Forall₂ Same xs ys := by
  cases y <;> simp [Same, forall₂_same_iff]

theorem same_union_iff {xs : List Structure} {y : Structure} :
    Same (.union xs) y ↔ ∃ ys, y = .union ys ∧ SameSet xs ys := by
  cases y <;> simp [Same, SameSet]

theorem same_record_iff {fs : List (Atom × Structure)} {y : Structure} :
    Same (.record fs) y ↔ ∃ gs, y = .record gs ∧ SameFields fs gs := by
  cases y <;> simp [Same, sameFields_iff]

theorem same_labeled_iff {label : Atom} {x y : Structure} :
    Same (.labeled label x) y ↔ ∃ z, y = .labeled label z ∧ Same x z := by
  cases y <;> simp [Same]
  grind

theorem same_leaf_iff {key : TypeKey} {y : Structure} : Same (.leaf key) y ↔ y = .leaf key := by
  cases y <;> simp [Same, eq_comm]

theorem same_value_iff {v : ValueId} {y : Structure} : Same (.value v) y ↔ y = .value v := by
  cases y <;> simp [Same, eq_comm]

theorem same_instanceOf_iff {x y : Structure} :
    Same (.instanceOf x) y ↔ ∃ z, y = .instanceOf z ∧ Same x z := by
  cases y <;> simp [Same]

theorem same_constructedInstanceOf_iff {x y : Structure} :
    Same (.constructedInstanceOf x) y ↔ ∃ z, y = .constructedInstanceOf z ∧ Same x z := by
  cases y <;> simp [Same]

theorem same_reference_iff {x y : Structure} :
    Same (.reference x) y ↔ ∃ z, y = .reference z ∧ Same x z := by
  cases y <;> simp [Same]

theorem same_missing_iff {y : Structure} : Same .missing y ↔ y = .missing := by
  cases y <;> simp [Same]

/-! ## Sameness is an equivalence -/

theorem forall₂_symm {xs ys : List Structure} (h : List.Forall₂ Same xs ys)
    (hsymm : ∀ x ∈ xs, ∀ y, Same x y → Same y x) : List.Forall₂ Same ys xs := by
  induction h with
  | nil => exact .nil
  | cons hxy _ ih =>
    refine .cons (hsymm _ List.mem_cons_self _ hxy) (ih fun x hx => ?_)
    exact hsymm x (List.mem_cons_of_mem _ hx)

theorem forall₂_trans {xs ys zs : List Structure} (h : List.Forall₂ Same xs ys)
    (h' : List.Forall₂ Same ys zs)
    (htrans : ∀ x ∈ xs, ∀ y z, Same x y → Same y z → Same x z) : List.Forall₂ Same xs zs := by
  induction h generalizing zs with
  | nil => exact h'
  | cons hxy _ ih =>
    cases h' with
    | cons hyz hrest =>
      refine .cons (htrans _ List.mem_cons_self _ _ hxy hyz) (ih hrest fun x hx => ?_)
      exact htrans x (List.mem_cons_of_mem _ hx)

theorem Same.symm {x y : Structure} (h : Same x y) : Same y x := by
  induction x using parts_induction generalizing y with
  | leaf key =>
    obtain rfl := same_leaf_iff.1 h
    exact h
  | value v =>
    obtain rfl := same_value_iff.1 h
    exact h
  | applied g xs hg hxs =>
    obtain ⟨g', ys, rfl, hgeneric, harguments⟩ := same_applied_iff.1 h
    exact same_applied_iff.2 ⟨g, xs, rfl, hg hgeneric, forall₂_symm harguments
      fun x hx _ => hxs x hx⟩
  | instanceOf x hx =>
    obtain ⟨y, rfl, hxy⟩ := same_instanceOf_iff.1 h
    exact same_instanceOf_iff.2 ⟨x, rfl, hx hxy⟩
  | constructedInstanceOf x hx =>
    obtain ⟨y, rfl, hxy⟩ := same_constructedInstanceOf_iff.1 h
    exact same_constructedInstanceOf_iff.2 ⟨x, rfl, hx hxy⟩
  | reference x hx =>
    obtain ⟨y, rfl, hxy⟩ := same_reference_iff.1 h
    exact same_reference_iff.2 ⟨x, rfl, hx hxy⟩
  | function kind arity xs this result ts hxs hthis hresult hts =>
    obtain ⟨ys, this', result', us, rfl, hp, ht, hr, hu⟩ := same_function_iff.1 h
    exact same_function_iff.2 ⟨xs, this, result, ts, rfl, forall₂_symm hp fun x hx _ => hxs x hx,
      hthis ht, hresult hr, forall₂_symm hu fun t ht _ => hts t ht⟩
  | tuple xs hxs =>
    obtain ⟨ys, rfl, hxy⟩ := same_tuple_iff.1 h
    exact same_tuple_iff.2 ⟨xs, rfl, forall₂_symm hxy fun x hx _ => hxs x hx⟩
  | union xs hxs =>
    obtain ⟨ys, rfl, hleft, hright⟩ := same_union_iff.1 h
    refine same_union_iff.2 ⟨xs, rfl, fun y hy => ?_, fun x hx => ?_⟩
    · obtain ⟨x, hx, hxy⟩ := hright y hy
      exact ⟨x, hx, hxs x hx hxy⟩
    · obtain ⟨y, hy, hxy⟩ := hleft x hx
      exact ⟨y, hy, hxs x hx hxy⟩
  | record fs hfs =>
    obtain ⟨gs, rfl, hfields⟩ := same_record_iff.1 h
    refine same_record_iff.2 ⟨fs, rfl, fun label => ?_⟩
    have hlabel := hfields label
    generalize hf : fs.lookup label = x at hlabel ⊢
    generalize gs.lookup label = y at hlabel ⊢
    cases hlabel with
    | none => exact .none
    | some hxy => exact .some (hfs _ (mem_of_lookup_eq_some hf) hxy)
  | labeled label x hx =>
    obtain ⟨y, rfl, hxy⟩ := same_labeled_iff.1 h
    exact same_labeled_iff.2 ⟨x, rfl, hx hxy⟩
  | missing =>
    obtain rfl := same_missing_iff.1 h
    exact h

theorem Same.trans {x y z : Structure} (h : Same x y) (h' : Same y z) : Same x z := by
  induction x using parts_induction generalizing y z with
  | leaf key =>
    obtain rfl := same_leaf_iff.1 h
    exact h'
  | value v =>
    obtain rfl := same_value_iff.1 h
    exact h'
  | applied g xs hg hxs =>
    obtain ⟨g', ys, rfl, hgeneric, harguments⟩ := same_applied_iff.1 h
    obtain ⟨g'', zs, rfl, hgeneric', harguments'⟩ := same_applied_iff.1 h'
    exact same_applied_iff.2 ⟨g'', zs, rfl, hg hgeneric hgeneric',
      forall₂_trans harguments harguments' fun x hx _ _ => hxs x hx⟩
  | instanceOf x hx =>
    obtain ⟨y, rfl, hxy⟩ := same_instanceOf_iff.1 h
    obtain ⟨z, rfl, hyz⟩ := same_instanceOf_iff.1 h'
    exact same_instanceOf_iff.2 ⟨z, rfl, hx hxy hyz⟩
  | constructedInstanceOf x hx =>
    obtain ⟨y, rfl, hxy⟩ := same_constructedInstanceOf_iff.1 h
    obtain ⟨z, rfl, hyz⟩ := same_constructedInstanceOf_iff.1 h'
    exact same_constructedInstanceOf_iff.2 ⟨z, rfl, hx hxy hyz⟩
  | reference x hx =>
    obtain ⟨y, rfl, hxy⟩ := same_reference_iff.1 h
    obtain ⟨z, rfl, hyz⟩ := same_reference_iff.1 h'
    exact same_reference_iff.2 ⟨z, rfl, hx hxy hyz⟩
  | function kind arity xs this result ts hxs hthis hresult hts =>
    obtain ⟨ys, this', result', us, rfl, hp, ht, hr, hu⟩ := same_function_iff.1 h
    obtain ⟨zs, this'', result'', vs, rfl, hp', ht', hr', hu'⟩ := same_function_iff.1 h'
    exact same_function_iff.2 ⟨zs, this'', result'', vs, rfl,
      forall₂_trans hp hp' fun x hx _ _ => hxs x hx, hthis ht ht', hresult hr hr',
      forall₂_trans hu hu' fun t ht _ _ => hts t ht⟩
  | tuple xs hxs =>
    obtain ⟨ys, rfl, hxy⟩ := same_tuple_iff.1 h
    obtain ⟨zs, rfl, hyz⟩ := same_tuple_iff.1 h'
    exact same_tuple_iff.2 ⟨zs, rfl, forall₂_trans hxy hyz fun x hx _ _ => hxs x hx⟩
  | union xs hxs =>
    obtain ⟨ys, rfl, hleft, hright⟩ := same_union_iff.1 h
    obtain ⟨zs, rfl, hleft', hright'⟩ := same_union_iff.1 h'
    refine same_union_iff.2 ⟨zs, rfl, fun x hx => ?_, fun z hz => ?_⟩
    · obtain ⟨y, hy, hxy⟩ := hleft x hx
      obtain ⟨z, hz, hyz⟩ := hleft' y hy
      exact ⟨z, hz, hxs x hx hxy hyz⟩
    · obtain ⟨y, hy, hyz⟩ := hright' z hz
      obtain ⟨x, hx, hxy⟩ := hright y hy
      exact ⟨x, hx, hxs x hx hxy hyz⟩
  | record fs hfs =>
    obtain ⟨gs, rfl, hfields⟩ := same_record_iff.1 h
    obtain ⟨hs, rfl, hfields'⟩ := same_record_iff.1 h'
    refine same_record_iff.2 ⟨hs, rfl, fun label => ?_⟩
    have hlabel := hfields label
    have hlabel' := hfields' label
    generalize hf : fs.lookup label = x at hlabel ⊢
    generalize gs.lookup label = y at hlabel hlabel'
    generalize hs.lookup label = z at hlabel' ⊢
    cases hlabel with
    | none => exact hlabel'
    | some hxy =>
      cases hlabel' with
      | some hyz => exact .some (hfs _ (mem_of_lookup_eq_some hf) hxy hyz)
  | labeled label x hx =>
    obtain ⟨y, rfl, hxy⟩ := same_labeled_iff.1 h
    obtain ⟨z, rfl, hyz⟩ := same_labeled_iff.1 h'
    exact same_labeled_iff.2 ⟨z, rfl, hx hxy hyz⟩
  | missing =>
    obtain rfl := same_missing_iff.1 h
    exact h'

/-! ## Sets of structures -/

namespace SameSet

variable {xs ys zs : List Structure}

theorem refl (xs : List Structure) : SameSet xs xs :=
  ⟨fun x hx => ⟨x, hx, .refl x⟩, fun x hx => ⟨x, hx, .refl x⟩⟩

theorem symm (h : SameSet xs ys) : SameSet ys xs :=
  ⟨fun y hy => have ⟨x, hx, hxy⟩ := h.2 y hy; ⟨x, hx, hxy.symm⟩,
    fun x hx => have ⟨y, hy, hxy⟩ := h.1 x hx; ⟨y, hy, hxy.symm⟩⟩

theorem trans (h : SameSet xs ys) (h' : SameSet ys zs) : SameSet xs zs := by
  constructor
  · intro x hx
    obtain ⟨y, hy, hxy⟩ := h.1 x hx
    obtain ⟨z, hz, hyz⟩ := h'.1 y hy
    exact ⟨z, hz, hxy.trans hyz⟩
  · intro z hz
    obtain ⟨y, hy, hyz⟩ := h'.2 z hz
    obtain ⟨x, hx, hxy⟩ := h.2 y hy
    exact ⟨x, hx, hxy.trans hyz⟩

/-- A structure without parts is in both lists or in neither. -/
theorem leaf_mem_iff (h : SameSet xs ys) (key : TypeKey) : .leaf key ∈ xs ↔ .leaf key ∈ ys := by
  constructor
  · intro hmem
    obtain ⟨y, hy, hsame⟩ := h.1 _ hmem
    exact same_leaf_iff.1 hsame ▸ hy
  · intro hmem
    obtain ⟨x, hx, hsame⟩ := h.2 _ hmem
    exact same_leaf_iff.1 hsame.symm ▸ hx

theorem of_forall₂ (h : List.Forall₂ Same xs ys) : SameSet xs ys := by
  induction h with
  | nil => exact refl []
  | cons hxy _ ih =>
    refine ⟨fun x hx => ?_, fun y hy => ?_⟩
    · rcases List.mem_cons.1 hx with rfl | hx
      · exact ⟨_, List.mem_cons_self, hxy⟩
      · obtain ⟨y, hy, hsame⟩ := ih.1 x hx
        exact ⟨y, List.mem_cons_of_mem _ hy, hsame⟩
    · rcases List.mem_cons.1 hy with rfl | hy
      · exact ⟨_, List.mem_cons_self, hxy⟩
      · obtain ⟨x, hx, hsame⟩ := ih.2 y hy
        exact ⟨x, List.mem_cons_of_mem _ hx, hsame⟩

/-- Lists with the same members list the same structures. -/
theorem of_mem_iff (h : ∀ x, x ∈ xs ↔ x ∈ ys) : SameSet xs ys :=
  ⟨fun x hx => ⟨x, (h x).1 hx, .refl x⟩, fun x hx => ⟨x, (h x).2 hx, .refl x⟩⟩

theorem flatMap (f : Structure → List Structure) (h : SameSet xs ys)
    (hf : ∀ x ∈ xs, ∀ y ∈ ys, Same x y → SameSet (f x) (f y)) :
    SameSet (xs.flatMap f) (ys.flatMap f) := by
  constructor
  · intro m hm
    obtain ⟨x, hx, hm⟩ := List.mem_flatMap.1 hm
    obtain ⟨y, hy, hxy⟩ := h.1 x hx
    obtain ⟨n, hn, hsame⟩ := (hf x hx y hy hxy).1 m hm
    exact ⟨n, List.mem_flatMap.2 ⟨y, hy, hn⟩, hsame⟩
  · intro n hn
    obtain ⟨y, hy, hn⟩ := List.mem_flatMap.1 hn
    obtain ⟨x, hx, hxy⟩ := h.2 y hy
    obtain ⟨m, hm, hsame⟩ := (hf x hx y hy hxy).2 n hn
    exact ⟨m, List.mem_flatMap.2 ⟨x, hx, hm⟩, hsame⟩

end SameSet

/-! ## Unions of structures -/

/-- The members of a union; any other structure is its own only member. -/
def members : Structure → List Structure
  | .union xs => xs
  | x => [x]

theorem Same.members {x y : Structure} (h : Same x y) : SameSet x.members y.members := by
  cases x with
  | union xs =>
    obtain ⟨ys, rfl, hset⟩ := same_union_iff.1 h
    exact hset
  | _ =>
    have hy : y.members = [y] := by
      cases y with
      | union ys => simp [Same] at h
      | _ => rfl
    rw [hy]
    exact .of_forall₂ (.cons h .nil)

/-- Whether a structure is that of a key without parts. -/
def isLeaf (key : TypeKey) : Structure → Bool
  | .leaf k => k = key
  | _ => false

theorem isLeaf_iff {key : TypeKey} {x : Structure} : x.isLeaf key = true ↔ x = .leaf key := by
  cases x <;> simp [isLeaf]

/-- What a union of such a list keeps: everything but the empty union. -/
def kept (given : List Structure) : List Structure := given.filter (!·.isLeaf .nil)

theorem mem_kept {given : List Structure} {x : Structure} :
    x ∈ kept given ↔ x ∈ given ∧ x ≠ .leaf .nil := by
  rw [kept, List.mem_filter, Bool.not_eq_true', Ne, ← isLeaf_iff, Bool.not_eq_true]

open Classical in
/-- The union of structures none of which is a union: `*` if it is given, the empty union if
nothing else is given, and what is given alone if all of it is the same. -/
noncomputable def normalUnite (given : List Structure) : Structure :=
  if given.any (·.isLeaf .any) then .leaf .any
  else match kept given with
    | [] => .leaf .nil
    | x :: rest => if ∀ y ∈ rest, Same x y then x else .union (x :: rest)

/-- The union of structures. -/
noncomputable def unite (xs : List Structure) : Structure := normalUnite (xs.flatMap members)

section NormalUnite

variable {given : List Structure}

theorem any_isLeaf_iff {key : TypeKey} : given.any (·.isLeaf key) = true ↔ .leaf key ∈ given := by
  simp only [List.any_eq_true, isLeaf_iff, exists_eq_right]

theorem normalUnite_of_any (h : .leaf .any ∈ given) : normalUnite given = .leaf .any := by
  rw [normalUnite, if_pos (any_isLeaf_iff.2 h)]

theorem normalUnite_of_nil (h : kept given = []) (hany : .leaf .any ∉ given) :
    normalUnite given = .leaf .nil := by
  rw [normalUnite, if_neg fun hmem => hany (any_isLeaf_iff.1 hmem), h]

/-- If all that is kept is the same, the union is one of it. -/
theorem normalUnite_mem_of_sole {x : Structure} (hany : .leaf .any ∉ given) (hx : x ∈ kept given)
    (hsame : ∀ y ∈ kept given, Same x y) : normalUnite given ∈ kept given := by
  rw [normalUnite, if_neg fun hmem => hany (any_isLeaf_iff.1 hmem)]
  match hkept : kept given with
  | [] => simp [hkept] at hx
  | z :: rest =>
    rw [hkept] at hsame
    have hz : Same x z := hsame z List.mem_cons_self
    have hall : ∀ y ∈ rest, Same z y :=
      fun y hy => hz.symm.trans (hsame y (List.mem_cons_of_mem _ hy))
    simp only [if_pos hall]
    exact List.mem_cons_self

theorem normalUnite_of_sole {x : Structure} (hany : .leaf .any ∉ given) (hx : x ∈ kept given)
    (hsame : ∀ y ∈ kept given, Same x y) : Same (normalUnite given) x :=
  (hsame _ (normalUnite_mem_of_sole hany hx hsame)).symm

/-- If two different structures are kept, all that is kept makes a union. -/
theorem normalUnite_of_several {x y : Structure} (hany : .leaf .any ∉ given)
    (hx : x ∈ kept given) (hy : y ∈ kept given) (hne : ¬Same x y) :
    normalUnite given = .union (kept given) := by
  rw [normalUnite, if_neg fun hmem => hany (any_isLeaf_iff.1 hmem)]
  match hkept : kept given with
  | [] => simp [hkept] at hx
  | z :: rest =>
    have hnot : ¬∀ y ∈ rest, Same z y := by
      intro hall
      have hsame : ∀ w ∈ kept given, Same z w := by
        intro w hw
        rw [hkept] at hw
        rcases List.mem_cons.1 hw with rfl | hw
        · exact .refl w
        · exact hall w hw
      exact hne ((hsame x hx).symm.trans (hsame y hy))
    simp only [if_neg hnot]

/-- The ways in which a union comes out. -/
theorem normalUnite_cases (given : List Structure) :
    .leaf .any ∈ given ∨ .leaf .any ∉ given ∧ (kept given = [] ∨
      (∃ x ∈ kept given, ∀ y ∈ kept given, Same x y) ∨
        ∃ x ∈ kept given, ∃ y ∈ kept given, ¬Same x y) := by
  by_cases hany : .leaf .any ∈ given
  · exact .inl hany
  refine .inr ⟨hany, ?_⟩
  match hkept : kept given with
  | [] => exact .inl rfl
  | x :: rest =>
    by_cases hall : ∀ y ∈ x :: rest, Same x y
    · exact .inr (.inl ⟨x, List.mem_cons_self, hall⟩)
    · simp only [not_forall] at hall
      obtain ⟨y, hy, hne⟩ := hall
      exact .inr (.inr ⟨x, List.mem_cons_self, y, hy, hne⟩)

end NormalUnite

/-- Two lists of the same structures are so without the structures of one key. -/
theorem SameSet.without {xs ys : List Structure} (h : SameSet xs ys) (key : TypeKey) :
    SameSet (xs.filter (!·.isLeaf key)) (ys.filter (!·.isLeaf key)) := by
  have hmem {given : List Structure} {x : Structure} :
      x ∈ given.filter (!·.isLeaf key) ↔ x ∈ given ∧ x ≠ .leaf key := by
    rw [List.mem_filter, Bool.not_eq_true', Ne, ← isLeaf_iff, Bool.not_eq_true]
  constructor
  · intro x hx
    obtain ⟨hx, hkey⟩ := hmem.1 hx
    obtain ⟨y, hy, hxy⟩ := h.1 x hx
    refine ⟨y, hmem.2 ⟨hy, ?_⟩, hxy⟩
    rintro rfl
    exact hkey (same_leaf_iff.1 hxy.symm)
  · intro y hy
    obtain ⟨hy, hkey⟩ := hmem.1 hy
    obtain ⟨x, hx, hxy⟩ := h.2 y hy
    refine ⟨x, hmem.2 ⟨hx, ?_⟩, hxy⟩
    rintro rfl
    exact hkey (same_leaf_iff.1 hxy)

theorem SameSet.kept {xs ys : List Structure} (h : SameSet xs ys) :
    SameSet (kept xs) (kept ys) := h.without .nil

theorem normalUnite_congr {xs ys : List Structure} (hany : .leaf .any ∈ xs ↔ .leaf .any ∈ ys)
    (h : .leaf .any ∉ xs → SameSet (kept xs) (kept ys)) :
    Same (normalUnite xs) (normalUnite ys) := by
  rcases normalUnite_cases xs with hmem | ⟨hnot, hcases⟩
  · rw [normalUnite_of_any hmem, normalUnite_of_any (hany.1 hmem)]
    exact .refl _
  have hnot' : .leaf .any ∉ ys := fun hmem => hnot (hany.2 hmem)
  have hkept := h hnot
  rcases hcases with hnil | ⟨x, hx, hall⟩ | ⟨x, hx, y, hy, hne⟩
  · have hnil' : Structure.kept ys = [] := by
      rw [List.eq_nil_iff_forall_not_mem]
      intro y hy
      obtain ⟨x, hx, -⟩ := hkept.2 y hy
      rw [hnil] at hx
      exact List.not_mem_nil hx
    rw [normalUnite_of_nil hnil hnot, normalUnite_of_nil hnil' hnot']
    exact .refl _
  · obtain ⟨x', hx', hxx'⟩ := hkept.1 x hx
    have hall' : ∀ y ∈ Structure.kept ys, Same x' y := by
      intro y hy
      obtain ⟨z, hz, hzy⟩ := hkept.2 y hy
      exact hxx'.symm.trans ((hall z hz).trans hzy)
    have hleft := normalUnite_of_sole hnot hx hall
    have hright := normalUnite_of_sole hnot' hx' hall'
    exact hleft.trans (hxx'.trans hright.symm)
  · obtain ⟨x', hx', hxx'⟩ := hkept.1 x hx
    obtain ⟨y', hy', hyy'⟩ := hkept.1 y hy
    have hne' : ¬Same x' y' := fun hsame => hne (hxx'.trans (hsame.trans hyy'.symm))
    rw [normalUnite_of_several hnot hx hy hne, normalUnite_of_several hnot' hx' hy' hne']
    exact same_union_iff.2 ⟨_, rfl, hkept⟩

/-- Unions of the same structures are the same. -/
theorem unite_congr {xs ys : List Structure} (h : SameSet xs ys) : Same (unite xs) (unite ys) := by
  have hgiven : SameSet (xs.flatMap members) (ys.flatMap members) :=
    h.flatMap members fun x _ y _ hxy => hxy.members
  exact normalUnite_congr (hgiven.leaf_mem_iff .any) fun _ => hgiven.kept

end Structure

end DocTypes
