import DocTypes.Proofs.Types.Substitution

/-!
# One substitution after another

Substituting twice is substituting once, with the first substitution carried on by the second.
The unions make this more than an induction: a union that collapses, or that swallows its
members because `*` comes in, has to come to the same whether it is brought into normal form
once or twice. Two lists of structures are alike if their unions are the same
(`Structure.Alike`), and the members of a union are alike to what the union was made from.

## Main statements

* `Structure.substitute_congr`: what is the same stays the same.
* `Structure.normal_substitute`: a normal structure stays normal.
* `Structure.substitute_unite`: a substitution may be made before or after a union.
* `Structure.substitute_substitute`: substituting twice is substituting once.
-/

namespace DocTypes

namespace Structure

variable {f g h : Replacement}

/-! ## Substitution keeps what is the same the same -/

theorem forall₂_map_congr {xs ys : List Structure} {g : Structure → Structure}
    (h : List.Forall₂ Same xs ys) (hg : ∀ x ∈ xs, ∀ {y}, Same x y → Same (g x) (g y)) :
    List.Forall₂ Same (xs.map g) (ys.map g) := by
  induction h with
  | nil => exact .nil
  | cons hxy _ ih =>
    refine .cons (hg _ List.mem_cons_self hxy) (ih fun z hz => ?_)
    exact hg z (List.mem_cons_of_mem _ hz)

theorem SameSet.map {xs ys : List Structure} {g : Structure → Structure} (h : SameSet xs ys)
    (hg : ∀ x ∈ xs, ∀ {y}, Same x y → Same (g x) (g y)) : SameSet (xs.map g) (ys.map g) := by
  constructor
  · intro z hz
    obtain ⟨x, hx, rfl⟩ := List.mem_map.1 hz
    obtain ⟨y, hy, hxy⟩ := h.1 x hx
    exact ⟨g y, List.mem_map_of_mem hy, hg x hx hxy⟩
  · intro z hz
    obtain ⟨y, hy, rfl⟩ := List.mem_map.1 hz
    obtain ⟨x, hx, hxy⟩ := h.2 y hy
    exact ⟨g x, List.mem_map_of_mem hx, hg x hx hxy⟩

/-- What is the same stays the same. -/
theorem substitute_congr {x y : Structure} (h : Same x y) :
    Same (substitute f x) (substitute f y) := by
  induction x using parts_induction generalizing y with
  | leaf key =>
    obtain rfl := same_leaf_iff.1 h
    exact .refl _
  | value v =>
    obtain rfl := same_value_iff.1 h
    exact .refl _
  | applied g xs hg hxs =>
    obtain ⟨g', ys, rfl, hsame, hall⟩ := same_applied_iff.1 h
    simp only [substitute]
    exact same_applied_iff.2 ⟨_, _, rfl, hg hsame, forall₂_map_congr hall hxs⟩
  | instanceOf x hx =>
    obtain ⟨z, rfl, hxz⟩ := same_instanceOf_iff.1 h
    simp only [substitute]
    exact same_instanceOf_iff.2 ⟨_, rfl, hx hxz⟩
  | constructedInstanceOf x hx =>
    obtain ⟨z, rfl, hxz⟩ := same_constructedInstanceOf_iff.1 h
    simp only [substitute]
    exact same_constructedInstanceOf_iff.2 ⟨_, rfl, hx hxz⟩
  | reference x hx =>
    obtain ⟨z, rfl, hxz⟩ := same_reference_iff.1 h
    simp only [substitute]
    exact same_reference_iff.2 ⟨_, rfl, hx hxz⟩
  | function kind arity xs this result ts hxs hthis hresult =>
    obtain ⟨ys, this', result', us, rfl, hall, hsame, hsame', htemplates⟩ := same_function_iff.1 h
    simp only [substitute]
    exact same_function_iff.2 ⟨_, _, _, _, rfl, forall₂_map_congr hall hxs, hthis hsame,
      hresult hsame', htemplates⟩
  | tuple xs hxs =>
    obtain ⟨ys, rfl, hall⟩ := same_tuple_iff.1 h
    simp only [substitute]
    exact same_tuple_iff.2 ⟨_, rfl, forall₂_map_congr hall hxs⟩
  | union xs hxs =>
    obtain ⟨ys, rfl, hset⟩ := same_union_iff.1 h
    simp only [substitute]
    exact unite_congr (hset.map hxs)
  | record fs hfs =>
    obtain ⟨gs, rfl, hfields⟩ := same_record_iff.1 h
    simp only [substitute]
    refine same_record_iff.2 ⟨_, rfl, fun label => ?_⟩
    have hlabel := hfields label
    rw [lookup_map, lookup_map]
    cases hf : fs.lookup label with
    | none =>
      rw [hf] at hlabel
      cases hg : gs.lookup label with
      | none => exact .none
      | some y =>
        rw [hg] at hlabel
        cases hlabel
    | some x =>
      rw [hf] at hlabel
      cases hg : gs.lookup label with
      | none =>
        rw [hg] at hlabel
        cases hlabel
      | some y =>
        rw [hg] at hlabel
        cases hlabel with
        | some hxy => exact .some (hfs _ (mem_of_lookup_eq_some hf) hxy)
  | labeled label x hx =>
    obtain ⟨z, rfl, hxz⟩ := same_labeled_iff.1 h
    simp only [substitute]
    exact same_labeled_iff.2 ⟨_, rfl, hx hxz⟩
  | missing =>
    obtain rfl := same_missing_iff.1 h
    exact .refl _

/-! ## Lists with the same union -/

/-- Both lists have `*`, or they have the same members but for the empty union. -/
def Alike (xs ys : List Structure) : Prop :=
  (.leaf .any ∈ xs ↔ .leaf .any ∈ ys) ∧ (.leaf .any ∉ xs → SameSet (kept xs) (kept ys))

namespace Alike

variable {xs ys : List Structure}

theorem refl (xs : List Structure) : Alike xs xs := ⟨.rfl, fun _ => .refl _⟩

theorem same (h : Alike xs ys) : Same (normalUnite xs) (normalUnite ys) := normalUnite_congr h.1 h.2

theorem flatMap (h : Alike xs ys) {members : Structure → List Structure}
    (hany : members (.leaf .any) = [.leaf .any]) (hnil : members (.leaf .nil) = [.leaf .nil])
    (hsame : ∀ {x y}, Same x y → SameSet (members x) (members y)) :
    Alike (xs.flatMap members) (ys.flatMap members) := by
  have htop {zs : List Structure} (hzs : .leaf .any ∈ zs) : .leaf .any ∈ zs.flatMap members :=
    List.mem_flatMap.2 ⟨_, hzs, hany ▸ List.mem_cons_self⟩
  by_cases hxs : .leaf .any ∈ xs
  · exact ⟨⟨fun _ => htop (h.1.1 hxs), fun _ => htop hxs⟩, fun hnot => absurd (htop hxs) hnot⟩
  -- the empty union contributes the empty union alone
  have hkept {zs : List Structure} {z : Structure} (hz : z ≠ .leaf .nil) :
      z ∈ zs.flatMap members ↔ z ∈ (kept zs).flatMap members := by
    rw [List.mem_flatMap, List.mem_flatMap]
    refine exists_congr fun y => and_congr_left fun hy => ?_
    rw [mem_kept]
    refine (and_iff_left ?_).symm
    rintro rfl
    rw [hnil] at hy
    exact hz (List.mem_singleton.1 hy)
  have hset : SameSet ((kept xs).flatMap members) ((kept ys).flatMap members) :=
    (h.2 hxs).flatMap members fun x _ y _ hxy => hsame hxy
  have hall {zs : List Structure} :
      SameSet (Structure.kept (zs.flatMap members))
        (Structure.kept ((kept zs).flatMap members)) := by
    refine .of_mem_iff fun z => ?_
    rw [mem_kept, mem_kept]
    exact and_congr_left hkept
  refine ⟨?_, fun _ => hall.trans (hset.kept.trans hall.symm)⟩
  have hne : Structure.leaf .any ≠ .leaf .nil := by simp
  exact (hkept hne).trans ((hset.leaf_mem_iff .any).trans (hkept hne).symm)

theorem flatMap_congr {zs : List Structure} {left right : Structure → List Structure}
    (h : ∀ z ∈ zs, Alike (left z) (right z)) : Alike (zs.flatMap left) (zs.flatMap right) := by
  have hany : .leaf .any ∈ zs.flatMap left ↔ .leaf .any ∈ zs.flatMap right := by
    rw [List.mem_flatMap, List.mem_flatMap]
    exact exists_congr fun z => and_congr_right fun hz => (h z hz).1
  refine ⟨hany, fun hnot => ?_⟩
  have hset (z : Structure) (hz : z ∈ zs) : SameSet (kept (left z)) (kept (right z)) :=
    (h z hz).2 fun hmem => hnot (List.mem_flatMap.2 ⟨z, hz, hmem⟩)
  constructor
  · intro x hx
    obtain ⟨hx, hnil⟩ := mem_kept.1 hx
    obtain ⟨z, hz, hx⟩ := List.mem_flatMap.1 hx
    obtain ⟨y, hy, hxy⟩ := (hset z hz).1 x (mem_kept.2 ⟨hx, hnil⟩)
    obtain ⟨hy, hnil'⟩ := mem_kept.1 hy
    exact ⟨y, mem_kept.2 ⟨List.mem_flatMap.2 ⟨z, hz, hy⟩, hnil'⟩, hxy⟩
  · intro y hy
    obtain ⟨hy, hnil⟩ := mem_kept.1 hy
    obtain ⟨z, hz, hy⟩ := List.mem_flatMap.1 hy
    obtain ⟨x, hx, hxy⟩ := (hset z hz).2 y (mem_kept.2 ⟨hy, hnil⟩)
    obtain ⟨hx, hnil'⟩ := mem_kept.1 hx
    exact ⟨x, mem_kept.2 ⟨List.mem_flatMap.2 ⟨z, hz, hx⟩, hnil'⟩, hxy⟩

end Alike

/-! ## Unions of normal structures -/

/-- The members of a normal structure are normal, and no unions. -/
theorem Normal.of_mem_members {x m : Structure} (hx : x.Normal) (hm : m ∈ x.members) :
    m.Normal ∧ m.members = [m] := by
  cases x with
  | union xs =>
    simp only [Normal] at hx
    have hmember := hx.1 m hm
    exact ⟨hmember.1, hmember.2.1⟩
  | _ =>
    obtain rfl := List.mem_singleton.1 hm
    exact ⟨hx, rfl⟩

/-- The union of normal structures that are no unions is normal, and its members are what it was
made from. -/
theorem normal_normalUnite {flat : List Structure}
    (hflat : ∀ x ∈ flat, x.Normal ∧ x.members = [x]) :
    (normalUnite flat).Normal ∧ Alike (normalUnite flat).members flat := by
  rcases normalUnite_cases flat with hany | ⟨hany, hnil | ⟨x, hx, hall⟩ | ⟨x, hx, y, hy, hne⟩⟩
  · rw [normalUnite_of_any hany]
    refine ⟨by simp [Normal], ⟨fun _ => hany, fun _ => List.mem_cons_self⟩, fun hnot => ?_⟩
    exact absurd List.mem_cons_self hnot
  · rw [normalUnite_of_nil hnil hany]
    have hnone : kept [leaf .nil] = [] := rfl
    refine ⟨by simp [Normal], ⟨fun h => ?_, fun h => absurd h hany⟩, fun _ => ?_⟩
    · cases List.mem_singleton.1 h
    · show SameSet (kept [leaf .nil]) (kept flat)
      rw [hnone, hnil]
      exact .refl []
  · have hmem := normalUnite_mem_of_sole hany hx hall
    obtain ⟨hgiven, hnil⟩ := mem_kept.1 hmem
    obtain ⟨hnormal, hmembers⟩ := hflat _ hgiven
    have hsame : ∀ z ∈ kept flat, Same (normalUnite flat) z :=
      fun z hz => (hall _ hmem).symm.trans (hall z hz)
    rw [hmembers]
    refine ⟨hnormal, ⟨fun h => ?_, fun h => absurd h hany⟩, fun _ =>
      ⟨fun z hz => ?_, fun z hz => ?_⟩⟩
    · rw [List.mem_singleton.1 h]
      exact hgiven
    · obtain rfl := List.mem_singleton.1 (mem_kept.1 hz).1
      exact ⟨_, hmem, .refl _⟩
    · exact ⟨_, mem_kept.2 ⟨List.mem_cons_self, hnil⟩, hsame z hz⟩
  · rw [normalUnite_of_several hany hx hy hne]
    have hidem : kept (kept flat) = kept flat := by
      rw [kept, kept, List.filter_filter]
      simp only [Bool.and_self]
    refine ⟨?_, ⟨fun h => (mem_kept.1 h).1, fun h => absurd h hany⟩, fun _ => ?_⟩
    · simp only [Normal]
      refine ⟨fun z hz => ?_, x, hx, y, hy, hne⟩
      obtain ⟨hgiven, hnil⟩ := mem_kept.1 hz
      obtain ⟨hnormal, hmembers⟩ := hflat z hgiven
      refine ⟨hnormal, hmembers, ?_, hnil⟩
      rintro rfl
      exact hany hgiven
    · rw [members, hidem]
      exact .refl _

theorem flat_of_normal {xs : List Structure} (h : ∀ x ∈ xs, x.Normal) :
    ∀ m ∈ xs.flatMap members, m.Normal ∧ m.members = [m] := by
  intro m hm
  obtain ⟨x, hx, hm⟩ := List.mem_flatMap.1 hm
  exact (h x hx).of_mem_members hm

/-- The union of normal structures is normal. -/
theorem normal_unite {xs : List Structure} (h : ∀ x ∈ xs, x.Normal) : (unite xs).Normal :=
  (normal_normalUnite (flat_of_normal h)).1

/-- A normal structure is the union of its members. -/
theorem normalUnite_members {x : Structure} (hx : x.Normal) : Same (normalUnite x.members) x := by
  have hsole {y : Structure} (hy : y.members = [y]) : Same (normalUnite y.members) y := by
    rw [hy]
    by_cases hany : y = .leaf .any
    · rw [hany, normalUnite_of_any List.mem_cons_self]
      exact .refl _
    have hnot : .leaf .any ∉ [y] := fun hmem => hany (List.mem_singleton.1 hmem).symm
    by_cases hnil : y = .leaf .nil
    · have hnone : kept [y] = [] := by
        rw [hnil]
        rfl
      rw [normalUnite_of_nil hnone hnot, hnil]
      exact .refl _
    · refine normalUnite_of_sole hnot (mem_kept.2 ⟨List.mem_cons_self, hnil⟩) fun z hz => ?_
      rw [List.mem_singleton.1 (mem_kept.1 hz).1]
      exact .refl _
  cases x with
  | union xs =>
    rw [members, normalUnite_of_normal hx]
    exact .refl _
  | _ => exact hsole rfl

/-! ## Substitution and unions -/

/-- What is put in is normal. -/
def NormalReplacement (f : Replacement) : Prop := ∀ name node y, f name node = some y → y.Normal

/-- A normal structure stays normal. -/
theorem normal_substitute (hf : NormalReplacement f) {x : Structure} (hx : x.Normal) :
    (substitute f x).Normal := by
  induction x using parts_induction with
  | leaf key =>
    cases key with
    | parameter name node =>
      simp only [substitute]
      cases hy : f name node with
      | none => exact hx
      | some y => exact hf name node y hy
    | _ => simpa only [substitute] using hx
  | value v => simpa only [substitute] using hx
  | applied g xs hg hxs =>
    simp only [Normal, substitute, List.forall_mem_map] at hx ⊢
    exact ⟨hg hx.1, fun y hy => hxs y hy (hx.2 y hy)⟩
  | instanceOf x ih | constructedInstanceOf x ih | reference x ih | labeled _ x ih =>
    simp only [Normal, substitute] at hx ⊢
    exact ih hx
  | function kind arity xs this result ts hxs hthis hresult =>
    simp only [Normal, substitute, List.forall_mem_map] at hx ⊢
    exact ⟨fun y hy => hxs y hy (hx.1 y hy), hthis hx.2.1, hresult hx.2.2.1, hx.2.2.2⟩
  | tuple xs hxs =>
    simp only [Normal, substitute, List.forall_mem_map] at hx ⊢
    exact fun y hy => hxs y hy (hx y hy)
  | union xs hxs =>
    simp only [Normal] at hx
    simp only [substitute]
    refine normal_unite (List.forall_mem_map.2 fun y hy => ?_)
    exact hxs y hy (hx.1 y hy).1
  | record fs hfs =>
    simp only [Normal, substitute, List.forall_mem_map] at hx ⊢
    exact fun field hfield => hfs field hfield (hx field hfield)
  | missing => simpa only [substitute] using hx

/-- The members of a structure with the substitution made. -/
noncomputable def carried (f : Replacement) (x : Structure) : List Structure :=
  (substitute f x).members

theorem carried_leaf {key : TypeKey} (h : ∀ name node, key ≠ .parameter name node) :
    carried f (.leaf key) = [.leaf key] := by
  cases key with
  | parameter name node => exact absurd rfl (h name node)
  | _ => simp [carried, substitute, members]

/-- The members of a normal structure with the substitution made are those of its members. -/
theorem carried_members (hf : NormalReplacement f) {x : Structure} (hx : x.Normal) :
    Alike (carried f x) (x.members.flatMap (carried f)) ∧
      Same (substitute f x) (normalUnite (x.members.flatMap (carried f))) := by
  have hsole (hmembers : x.members = [x]) : x.members.flatMap (carried f) = carried f x := by
    rw [hmembers, List.flatMap_singleton]
  cases x with
  | union xs =>
    have hunion := hx
    simp only [Normal] at hunion
    have hsubstitute : substitute f (.union xs) = normalUnite (xs.flatMap (carried f)) := by
      simp only [substitute, unite, List.flatMap_map]
      rfl
    have hflat : ∀ m ∈ xs.flatMap (carried f), m.Normal ∧ m.members = [m] := by
      intro m hm
      obtain ⟨y, hy, hm⟩ := List.mem_flatMap.1 hm
      exact (normal_substitute hf (hunion.1 y hy).1).of_mem_members hm
    rw [carried, hsubstitute]
    exact ⟨(normal_normalUnite hflat).2, .refl _⟩
  | _ =>
    rw [hsole rfl]
    exact ⟨.refl _, (normalUnite_members (normal_substitute hf hx)).symm⟩

/-- A substitution may be made before or after a union. -/
theorem substitute_unite (hf : NormalReplacement f) {xs : List Structure}
    (h : ∀ x ∈ xs, x.Normal) :
    Same (substitute f (unite xs)) (unite (xs.map (substitute f))) := by
  obtain ⟨hnormal, halike⟩ := normal_normalUnite (flat_of_normal h)
  have hfirst : Same (substitute f (unite xs))
      (normalUnite ((xs.flatMap members).flatMap (carried f))) := by
    refine (carried_members hf hnormal).2.trans (halike.flatMap ?_ ?_ fun hxy => ?_).same
    · exact carried_leaf (by simp)
    · exact carried_leaf (by simp)
    · exact (substitute_congr hxy).members
  have hsecond : unite (xs.map (substitute f)) = normalUnite (xs.flatMap (carried f)) := by
    rw [unite, List.flatMap_map]
    rfl
  rw [hsecond]
  refine hfirst.trans (Same.symm (Alike.same ?_))
  rw [List.flatMap_assoc]
  exact .flatMap_congr fun x hx => (carried_members hf (h x hx)).1

/-! ## Type parameters -/

/-- The type parameters that occur in a structure. The list of type parameters that a function
declares is no occurrence. -/
def parameters : Structure → List (Atom × NodeRef)
  | .leaf (.parameter name node) => [(name, node)]
  | .applied g xs => parameters g ++ xs.flatMap parameters
  | .instanceOf x => parameters x
  | .constructedInstanceOf x => parameters x
  | .reference x => parameters x
  | .function _ _ xs this result _ =>
      xs.flatMap parameters ++ (parameters this ++ parameters result)
  | .tuple xs => xs.flatMap parameters
  | .union xs => xs.flatMap parameters
  | .record fs => fs.flatMap fun field => parameters field.2
  | .labeled _ x => parameters x
  | _ => []
termination_by x => x
decreasing_by
  all_goals first
    | decreasing_tactic
    | exact sizeOf_snd_lt_of_mem ‹_›

/-- **Substituting twice is substituting once**, if the two substitutions come to the same for the
parameters that occur. -/
theorem substitute_substitute (hf : NormalReplacement f) (hg : NormalReplacement g) {x : Structure}
    (hx : x.Normal)
    (h' : ∀ p ∈ x.parameters, Same (substitute h (.leaf (.parameter p.1 p.2)))
      (substitute f (substitute g (.leaf (.parameter p.1 p.2))))) :
    Same (substitute h x) (substitute f (substitute g x)) := by
  have hlist {xs : List Structure}
      (hxs : ∀ x ∈ xs, Same (substitute h x) (substitute f (substitute g x))) :
      List.Forall₂ Same (xs.map (substitute h)) ((xs.map (substitute g)).map (substitute f)) := by
    rw [List.map_map, List.forall₂_map_left_iff, List.forall₂_map_right_iff]
    exact List.forall₂_same.2 hxs
  induction x using parts_induction with
  | leaf key =>
    cases key with
    | parameter name node => exact h' (name, node) (by simp [parameters])
    | _ => simpa only [substitute] using Same.refl _
  | value v | missing => simpa only [substitute] using Same.refl _
  | applied g xs hg' hxs =>
    simp only [Normal] at hx
    simp only [parameters, List.mem_append, List.mem_flatMap] at h'
    simp only [substitute]
    refine same_applied_iff.2 ⟨_, _, rfl, hg' hx.1 fun p hp =>
      h' p (.inl hp), hlist fun x hmem => ?_⟩
    exact hxs x hmem (hx.2 x hmem) fun p hp => h' p (.inr ⟨x, hmem, hp⟩)
  | instanceOf x ih =>
    simp only [Normal] at hx
    simp only [parameters] at h'
    simp only [substitute]
    exact same_instanceOf_iff.2 ⟨_, rfl, ih hx h'⟩
  | constructedInstanceOf x ih =>
    simp only [Normal] at hx
    simp only [parameters] at h'
    simp only [substitute]
    exact same_constructedInstanceOf_iff.2 ⟨_, rfl, ih hx h'⟩
  | reference x ih =>
    simp only [Normal] at hx
    simp only [parameters] at h'
    simp only [substitute]
    exact same_reference_iff.2 ⟨_, rfl, ih hx h'⟩
  | function kind arity xs this result ts hxs hthis hresult =>
    simp only [Normal] at hx
    simp only [parameters, List.mem_append, List.mem_flatMap] at h'
    simp only [substitute]
    refine same_function_iff.2 ⟨_, _, _, _, rfl, hlist fun x hmem => ?_, ?_, ?_, ?_⟩
    · exact hxs x hmem (hx.1 x hmem) fun p hp => h' p (.inl ⟨x, hmem, hp⟩)
    · exact hthis hx.2.1 fun p hp => h' p (.inr (.inl hp))
    · exact hresult hx.2.2.1 fun p hp => h' p (.inr (.inr hp))
    · exact List.forall₂_same.2 fun t _ => .refl t
  | tuple xs hxs =>
    simp only [Normal] at hx
    simp only [parameters, List.mem_flatMap] at h'
    simp only [substitute]
    refine same_tuple_iff.2 ⟨_, rfl, hlist fun x hmem => ?_⟩
    exact hxs x hmem (hx x hmem) fun p hp => h' p ⟨x, hmem, hp⟩
  | union xs hxs =>
    simp only [Normal] at hx
    simp only [parameters, List.mem_flatMap] at h'
    simp only [substitute]
    have hmembers := hlist fun x hmem =>
      hxs x hmem (hx.1 x hmem).1 fun p hp => h' p ⟨x, hmem, hp⟩
    refine (unite_congr (.of_forall₂ hmembers)).trans (substitute_unite hf ?_).symm
    exact List.forall_mem_map.2 fun x hmem => normal_substitute hg (hx.1 x hmem).1
  | record fs hfs =>
    simp only [Normal] at hx
    simp only [parameters, List.mem_flatMap] at h'
    simp only [substitute, List.map_map]
    refine same_record_iff.2 ⟨_, rfl, sameFields_of_forall₂ ?_⟩
    rw [List.forall₂_map_left_iff, List.forall₂_map_right_iff]
    refine List.forall₂_same.2 fun field hfield => ⟨rfl, ?_⟩
    exact hfs field hfield (hx field hfield) fun p hp => h' p ⟨field, hfield, hp⟩
  | labeled label x ih =>
    simp only [Normal] at hx
    simp only [parameters] at h'
    simp only [substitute]
    exact same_labeled_iff.2 ⟨_, rfl, ih hx h'⟩

end Structure

end DocTypes
