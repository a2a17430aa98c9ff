import DocTypes.Proofs.Types.Formers

/-!
# Substitution in structures

`Structure.substitute` puts structures in for the type parameters of a structure, all at once.
What is put in is not looked at again. A function keeps its arity and its own list of type
parameters, and unions get their normal form anew.

In the structures of types all unions have their normal form already (`Structure.Normal`), so a
substitution that finds nothing to replace there changes nothing.

## Main statements

* `Structure.substitute_of_within_zero`: without a parameter to be replaced, a structure stays
  the same.
* `Structure.followed_applied` and the like: what it takes to get to every parameter to be replaced.
* `Store.Sound.normal_unfold`: the structures of types are normal.
-/

namespace DocTypes

open Structure

/-- What is put in for the type parameter of a name and a node. -/
abbrev Replacement := Atom → NodeRef → Option Structure

namespace Structure

theorem sizeOf_snd_lt_of_mem {fs : List (Atom × Structure)} {field : Atom × Structure}
    (h : field ∈ fs) : sizeOf field.2 < sizeOf (record fs) := by
  have hlt := List.sizeOf_lt_of_mem h
  obtain ⟨label, x⟩ := field
  simp only [Prod.mk.sizeOf_spec] at hlt
  simp only [record.sizeOf_spec]
  omega

/-- A structure with structures put in for its type parameters. -/
noncomputable def substitute (f : Replacement) : Structure → Structure
  | .leaf (.parameter name node) => (f name node).getD (.leaf (.parameter name node))
  | .applied g xs => .applied (substitute f g) (xs.map (substitute f))
  | .instanceOf x => .instanceOf (substitute f x)
  | .constructedInstanceOf x => .constructedInstanceOf (substitute f x)
  | .reference x => .reference (substitute f x)
  | .function kind arity xs this result ts =>
    .function kind arity (xs.map (substitute f)) (substitute f this) (substitute f result) ts
  | .tuple xs => .tuple (xs.map (substitute f))
  | .union xs => unite (xs.map (substitute f))
  | .record fs => .record (fs.map fun field => (field.1, substitute f field.2))
  | .labeled label x => .labeled label (substitute f x)
  | x => x
termination_by x => x
decreasing_by
  all_goals first
    | decreasing_tactic
    | exact sizeOf_snd_lt_of_mem ‹_›

/-- Every type parameter for which something is put in lies under fewer than `n` formers of
types, wherever it occurs. The labels of a record do not count. -/
def Within (f : Replacement) : (n : Nat) → Structure → Prop
  | n, .leaf (.parameter name node) => (f name node).isSome → 0 < n
  | n, .applied g xs => Within f n g ∧ ∀ x ∈ xs, Within f (n - 1) x
  | n, .instanceOf x => Within f n x
  | n, .constructedInstanceOf x => Within f n x
  | n, .reference x => Within f n x
  | n, .function _ _ xs this result _ =>
    (∀ x ∈ xs, Within f (n - 1) x) ∧ Within f (n - 1) this ∧ Within f (n - 1) result
  | n, .tuple xs => ∀ x ∈ xs, Within f (n - 1) x
  | n, .union xs => ∀ x ∈ xs, Within f (n - 1) x
  | n, .record fs => ∀ field ∈ fs, Within f (n - 1) field.2
  | n, .labeled _ x => Within f (n - 1) x
  | _, _ => True
termination_by _ x => x
decreasing_by
  all_goals first
    | decreasing_tactic
    | exact sizeOf_snd_lt_of_mem ‹_›

/-- No type parameter for which something is put in occurs in what a type of plain instances, a
reference or an application names. -/
def NamesNone (f : Replacement) : Structure → Prop
  | .applied g xs => Within f 0 g ∧ ∀ x ∈ xs, NamesNone f x
  | .instanceOf x => Within f 0 x
  | .constructedInstanceOf x => NamesNone f x
  | .reference x => Within f 0 x
  | .function _ _ xs this result _ =>
    (∀ x ∈ xs, NamesNone f x) ∧ NamesNone f this ∧ NamesNone f result
  | .tuple xs => ∀ x ∈ xs, NamesNone f x
  | .union xs => ∀ x ∈ xs, NamesNone f x
  | .record fs => ∀ field ∈ fs, NamesNone f field.2
  | .labeled _ x => NamesNone f x
  | _ => True
termination_by x => x
decreasing_by
  all_goals first
    | decreasing_tactic
    | exact sizeOf_snd_lt_of_mem ‹_›

/-- The walk that puts types in gets to every type parameter for which something is put in. It
follows `n` levels, and it does not look into what is named. -/
def Followed (f : Replacement) (n : Nat) (x : Structure) : Prop := Within f n x ∧ NamesNone f x

/-- Every union inside is in normal form: it has two different members, and none of its members
is a union, `*` or the empty union. -/
def Normal : Structure → Prop
  | .applied g xs => Normal g ∧ ∀ x ∈ xs, Normal x
  | .instanceOf x => Normal x
  | .constructedInstanceOf x => Normal x
  | .reference x => Normal x
  | .function _ _ xs this result ts =>
    (∀ x ∈ xs, Normal x) ∧ Normal this ∧ Normal result ∧ ∀ t ∈ ts, Normal t
  | .tuple xs => ∀ x ∈ xs, Normal x
  | .union xs =>
    (∀ x ∈ xs, Normal x ∧ x.members = [x] ∧ x ≠ .leaf .any ∧ x ≠ .leaf .nil) ∧
      ∃ x ∈ xs, ∃ y ∈ xs, ¬Same x y
  | .record fs => ∀ field ∈ fs, Normal field.2
  | .labeled _ x => Normal x
  | _ => True
termination_by x => x
decreasing_by
  all_goals first
    | decreasing_tactic
    | exact sizeOf_snd_lt_of_mem ‹_›

variable {f : Replacement}

/-- A substitution that puts nothing in has nothing to replace. -/
theorem within_of_none (hf : ∀ name node, f name node = none) (n : Nat) (x : Structure) :
    Within f n x := by
  induction x using parts_induction generalizing n with
  | leaf key => cases key <;> simp [Within, hf]
  | value v => simp [Within]
  | applied g xs hg hxs => simpa only [Within] using ⟨hg _, fun x hx => hxs x hx _⟩
  | instanceOf x hx | constructedInstanceOf x hx | reference x hx | labeled _ x hx =>
    simpa only [Within] using hx _
  | function kind arity xs this result ts hxs hthis hresult hts =>
    simpa only [Within] using ⟨fun x hx => hxs x hx _, hthis _, hresult _⟩
  | tuple xs hxs | union xs hxs => simpa only [Within] using fun x hx => hxs x hx _
  | record fs hfs => simpa only [Within] using fun field hfield => hfs field hfield _
  | missing => simp [Within]

/-- What lies under fewer formers lies under fewer than more. -/
theorem Within.mono {n m : Nat} {x : Structure} (h : Within f n x) (hle : n ≤ m) :
    Within f m x := by
  have hpred {k l : Nat} (hkl : k ≤ l) : k - 1 ≤ l - 1 := Nat.sub_le_sub_right hkl 1
  induction x using parts_induction generalizing n m with
  | leaf key =>
    cases key with
    | parameter name node =>
      simp only [Within] at h ⊢
      exact fun hsome => Nat.lt_of_lt_of_le (h hsome) hle
    | _ => simp [Within]
  | value v | missing => simp [Within]
  | applied g xs hg hxs =>
    simp only [Within] at h ⊢
    exact ⟨hg h.1 hle, fun x hx => hxs x hx (h.2 x hx) (hpred hle)⟩
  | instanceOf x ih | constructedInstanceOf x ih | reference x ih =>
    simp only [Within] at h ⊢
    exact ih h hle
  | function kind arity xs this result ts hxs hthis hresult =>
    simp only [Within] at h ⊢
    exact ⟨fun x hx => hxs x hx (h.1 x hx) (hpred hle), hthis h.2.1 (hpred hle),
      hresult h.2.2 (hpred hle)⟩
  | tuple xs hxs | union xs hxs =>
    simp only [Within] at h ⊢
    exact fun x hx => hxs x hx (h x hx) (hpred hle)
  | record fs hfs =>
    simp only [Within] at h ⊢
    exact fun field hfield => hfs field hfield (h field hfield) (hpred hle)
  | labeled _ x ih =>
    simp only [Within] at h ⊢
    exact ih h (hpred hle)

/-- Where nothing is to be replaced, what is named has nothing to be replaced either. -/
theorem namesNone_of_within_zero {x : Structure} (h : Within f 0 x) : NamesNone f x := by
  induction x using parts_induction with
  | leaf key => cases key <;> simp [NamesNone]
  | value v | missing => simp [NamesNone]
  | applied g xs _ hxs =>
    simp only [Within, NamesNone] at h ⊢
    exact ⟨h.1, fun x hx => hxs x hx (h.2 x hx)⟩
  | instanceOf x | reference x =>
    simp only [Within, NamesNone] at h ⊢
    exact h
  | constructedInstanceOf x ih | labeled _ x ih =>
    simp only [Within, NamesNone] at h ⊢
    exact ih h
  | function kind arity xs this result ts hxs hthis hresult =>
    simp only [Within, NamesNone] at h ⊢
    exact ⟨fun x hx => hxs x hx (h.1 x hx), hthis h.2.1, hresult h.2.2⟩
  | tuple xs hxs | union xs hxs =>
    simp only [Within, NamesNone] at h ⊢
    exact fun x hx => hxs x hx (h x hx)
  | record fs hfs =>
    simp only [Within, NamesNone] at h ⊢
    exact fun field hfield => hfs field hfield (h field hfield)

/-! ### What is followed -/

theorem followed_zero {x : Structure} : Followed f 0 x ↔ Within f 0 x :=
  ⟨And.left, fun h => ⟨h, namesNone_of_within_zero h⟩⟩

section Followed

variable {n : Nat}

/-- In what an application names there is nothing to be replaced. -/
theorem followed_applied {g : Structure} {xs : List Structure} :
    Followed f (n + 1) (.applied g xs) ↔ Within f 0 g ∧ ∀ x ∈ xs, Followed f n x := by
  simp only [Followed, Within, NamesNone, Nat.add_sub_cancel]
  constructor
  · exact fun h => ⟨h.2.1, fun x hx => ⟨h.1.2 x hx, h.2.2 x hx⟩⟩
  · exact fun h => ⟨⟨h.1.mono (Nat.zero_le _), fun x hx => (h.2 x hx).1⟩, h.1,
      fun x hx => (h.2 x hx).2⟩

theorem followed_instanceOf {x : Structure} : Followed f n (.instanceOf x) ↔ Within f 0 x := by
  simp only [Followed, Within, NamesNone]
  exact ⟨And.right, fun h => ⟨h.mono (Nat.zero_le _), h⟩⟩

theorem followed_reference {x : Structure} : Followed f n (.reference x) ↔ Within f 0 x := by
  simp only [Followed, Within, NamesNone]
  exact ⟨And.right, fun h => ⟨h.mono (Nat.zero_le _), h⟩⟩

theorem followed_constructedInstanceOf {x : Structure} :
    Followed f n (.constructedInstanceOf x) ↔ Followed f n x := by
  simp only [Followed, Within, NamesNone]

theorem followed_tuple {xs : List Structure} :
    Followed f (n + 1) (.tuple xs) ↔ ∀ x ∈ xs, Followed f n x := by
  simp only [Followed, Within, NamesNone, Nat.add_sub_cancel, ← forall₂_and]

theorem followed_union {xs : List Structure} :
    Followed f (n + 1) (.union xs) ↔ ∀ x ∈ xs, Followed f n x := by
  simp only [Followed, Within, NamesNone, Nat.add_sub_cancel, ← forall₂_and]

theorem followed_record {fs : List (Atom × Structure)} :
    Followed f (n + 1) (.record fs) ↔ ∀ field ∈ fs, Followed f n field.2 := by
  simp only [Followed, Within, NamesNone, Nat.add_sub_cancel, ← forall₂_and]

theorem followed_labeled {label : Atom} {x : Structure} :
    Followed f (n + 1) (.labeled label x) ↔ Followed f n x := by
  simp only [Followed, Within, NamesNone, Nat.add_sub_cancel]

theorem followed_function {kind : FunctionKind} {arity : Arity} {xs ts : List Structure}
    {this result : Structure} : Followed f (n + 1) (.function kind arity xs this result ts) ↔
      (∀ x ∈ xs, Followed f n x) ∧ Followed f n this ∧ Followed f n result := by
  simp only [Followed, Within, NamesNone, Nat.add_sub_cancel]
  constructor
  · rintro ⟨⟨hxs, hthis, hresult⟩, hxs', hthis', hresult'⟩
    exact ⟨fun x hx => ⟨hxs x hx, hxs' x hx⟩, ⟨hthis, hthis'⟩, hresult, hresult'⟩
  · rintro ⟨hxs, ⟨hthis, hthis'⟩, hresult, hresult'⟩
    exact ⟨⟨fun x hx => (hxs x hx).1, hthis, hresult⟩, fun x hx => (hxs x hx).2, hthis', hresult'⟩

end Followed

theorem flatMap_members {xs : List Structure} (h : ∀ x ∈ xs, x.members = [x]) :
    xs.flatMap members = xs := by
  conv_rhs => rw [← List.flatMap_singleton' xs]
  exact List.flatMap_congr h

/-- A union in normal form is the union of its members. -/
theorem normalUnite_of_normal {xs : List Structure} (h : Normal (.union xs)) :
    normalUnite xs = .union xs := by
  simp only [Normal] at h
  obtain ⟨hmembers, x, hx, y, hy, hne⟩ := h
  have hkept : kept xs = xs :=
    List.filter_eq_self.2 fun z hz => by
      simpa only [Bool.not_eq_true', ← Bool.not_eq_true, isLeaf_iff] using (hmembers z hz).2.2.2
  have hany : .leaf .any ∉ xs := fun hmem => (hmembers _ hmem).2.2.1 rfl
  rw [← hkept] at hx hy
  rw [normalUnite_of_several hany hx hy hne, hkept]

theorem unite_of_normal {xs : List Structure} (h : Normal (.union xs)) : unite xs = .union xs := by
  have hnormal := h
  simp only [Normal] at hnormal
  rw [unite, flatMap_members fun x hx => (hnormal.1 x hx).2.1]
  exact normalUnite_of_normal h

theorem forall₂_map_self {xs : List Structure} {g : Structure → Structure}
    (h : ∀ x ∈ xs, Same (g x) x) : List.Forall₂ Same (xs.map g) xs := by
  rw [List.forall₂_map_left_iff]
  exact List.forall₂_same.2 h

/-- Without a parameter to be replaced, a structure stays the same. -/
theorem substitute_of_within_zero {x : Structure} (hx : x.Normal) (h : x.Within f 0) :
    Same (substitute f x) x := by
  induction x using parts_induction with
  | leaf key =>
    cases key with
    | parameter name node =>
      simp only [Within, Option.isSome_iff_ne_none, Nat.lt_irrefl, imp_false, not_not] at h
      simpa only [substitute, h, Option.getD_none] using Same.refl _
    | _ => simpa only [substitute] using Same.refl _
  | value v => simpa only [substitute] using Same.refl _
  | applied g xs hg hxs =>
    simp only [Normal] at hx
    simp only [Within] at h
    simp only [substitute]
    exact same_applied_iff.2 ⟨_, _, rfl, hg hx.1 h.1,
      forall₂_map_self fun y hy => hxs y hy (hx.2 y hy) (h.2 y hy)⟩
  | instanceOf x ih =>
    simp only [Normal, Within, substitute] at hx h ⊢
    exact same_instanceOf_iff.2 ⟨_, rfl, ih hx h⟩
  | constructedInstanceOf x ih =>
    simp only [Normal, Within, substitute] at hx h ⊢
    exact same_constructedInstanceOf_iff.2 ⟨_, rfl, ih hx h⟩
  | reference x ih =>
    simp only [Normal, Within, substitute] at hx h ⊢
    exact same_reference_iff.2 ⟨_, rfl, ih hx h⟩
  | function kind arity xs this result ts hxs hthis hresult =>
    simp only [Normal, Within, substitute] at hx h ⊢
    obtain ⟨hnormal, hnormalThis, hnormalResult, -⟩ := hx
    refine same_function_iff.2 ⟨_, _, _, _, rfl, ?_, hthis hnormalThis h.2.1,
      hresult hnormalResult h.2.2, List.forall₂_same.2 fun t _ => .refl t⟩
    exact forall₂_map_self fun y hy => hxs y hy (hnormal y hy) (h.1 y hy)
  | tuple xs hxs =>
    simp only [Normal, Within, substitute] at hx h ⊢
    exact same_tuple_iff.2 ⟨_, rfl, forall₂_map_self fun y hy => hxs y hy (hx y hy) (h y hy)⟩
  | union xs hxs =>
    have hunion := unite_of_normal hx
    simp only [Normal, Within, substitute] at hx h ⊢
    rw [← hunion]
    refine unite_congr (.of_forall₂ (forall₂_map_self fun y hy => ?_))
    exact hxs y hy (hx.1 y hy).1 (h y hy)
  | record fs hfs =>
    simp only [Normal, Within, substitute] at hx h ⊢
    refine same_record_iff.2 ⟨_, rfl, fun label => ?_⟩
    rw [lookup_map]
    cases hfield : fs.lookup label with
    | none => exact .none
    | some y =>
      have hmem := mem_of_lookup_eq_some hfield
      exact .some (hfs _ hmem (hx _ hmem) (h _ hmem))
  | labeled label x ih =>
    simp only [Normal, Within, substitute] at hx h ⊢
    exact same_labeled_iff.2 ⟨_, rfl, ih hx h⟩
  | missing => simpa only [substitute] using Same.refl _

end Structure

namespace Store.Sound

variable {s : Store}

/-! ## The structures of types are normal -/

/-- The structure of a value is normal, if those are of the types that it is applied to. -/
theorem normal_valueTo {steps : Nat} {v : ValueId}
    (h : ∀ t ∈ s.valueParts steps v, (s.unfold t).Normal) :
    (s.valueTo s.unfold steps v).Normal := by
  induction steps generalizing v with
  | zero => simp [valueTo, Structure.Normal]
  | succ steps ih =>
    unfold valueTo
    unfold valueParts at h
    cases hx : s.values.application? v with
    | none => simp [Structure.Normal]
    | some x =>
      simp only [hx, List.mem_append] at h
      simp only [Structure.Normal, List.mem_map]
      refine ⟨ih fun t ht => h t (.inr ht), ?_⟩
      rintro _ ⟨t, ht, rfl⟩
      exact h t (.inl ht)

/-- A layer over normal structures is normal. -/
theorem normal_layer (hs : s.Sound) {t : TypeId} {key : TypeKey} (hkey : s.types.key? t = some key)
    (h : ∀ part ∈ s.parts key, (s.unfold part).Normal) : (s.layer s.unfold key).Normal := by
  have hknown := hs.canonical.keyKnown t key hkey
  cases key with
  | instanceOf v | constructedInstanceOf v | reference v =>
    simp only [layer, Structure.Normal]
    exact normal_valueTo h
  | function shape =>
    simp only [layer, Structure.Normal, List.forall_mem_map]
    simp only [parts, List.mem_cons, List.mem_append] at h
    exact ⟨fun t ht => h t (.inr (.inr (.inl ht))), h _ (.inl rfl), h _ (.inr (.inl rfl)),
      fun t ht => h t (.inr (.inr (.inr ht)))⟩
  | union l =>
    have hlist := hs.canonical.lists l
    obtain ⟨htwo, hproper⟩ := hs.flatUnions t l hkey
    simp only [layer, Structure.Normal, List.forall_mem_map]
    constructor
    · intro m hm
      have hm' := hproper m hm
      refine ⟨h m hm, ?_, ?_, ?_⟩
      · rw [hs.members_unfold (hlist m hm), TypeStore.members_of_not_union hm'.not_union]
        rfl
      · exact fun heq => hm'.ne_any ((hs.unfold_eq_any_iff (hlist m hm)).1 heq)
      · exact fun heq => hm'.ne_nil ((hs.unfold_eq_nil_iff (hlist m hm)).1 heq)
    · have hsorted : (s.types.list l).Pairwise (·.index < ·.index) := hs.canonical.normal t _ hkey
      rcases hset : s.types.list l with _ | ⟨m, _ | ⟨m', rest⟩⟩
      · simp [hset] at htwo
      · simp [hset] at htwo
      · rw [hset] at hsorted hlist
        have hm' : m' ∈ m :: m' :: rest := List.mem_cons_of_mem _ List.mem_cons_self
        have hlt : m.index < m'.index := (List.pairwise_cons.1 hsorted).1 _ List.mem_cons_self
        refine ⟨_, List.mem_cons_self, _, List.mem_cons_of_mem _ List.mem_cons_self,
          fun hsame => ?_⟩
        have heq := (hs.same_unfold_iff (hlist m List.mem_cons_self) (hlist m' hm')).1 hsame
        rw [heq] at hlt
        exact Nat.lt_irrefl _ hlt
  | tuple l =>
    simp only [layer, Structure.Normal, List.forall_mem_map]
    exact h
  | record l =>
    simp only [layer, Structure.Normal, List.mem_filterMap]
    rintro ⟨label, x⟩ ⟨u, hu, hfield⟩
    unfold field? at hfield
    split at hfield
    · next l' type hlabeled =>
      cases hfield
      refine h type (List.mem_append_right _ (List.mem_flatMap.2 ⟨u, hu, ?_⟩))
      simp [labeledPart, hlabeled]
    · cases hfield
  | labeled label type =>
    simp only [layer, Structure.Normal]
    exact h type (by simp [parts])
  | _ => simp [layer, Structure.Normal]

/-- The structure of a known type is normal. -/
theorem normal_unfold (hs : s.Sound) {t : TypeId} (ht : s.Known t) : (s.unfold t).Normal := by
  -- the parts of a type are older than it
  induction hn : t.index using Nat.strong_induction_on generalizing t with
  | _ n ih =>
    obtain ⟨key, hkey⟩ := Option.isSome_iff_exists.1 ht
    rw [hs.unfold_of_key? hkey]
    refine hs.normal_layer hkey fun part hpart => ih part.index ?_ ?_ rfl
    · rw [← hn]
      exact hs.canonical.descends t key hkey part hpart
    · exact hs.canonical.known_of_mem_parts key (hs.canonical.keyKnown t key hkey) hpart

/-- The structure of a value is normal. -/
theorem normal_valueStructure (hs : s.Sound) (v : ValueId) :
    (s.valueStructure s.unfold v).Normal :=
  normal_valueTo fun _ ht => hs.normal_unfold (hs.canonical.known_of_mem_valueParts ht)

end Store.Sound

end DocTypes
