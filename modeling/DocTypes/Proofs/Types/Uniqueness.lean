import DocTypes.Proofs.Types.Canonical
import Mathlib.Data.List.Sort

/-!
# A structure has one number

In a canonical store the structure of a type gives its number away. The proof goes up the
numbers: the parts of a type are older, so their structures give their numbers, and then
the layer gives the key (`Store.Canonical.eq_of_same_layer`). Members of a union and fields
of a record stand in a fixed order, so the set and the map give the list.

## Main statement

* `Store.Canonical.same_unfold_iff`: in a canonical store, two types are equal if and only
  if they unfold to the same structure.
-/

namespace DocTypes

open Structure

namespace Structure

/-- Lists of the same structures, compared place by place, come from the same list, if the
structures of the places tell them apart. -/
theorem eq_of_same_map {α : Type} {f : α → Structure} {xs ys : List α}
    (hlength : (xs.map f).length = (ys.map f).length)
    (hsame : ∀ (i : Nat) (hx : i < (xs.map f).length) (hy : i < (ys.map f).length),
      Same (xs.map f)[i] (ys.map f)[i])
    (hinj : ∀ x ∈ xs, ∀ y ∈ ys, Same (f x) (f y) → x = y) : xs = ys := by
  simp only [List.length_map] at hlength
  refine List.ext_getElem hlength fun i hx hy => ?_
  have h := hsame i (by simpa using hx) (by simpa using hy)
  simp only [List.getElem_map] at h
  exact hinj _ (List.getElem_mem hx) _ (List.getElem_mem hy) h

/-- Two lists in strict order with the same members are the same. -/
theorem eq_of_mem_iff_of_pairwise {α : Type} (f : α → Nat) {xs ys : List α}
    (hx : xs.Pairwise fun x y => f x < f y) (hy : ys.Pairwise fun x y => f x < f y)
    (h : ∀ x, x ∈ xs ↔ x ∈ ys) : xs = ys := by
  have : Std.Irrefl fun x y : α => f x < f y := ⟨fun x => Nat.lt_irrefl (f x)⟩
  have : Std.Antisymm fun x y : α => f x < f y := ⟨fun x y hxy hyx => by omega⟩
  exact hx.eq_of_mem_iff hy h

theorem lookup_map {α β : Type} (f : α → β) (fields : List (Atom × α)) (label : Atom) :
    (fields.map fun field => (field.1, f field.2)).lookup label
      = (fields.lookup label).map f := by
  induction fields with
  | nil => rfl
  | cons field rest ih =>
    obtain ⟨l, x⟩ := field
    simp only [List.map_cons, List.lookup_cons, ih]
    cases label == l <;> rfl

/-- In a list of fields in order, a field is found under its label. -/
theorem lookup_eq_some_iff_mem {α : Type} {fields : List (Atom × α)} {label : Atom} {x : α}
    (h : fields.Pairwise (·.1.index < ·.1.index)) :
    fields.lookup label = some x ↔ (label, x) ∈ fields := by
  refine ⟨mem_of_lookup_eq_some, fun hmem => ?_⟩
  induction fields with
  | nil => simp at hmem
  | cons field rest ih =>
    rw [List.pairwise_cons] at h
    rcases List.mem_cons.1 hmem with rfl | hmem
    · simp
    · have hlt : field.1.index < label.index := h.1 _ hmem
      have hne : (label == field.1) = false := by
        rw [beq_eq_false_iff_ne]
        rintro rfl
        exact Nat.lt_irrefl _ hlt
      rw [List.lookup_cons, hne]
      exact ih h.2 hmem

end Structure

namespace Store

variable {s : Store} {f : TypeId → Structure}

/-! ## Keys and lists -/

/-- The fields that labelled types are, read off their keys. -/
theorem filterMap_field? {types : List TypeId} {fields : List (Atom × TypeId)}
    (h : types.map s.types.key? = fields.map fun field => some (.labeled field.1 field.2)) :
    types.filterMap (s.field? f) = fields.map fun field => (field.1, f field.2) := by
  induction fields generalizing types with
  | nil =>
    rw [List.map_nil, List.map_eq_nil_iff] at h
    simp [h]
  | cons field rest ih =>
    obtain ⟨t, types, rfl, ht, hrest⟩ := List.map_eq_cons_iff.1 h
    simp [field?, ht, ih hrest]

/-- The types of a record's fields are parts of it. -/
theorem mem_parts_of_field {l : ListId} {fields : List (Atom × TypeId)} {label : Atom}
    {t : TypeId} (h : (s.types.list l).map s.types.key?
      = fields.map fun field => some (.labeled field.1 field.2))
    (hmem : (label, t) ∈ fields) : t ∈ s.parts (.record l) := by
  have hkey : some (.labeled label t) ∈ (s.types.list l).map s.types.key? := by
    rw [h]
    exact List.mem_map.2 ⟨(label, t), hmem, rfl⟩
  obtain ⟨u, hu, hkey⟩ := List.mem_map.1 hkey
  refine List.mem_append_right _ (List.mem_flatMap.2 ⟨u, hu, ?_⟩)
  simp [labeledPart, hkey]

/-- A list is the only one with its types. -/
theorem eq_of_list_eq {l m : ListId} (hl : s.ListKnown l) (hm : s.ListKnown m)
    (h : s.types.list l = s.types.list m) : l = m := by
  obtain ⟨ts, hts⟩ := Option.isSome_iff_exists.1 hl
  obtain ⟨us, hus⟩ := Option.isSome_iff_exists.1 hm
  simp only [TypeStore.list, hts, hus, Option.getD_some] at h
  subst h
  have hindex := Registry.eq_of_get?_eq hts hus
  cases l
  cases m
  simpa using hindex

namespace Canonical

/-- A type is the only one with its key. -/
theorem eq_of_key?_eq (h : s.Canonical) {t u : TypeId} {key : TypeKey}
    (ht : s.types.key? t = some key) (hu : s.types.key? u = some key) : t = u := by
  have hintrinsic {v : TypeId} (hv : s.types.key? v = some key) :
      v.isIntrinsic = key.intrinsic?.isSome := by
    cases hi : v.isIntrinsic with
    | true =>
      simp only [TypeStore.key?, hi, if_true] at hv
      exact (isSome_intrinsic? hv).symm
    | false => simp [h.interned v key hv hi]
  have hindex : t.index = u.index := by
    have hti := hintrinsic ht
    have hui := hintrinsic hu
    cases hkey : key.intrinsic?.isSome with
    | true =>
      rw [hkey] at hti hui
      simp only [TypeStore.key?, hti, hui, if_true] at ht hu
      have hnodup : TypeKey.intrinsics.Nodup := by decide
      obtain ⟨htlt, -⟩ := List.getElem?_eq_some_iff.1 ht
      exact (List.getElem?_inj htlt hnodup).1 (ht.trans hu.symm)
    | false =>
      rw [hkey] at hti hui
      simp only [TypeStore.key?, hti, hui] at ht hu
      obtain ⟨stored, hstored, hread⟩ := Option.bind_eq_some_iff.1 ht
      obtain ⟨stored', hstored', hread'⟩ := Option.bind_eq_some_iff.1 hu
      rw [TypeStore.eq_of_read?_eq hread' hread] at hstored'
      have hsame := Registry.eq_of_get?_eq hstored hstored'
      simp only [TypeId.isIntrinsic, decide_eq_false_iff_not] at hti hui
      omega
  cases t
  cases u
  simpa using hindex

/-- Known types with the same keys are the same types. -/
theorem eq_of_map_key?_eq (h : s.Canonical) {xs ys : List TypeId} (hxs : ∀ t ∈ xs, s.Known t)
    (heq : xs.map s.types.key? = ys.map s.types.key?) : xs = ys := by
  have hlength : xs.length = ys.length := by simpa using congrArg List.length heq
  refine List.ext_getElem hlength fun i hx hy => ?_
  obtain ⟨key, hkey⟩ := Option.isSome_iff_exists.1 (hxs _ (List.getElem_mem hx))
  have hat : (xs.map s.types.key?)[i]? = (ys.map s.types.key?)[i]? := by rw [heq]
  simp only [List.getElem?_map, List.getElem?_eq_getElem hx, List.getElem?_eq_getElem hy,
    Option.map_some, Option.some.injEq] at hat
  exact h.eq_of_key?_eq hkey (hat.symm.trans hkey)

/-! ## One layer -/

/-- A value is the only one with its structure. -/
theorem eq_of_same_valueTo (h : s.Canonical) {n m : Nat} {v w : ValueId}
    (hn : v.index < n) (hm : w.index < m)
    (hinj : ∀ p ∈ s.valueParts n v, ∀ q, s.Known q → Same (f p) (f q) → p = q)
    (hsame : Same (s.valueTo f n v) (s.valueTo f m w)) : v = w := by
  induction n generalizing m v w with
  | zero => omega
  | succ n ih =>
    obtain ⟨m, rfl⟩ : ∃ k, m = k + 1 := ⟨m - 1, by omega⟩
    unfold valueTo at hsame
    unfold valueParts at hinj
    cases hv : s.values.application? v with
    | none =>
      cases hw : s.values.application? w with
      | none => simpa [hv, hw, Same] using hsame
      | some y => simp [hv, hw, Same] at hsame
    | some x =>
      cases hw : s.values.application? w with
      | none => simp [hv, hw, Same] at hsame
      | some y =>
        simp only [hv, hw, Same] at hsame
        simp only [hv, List.mem_append] at hinj
        obtain ⟨hgeneric, hlength, harguments⟩ := hsame
        have hxlt := h.generic_lt v x hv
        have hylt := h.generic_lt w y hw
        have hg : x.generic = y.generic :=
          ih (by omega) (by omega) (fun p hp => hinj p (.inr hp)) hgeneric
        have hlists : s.types.list x.arguments = s.types.list y.arguments :=
          eq_of_same_map hlength harguments
            fun p hp q hq => hinj p (.inl hp) q (h.lists _ q hq)
        have ha : x.arguments = y.arguments :=
          eq_of_list_eq (h.applicationsKnown v x hv).2 (h.applicationsKnown w y hw).2 hlists
        have hxy : x = y := by
          cases x
          cases y
          simp_all
        subst hxy
        have hfirst := (h.application_iff v x).2 hv
        have hsecond := (h.application_iff w x).2 hw
        exact Option.some.inj (hfirst.symm.trans hsecond)

/-- Signatures with the same parts are the same signature. -/
theorem eq_of_same_function (h : s.Canonical) {x y : FunctionShape}
    (hx : s.KeyKnown (.function x)) (hy : s.KeyKnown (.function y))
    (hinj : ∀ p ∈ s.parts (.function x), ∀ q, s.Known q → Same (f p) (f q) → p = q)
    (hsame : Same (s.layer f (.function x)) (s.layer f (.function y))) : x = y := by
  simp only [layer, Same] at hsame
  simp only [parts, List.mem_cons, List.mem_append] at hinj
  obtain ⟨hkind, harity, hthis, hreturn, hplength, htlength, hparams, htemplates⟩ := hsame
  obtain ⟨hxp, _, _, hxt⟩ := hx
  obtain ⟨hyp, hythis, hyreturn, hyt⟩ := hy
  have hthis := hinj x.thisType (.inl rfl) y.thisType hythis hthis
  have hreturn := hinj x.returnType (.inr (.inl rfl)) y.returnType hyreturn hreturn
  have hparams : x.parameters = y.parameters :=
    eq_of_list_eq hxp hyp <| eq_of_same_map hplength hparams fun p hp q hq =>
      hinj p (.inr (.inr (.inl hp))) q (h.lists _ q hq)
  have htemplates : x.typeParameters = y.typeParameters :=
    eq_of_list_eq hxt hyt <| eq_of_same_map htlength htemplates fun p hp q hq =>
      hinj p (.inr (.inr (.inr hp))) q (h.lists _ q hq)
  cases x
  cases y
  simp_all

/-- Unions with the same members are the same union. -/
theorem eq_of_same_union (h : s.Canonical) {l m : ListId} (hl : s.ListKnown l)
    (hm : s.ListKnown m) (hnl : s.Normal (.union l)) (hnm : s.Normal (.union m))
    (hinj : ∀ p ∈ s.types.list l, ∀ q, s.Known q → Same (f p) (f q) → p = q)
    (hsame : Same (s.layer f (.union l)) (s.layer f (.union m))) : l = m := by
  simp only [layer, Same, List.mem_map, forall_exists_index, and_imp,
    forall_apply_eq_imp_iff₂] at hsame
  obtain ⟨hleft, hright⟩ := hsame
  refine eq_of_list_eq hl hm ?_
  refine eq_of_mem_iff_of_pairwise TypeId.index hnl hnm fun t => ⟨fun ht => ?_, fun ht => ?_⟩
  · obtain ⟨_, ⟨u, hu, rfl⟩, hsame⟩ := hleft t ht
    exact hinj t ht u (h.lists m u hu) hsame ▸ hu
  · obtain ⟨_, ⟨u, hu, rfl⟩, hsame⟩ := hright t ht
    exact hinj u hu t (h.lists m t ht) hsame ▸ hu

/-- Records with the same map from labels to types are the same record. -/
theorem eq_of_same_record (h : s.Canonical) {l m : ListId} (hl : s.ListKnown l)
    (hm : s.ListKnown m) (hnl : s.Normal (.record l)) (hnm : s.Normal (.record m))
    (hinj : ∀ p ∈ s.parts (.record l), ∀ q, s.Known q → Same (f p) (f q) → p = q)
    (hsame : Same (s.layer f (.record l)) (s.layer f (.record m))) : l = m := by
  obtain ⟨fs, hfs, hlfs⟩ := hnl
  obtain ⟨gs, hgs, hmgs⟩ := hnm
  simp only [layer, filterMap_field? hlfs, filterMap_field? hmgs, Same, lookup_map] at hsame
  obtain ⟨hdomain, hfields⟩ := hsame
  have hlookup (label : Atom) : fs.lookup label = gs.lookup label := by
    have hlabel := hdomain label
    cases hf : fs.lookup label with
    | none =>
      cases hg : gs.lookup label with
      | none => rfl
      | some u => simp [hf, hg] at hlabel
    | some t =>
      cases hg : gs.lookup label with
      | none => simp [hf, hg] at hlabel
      | some u =>
        have htu : Same (f t) (f u) := hfields label _ _ (by simp [hf]) (by simp [hg])
        have ht := mem_parts_of_field hlfs (mem_of_lookup_eq_some hf)
        have hu := mem_parts_of_field hmgs (mem_of_lookup_eq_some hg)
        have hknown := h.known_of_mem_parts (.record m) ⟨hm, h.lists m⟩ hu
        rw [hinj t ht u hknown htu]
  have hfg : fs = gs := by
    refine eq_of_mem_iff_of_pairwise (fun field => field.1.index) hfs hgs fun field => ?_
    obtain ⟨label, t⟩ := field
    rw [← lookup_eq_some_iff_mem hfs, hlookup, lookup_eq_some_iff_mem hgs]
  refine eq_of_list_eq hl hm (h.eq_of_map_key?_eq (h.lists l) ?_)
  rw [hlfs, hmgs, hfg]

/-- Keys with the same layer are the same key, if the structures of parts tell them apart. -/
theorem eq_of_same_layer (h : s.Canonical) {k k' : TypeKey} (hk : s.KeyKnown k)
    (hk' : s.KeyKnown k') (hn : s.Normal k) (hn' : s.Normal k')
    (hinj : ∀ p ∈ s.parts k, ∀ q, s.Known q → Same (f p) (f q) → p = q)
    (hsame : Same (s.layer f k) (s.layer f k')) : k = k' := by
  cases k with
  | instanceOf v =>
    cases k' with
    | instanceOf w =>
      rw [layer, layer, Same] at hsame
      rw [h.eq_of_same_valueTo (Nat.lt_succ_self _) (Nat.lt_succ_self _) hinj hsame]
    | _ => simp [layer, Same] at hsame
  | constructedInstanceOf v =>
    cases k' with
    | constructedInstanceOf w =>
      rw [layer, layer, Same] at hsame
      rw [h.eq_of_same_valueTo (Nat.lt_succ_self _) (Nat.lt_succ_self _) hinj hsame]
    | _ => simp [layer, Same] at hsame
  | reference v =>
    cases k' with
    | reference w =>
      rw [layer, layer, Same] at hsame
      rw [h.eq_of_same_valueTo (Nat.lt_succ_self _) (Nat.lt_succ_self _) hinj hsame]
    | _ => simp [layer, Same] at hsame
  | function shape =>
    cases k' with
    | function shape' => rw [h.eq_of_same_function hk hk' hinj hsame]
    | _ => simp [layer, Same] at hsame
  | union l =>
    cases k' with
    | union m => rw [h.eq_of_same_union hk hk' hn hn' hinj hsame]
    | _ => simp [layer, Same] at hsame
  | tuple l =>
    cases k' with
    | tuple m =>
      simp only [layer, Same] at hsame
      have hlists : s.types.list l = s.types.list m :=
        eq_of_same_map hsame.1 hsame.2 fun p hp q hq => hinj p hp q (h.lists m q hq)
      rw [eq_of_list_eq hk hk' hlists]
    | _ => simp [layer, Same] at hsame
  | record l =>
    cases k' with
    | record m => rw [h.eq_of_same_record hk.1 hk'.1 hn hn' hinj hsame]
    | _ => simp [layer, Same] at hsame
  | labeled label t =>
    cases k' with
    | labeled label' u =>
      simp only [layer, Same] at hsame
      rw [hsame.1, hinj t (by simp [parts]) u hk' hsame.2]
    | _ => simp [layer, Same] at hsame
  | _ => cases k' <;> simp_all [layer, Same]

/-! ## All layers -/

/-- In a canonical store, two types are equal if and only if they unfold to the same
structure. -/
theorem same_unfold_iff (h : s.Canonical) {t u : TypeId} (ht : s.Known t) (hu : s.Known u) :
    Same (s.unfold t) (s.unfold u) ↔ t = u := by
  refine ⟨fun hsame => ?_, fun heq => heq ▸ Same.refl _⟩
  -- the parts of a type are older, so the induction is on the number
  obtain ⟨n, hn⟩ : ∃ n, t.index < n := ⟨t.index + 1, Nat.lt_succ_self _⟩
  induction n generalizing t u with
  | zero => omega
  | succ n ih =>
    obtain ⟨k, hk⟩ := Option.isSome_iff_exists.1 ht
    obtain ⟨k', hk'⟩ := Option.isSome_iff_exists.1 hu
    rw [unfold_eq h.descends hk, unfold_eq h.descends hk'] at hsame
    have hkeys : k = k' := by
      refine h.eq_of_same_layer (h.keyKnown t k hk) (h.keyKnown u k' hk') (h.normal t k hk)
        (h.normal u k' hk') (fun p hp q hq hpq => ?_) hsame
      have hlt := h.descends t k hk p hp
      exact ih (h.known_of_mem_parts k (h.keyKnown t k hk) hp) hq hpq (by omega)
    exact h.eq_of_key?_eq hk (hkeys ▸ hk')

end Canonical

end Store

end DocTypes
