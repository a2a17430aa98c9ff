import DocTypes.Binding.Visit
import DocTypes.Tree.Builder

/-!
# Chains of aliases

A holder is a variable or property. If something solid is written to it, it stands for the
first such value, whatever is written before; if not, it is an alias of the first other holder
that is written to it (`Analysis.NextAlias`). A chain of aliases has a length
(`Analysis.Follows`), and it settles (`Analysis.Settles`) where a value is no holder, where
something solid is written, or where nothing goes on.

`Analysis.denote` goes along the chain: it answers what the chain settles with, if it settles in
time, and where the chain stands at the bound if it does not. So all holders on a chain that settles
in time stand for one value, which stands for itself.

## Main statements

* `Analysis.denote_follows`: what a value stands for, by the chain of aliases that it begins.
-/

namespace DocTypes

namespace Analysis

variable {x : Analysis}

/-! ## What is written to a holder -/

/-- Variables and properties. -/
def IsHolder (x : Analysis) (v : ValueId) : Prop := (x.store.values.slot? v).isSome

/-- `v` is the value of the first of the sites whose value satisfies `P`. -/
def FirstWritten (x : Analysis) (P : ValueId → Prop) (sites : List NodeRef) (v : ValueId) : Prop :=
  ∃ before site after, sites = before ++ site :: after ∧ x.valueOf? site = some v ∧ P v ∧
    ∀ r ∈ before, ∀ u, x.valueOf? r = some u → ¬ P u

/-- No site has a value that satisfies `P`. -/
def NoneWritten (x : Analysis) (P : ValueId → Prop) (sites : List NodeRef) : Prop :=
  ∀ r ∈ sites, ∀ u, x.valueOf? r = some u → ¬ P u

theorem findSome?_filter_eq_some_iff (p : ValueId → Bool) (sites : List NodeRef) (v : ValueId) :
    (sites.findSome? fun r => (x.valueOf? r).filter p) = some v ↔
      x.FirstWritten (p · = true) sites v := by
  simp only [List.findSome?_eq_some_iff, Option.filter_eq_some_iff, Option.filter_eq_none_iff,
    FirstWritten, and_assoc]

theorem findSome?_filter_eq_none_iff (p : ValueId → Bool) (sites : List NodeRef) :
    (sites.findSome? fun r => (x.valueOf? r).filter p) = none ↔
      x.NoneWritten (p · = true) sites := by
  simp only [List.findSome?_eq_none_iff, Option.filter_eq_none_iff, NoneWritten]

theorem solidSite?_eq_some_iff {sites : List NodeRef} {v : ValueId} :
    x.solidSite? sites = some v ↔ x.FirstWritten (x.isSolid · = true) sites v :=
  findSome?_filter_eq_some_iff ..

theorem solidSite?_eq_none_iff {sites : List NodeRef} :
    x.solidSite? sites = none ↔ x.NoneWritten (x.isSolid · = true) sites :=
  findSome?_filter_eq_none_iff ..

theorem aliasSite?_eq_some_iff {v w : ValueId} {sites : List NodeRef} :
    x.aliasSite? v sites = some w ↔ x.FirstWritten (fun u => x.IsHolder u ∧ u ≠ v) sites w := by
  rw [aliasSite?, findSome?_filter_eq_some_iff]
  simp only [Bool.and_eq_true, decide_eq_true_eq, IsHolder]

theorem aliasSite?_eq_none_iff {v : ValueId} {sites : List NodeRef} :
    x.aliasSite? v sites = none ↔ x.NoneWritten (fun u => x.IsHolder u ∧ u ≠ v) sites := by
  rw [aliasSite?, findSome?_filter_eq_none_iff]
  simp only [Bool.and_eq_true, decide_eq_true_eq, IsHolder]

/-- Solid values are no holders. -/
theorem slot?_of_isSolid {v : ValueId} (h : x.isSolid v = true) :
    x.store.values.slot? v = none := by
  unfold isSolid at h
  rw [ValueStore.slot?]
  split at h <;> simp_all [Value.slot?]

/-! ## Chains -/

/-- Nothing solid is written to `v`, and `w` is the first other holder that is. -/
def NextAlias (x : Analysis) (v w : ValueId) : Prop :=
  ∃ slot, x.store.values.slot? v = some slot ∧ x.NoneWritten (x.isSolid · = true) slot.writes ∧
    x.FirstWritten (fun u => x.IsHolder u ∧ u ≠ v) slot.writes w

/-- The chain of aliases that begins with `v` is at `w` after so many steps. -/
inductive Follows (x : Analysis) (v : ValueId) : Nat → ValueId → Prop
  | start : Follows x v 0 v
  | next {steps : Nat} {u w : ValueId} :
      Follows x v steps u → x.NextAlias u w → Follows x v (steps + 1) w

/-- A chain of aliases ends with `v`, and `d` is what it settles with. -/
inductive Settles (x : Analysis) (v : ValueId) : ValueId → Prop
  /-- A value that is no holder settles with itself. -/
  | other : ¬ x.IsHolder v → Settles x v v
  /-- A holder settles with the first solid value that is written to it. -/
  | solid {slot : Slot} {d : ValueId} : x.store.values.slot? v = some slot →
      x.FirstWritten (x.isSolid · = true) slot.writes d → Settles x v d
  /-- A holder to which nothing solid and no other holder is written settles with itself. -/
  | unaliased {slot : Slot} : x.store.values.slot? v = some slot →
      x.NoneWritten (x.isSolid · = true) slot.writes →
      x.NoneWritten (fun u => x.IsHolder u ∧ u ≠ v) slot.writes → Settles x v v

theorem not_isHolder_iff {v : ValueId} : ¬ x.IsHolder v ↔ x.store.values.slot? v = none := by
  rw [IsHolder, Bool.not_eq_true, Option.isSome_eq_false_iff, Option.isNone_iff_eq_none]

/-- The next alias, computed. -/
def nextAlias? (x : Analysis) (v : ValueId) : Option ValueId :=
  (x.store.values.slot? v).bind fun slot =>
    if (x.solidSite? slot.writes).isSome then none else x.aliasSite? v slot.writes

theorem nextAlias_iff {v w : ValueId} : x.NextAlias v w ↔ x.nextAlias? v = some w := by
  simp only [NextAlias, nextAlias?, Option.bind_eq_some_iff, ← solidSite?_eq_none_iff,
    ← aliasSite?_eq_some_iff, Option.ite_none_left_eq_some, Option.not_isSome_iff_eq_none]

instance (v w : ValueId) : Decidable (x.NextAlias v w) := decidable_of_iff _ nextAlias_iff.symm

namespace NextAlias

variable {v w w' : ValueId}

theorem unique (h : x.NextAlias v w) (h' : x.NextAlias v w') : w = w' := by
  rw [nextAlias_iff] at h h'
  exact Option.some.inj (h.symm.trans h')

theorem isHolder (h : x.NextAlias v w) : x.IsHolder w := by
  obtain ⟨slot, -, -, before, site, after, -, -, hw, -⟩ := h
  exact hw.1

end NextAlias

/-- The chase goes on with the next alias. -/
theorem denoteIn_of_nextAlias {v w : ValueId} (h : x.NextAlias v w) (steps : Nat) :
    x.denoteIn (steps + 1) v = x.denoteIn steps w := by
  obtain ⟨slot, hslot, hsolid, hfirst⟩ := h
  rw [← solidSite?_eq_none_iff] at hsolid
  rw [← aliasSite?_eq_some_iff] at hfirst
  simp only [denoteIn, hslot, hsolid, hfirst]

/-- The chase ends where the chain does. -/
theorem denoteIn_of_settles {v d : ValueId} (h : x.Settles v d) (steps : Nat) :
    x.denoteIn (steps + 1) v = d := by
  cases h with
  | other hother => simp only [denoteIn, not_isHolder_iff.1 hother]
  | solid hslot hfirst => simp only [denoteIn, hslot, solidSite?_eq_some_iff.2 hfirst]
  | unaliased hslot hsolid hother =>
    simp only [denoteIn, hslot, solidSite?_eq_none_iff.2 hsolid, aliasSite?_eq_none_iff.2 hother]

/-- A chain does not end where it goes on. -/
theorem NextAlias.not_settles {v w d : ValueId} (h : x.NextAlias v w) : ¬ x.Settles v d := by
  rintro (hother | ⟨hslot, hfirst⟩ | ⟨hslot, -, hnone⟩)
  · obtain ⟨slot, hslot, -⟩ := h
    rw [not_isHolder_iff, hslot] at hother
    cases hother
  · obtain ⟨slot, hslot', hsolid, -⟩ := h
    cases hslot.symm.trans hslot'
    rw [← solidSite?_eq_some_iff, solidSite?_eq_none_iff.2 hsolid] at hfirst
    cases hfirst
  · obtain ⟨slot, hslot', -, hfirst⟩ := h
    cases hslot.symm.trans hslot'
    rw [← aliasSite?_eq_some_iff, aliasSite?_eq_none_iff.2 hnone] at hfirst
    cases hfirst

/-- A chain ends or goes on. -/
theorem settles_or_nextAlias (x : Analysis) (v : ValueId) :
    (∃ d, x.Settles v d) ∨ ∃ w, x.NextAlias v w := by
  cases hslot : x.store.values.slot? v with
  | none => exact .inl ⟨v, .other (not_isHolder_iff.2 hslot)⟩
  | some slot =>
    cases hsolid : x.solidSite? slot.writes with
    | some d => exact .inl ⟨d, .solid hslot (solidSite?_eq_some_iff.1 hsolid)⟩
    | none =>
      have hnone := solidSite?_eq_none_iff.1 hsolid
      cases halias : x.aliasSite? v slot.writes with
      | some w => exact .inr ⟨w, slot, hslot, hnone, aliasSite?_eq_some_iff.1 halias⟩
      | none => exact .inl ⟨v, .unaliased hslot hnone (aliasSite?_eq_none_iff.1 halias)⟩

namespace Follows

variable {v u w : ValueId} {j k : Nat}

theorem unique (h : x.Follows v k u) (h' : x.Follows v k w) : u = w := by
  induction h generalizing w with
  | start =>
    cases h'
    rfl
  | next _ hnext ih =>
    cases h' with
    | next hfollows hnext' =>
      cases ih hfollows
      exact hnext.unique hnext'

/-- What comes later on a chain is on the chain that begins on the way. -/
theorem onward (h : x.Follows v j u) (h' : x.Follows v k w) (hle : j ≤ k) :
    x.Follows u (k - j) w := by
  induction h' with
  | start =>
    cases Nat.le_zero.1 hle
    cases h
    exact .start
  | @next steps u' w hfollows hnext ih =>
    rcases Nat.lt_or_eq_of_le hle with hlt | rfl
    · have hle' : j ≤ steps := Nat.le_of_lt_succ hlt
      rw [Nat.succ_sub hle']
      exact .next (ih hle') hnext
    · cases h.unique (.next hfollows hnext)
      rw [Nat.sub_self]
      exact .start

/-- The chase goes along the chain. -/
theorem denoteIn_add (h : x.Follows v k w) (steps : Nat) :
    x.denoteIn (k + steps) v = x.denoteIn steps w := by
  induction h generalizing steps with
  | start => rw [Nat.zero_add]
  | @next k u w _ hnext ih =>
    rw [Nat.succ_add_eq_add_succ, ih]
    exact denoteIn_of_nextAlias hnext steps

end Follows

/-! ## The answer -/

variable {v w d : ValueId}

theorem Settles.self (h : x.Settles v d) : x.Settles d d := by
  cases h with
  | other hother => exact .other hother
  | solid hslot hfirst =>
    obtain ⟨before, site, after, -, -, hsolid, -⟩ := hfirst
    exact .other (not_isHolder_iff.2 (slot?_of_isSolid hsolid))
  | unaliased hslot hsolid hother => exact .unaliased hslot hsolid hother

theorem denote_of_follows {k : Nat} (hk : k < aliasSteps) (h : x.Follows v k w)
    (hd : x.Settles w d) : x.denote v = d := by
  obtain ⟨steps, hsteps⟩ : ∃ steps, aliasSteps = k + (steps + 1) := Nat.exists_eq_add_of_lt hk
  rw [denote, hsteps, h.denoteIn_add, denoteIn_of_settles hd]

theorem Settles.denote_eq (h : x.Settles v d) : x.denote v = d :=
  denote_of_follows (by decide) .start h

theorem classOf?_congr (h : x.denote v = x.denote w) : x.classOf? v = x.classOf? w := by
  rw [classOf?, classOf?, h]

/-- A chain that does not end before some step reaches that step. -/
theorem exists_follows {bound : Nat}
    (hopen : ∀ k w d, k < bound → x.Follows v k w → ¬ x.Settles w d) {k : Nat} (hk : k ≤ bound) :
    ∃ w, x.Follows v k w := by
  induction k with
  | zero => exact ⟨v, .start⟩
  | succ k ih =>
    obtain ⟨u, hu⟩ := ih (Nat.le_of_succ_le hk)
    rcases x.settles_or_nextAlias u with ⟨d, hd⟩ | ⟨w, hw⟩
    · exact absurd hd (hopen k u d hk hu)
    · exact ⟨w, .next hu hw⟩

/-- **Alias chasing.** If the chain of aliases that begins with `v` ends within fewer than
`aliasSteps` steps, `v` stands for what it settles with, which stands for itself, and so do all
holders on the chain, which therefore have one class. If it does not, because it is longer or goes
round, `v` stands for the holder that is `aliasSteps` steps along the chain. -/
theorem denote_follows (x : Analysis) (v : ValueId) :
    (∀ k w d, k < aliasSteps → x.Follows v k w → x.Settles w d →
      x.denote v = d ∧ x.denote (x.denote v) = x.denote v ∧
        ∀ j u, j ≤ k → x.Follows v j u → x.denote u = d ∧ x.classOf? u = x.classOf? v) ∧
    ((∀ k w d, k < aliasSteps → x.Follows v k w → ¬ x.Settles w d) →
      ∃ w, x.Follows v aliasSteps w ∧ x.IsHolder w ∧ x.denote v = w) := by
  constructor
  · intro k w d hk hw hd
    have hv : x.denote v = d := denote_of_follows hk hw hd
    refine ⟨hv, ?_, fun j u hj hu => ?_⟩
    · rw [hv, hd.self.denote_eq]
    · have hlater : x.Follows u (k - j) w := hu.onward hw hj
      have hdenote : x.denote u = d := denote_of_follows (by omega) hlater hd
      exact ⟨hdenote, classOf?_congr (hdenote.trans hv.symm)⟩
  · intro hopen
    obtain ⟨w, hw⟩ := exists_follows hopen (Nat.le_refl aliasSteps)
    have hholder : x.IsHolder w := by
      cases hw with
      | next _ hnext => exact hnext.isHolder
    have hdenote : x.denoteIn (aliasSteps + 0) v = x.denoteIn 0 w := hw.denoteIn_add 0
    exact ⟨w, hw, hholder, hdenote⟩

/-- `var b = c; b = {}; var a = b; var c = d; var d = c;` -/
def aliases : Build NodeRef := do
  let b ← Builder.varStatement "b" (← Builder.identifier "c")
  let write ← Builder.assignment (← Builder.identifier "b") (← Builder.object [])
  let again ← Builder.expressionStatement write
  let a ← Builder.varStatement "a" (← Builder.identifier "b")
  let c ← Builder.varStatement "c" (← Builder.identifier "d")
  let d ← Builder.varStatement "d" (← Builder.identifier "c")
  Builder.script [b, again, a, c, d]

/-- The names of these declarations are bound. -/
def boundAliases : Analysis :=
  let (root, builder) := aliases Builder.new
  (bindNames builder.arena false root (new builder.arena)).2

/-- The object that is written to `b` counts for more than the name before it, and `a` goes on to
it. The names `c` and `d` go round, and after an even number of steps the chase is back at `c`. -/
theorem boundAliases_denote :
    let x := boundAliases
    let (b, a, c, d, object) : ValueId × ValueId × ValueId × ValueId × ValueId :=
      (.atPosition 1, .atPosition 2, .atPosition 3, .atPosition 4, .atPosition 5)
    (x.Follows a 1 b ∧ x.Settles b object ∧ x.denote a = object ∧ x.denote b = object) ∧
      x.NextAlias c d ∧ x.NextAlias d c ∧ x.Follows c aliasSteps c ∧ x.denote c = c := by
  intro x
  have hab : x.Follows (.atPosition 2) 1 (.atPosition 1) := .next .start (by decide +kernel)
  have hslot : x.store.values.slot? (.atPosition 1) =
      some { writes := [some 0, some 5], reads := [some 4, some 8] } := by
    decide +kernel
  have hobject : x.Settles (.atPosition 1) (.atPosition 5) :=
    .solid hslot (solidSite?_eq_some_iff.1 (by decide +kernel))
  have hcd : x.NextAlias (.atPosition 3) (.atPosition 4) := by decide +kernel
  have hdc : x.NextAlias (.atPosition 4) (.atPosition 3) := by decide +kernel
  have hround : ∀ k w, x.Follows (.atPosition 3) k w →
      w = if k % 2 = 0 then .atPosition 3 else .atPosition 4 := by
    intro k w h
    induction h with
    | start => rfl
    | @next k u w _ hnext ih =>
      subst ih
      rcases Nat.mod_two_eq_zero_or_one k with heven | hodd
      · rw [if_pos heven] at hnext
        rw [if_neg (by omega), hnext.unique hcd]
      · rw [if_neg (by omega)] at hnext
        rw [if_pos (by omega), hnext.unique hdc]
  have hopen : ∀ k w e, k < aliasSteps → x.Follows (.atPosition 3) k w → ¬ x.Settles w e := by
    intro k w e _ hw
    rw [hround k w hw]
    split
    · exact hcd.not_settles
    · exact hdc.not_settles
  obtain ⟨ha, -, hchain⟩ := (denote_follows x (.atPosition 2)).1 1 _ _ (by decide) hab hobject
  obtain ⟨w, hw, -, hc⟩ := (denote_follows x (.atPosition 3)).2 hopen
  have hback : w = .atPosition 3 := hround _ _ hw
  rw [hback] at hw hc
  exact ⟨⟨hab, hobject, ha, (hchain 1 _ (Nat.le_refl 1) hab).1⟩, hcd, hdc, hw, hc⟩

end Analysis

end DocTypes
