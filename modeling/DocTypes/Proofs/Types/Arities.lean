import DocTypes.Types.Arity
import DocTypes.Types.Printer
import Mathlib.Data.List.TakeWhile
import Mathlib.Tactic

/-!
# What an arity says of the kinds it was counted from

The counter takes the kinds of a parameter list from the left and goes on after a parameter that
is out of order. Which kinds it has met is all that it keeps (`ArityCount.Counts`): a push holds
the new kind against the furthest of them, so it finds a problem just where an earlier kind ranks
above the new one, or where both are rest parameters (`ArityCount.push_problem`).

An arity is three numbers, and the text of a function type is written from these and the types of
the parameters alone. For kinds that are in order that is enough: the required ones are those below
`min`, the rest parameter is the last one if there is any, and all others are optional
(`ArityCount.parameter_marked`).

## Main statements

* `ArityCount.of_counts`: the counter after any list of kinds.
* `ArityCount.counts_and_marks`: the problems, the arity, and the marks in the text of a function
  type of that arity.
-/

namespace DocTypes

namespace ParameterKind

/-- The place of a kind in the order of a parameter list. -/
def rank : ParameterKind → Nat
  | .required => 0
  | .optional => 1
  | .rest => 2

/-- What is wrong with a parameter of a kind that is out of order. -/
def unexpected : ParameterKind → Problem
  | .required => .unexpectedRequired
  | .optional => .unexpectedOptional
  | .rest => .unexpectedRest

/-- A kind that cannot stand after these ones. -/
def Misplaced (before : List ParameterKind) (kind : ParameterKind) : Prop :=
  (∃ earlier ∈ before, kind.rank < earlier.rank) ∨ (kind = .rest ∧ .rest ∈ before)

instance (before : List ParameterKind) (kind : ParameterKind) : Decidable (Misplaced before kind) :=
  inferInstanceAs (Decidable (_ ∨ _))

/-- The text of a parameter with the mark of its kind. -/
def mark : ParameterKind → String → String
  | .required, text => text
  | .optional, text => text ++ "="
  | .rest, text => "..." ++ text

theorem rank_le_zero_iff (kind : ParameterKind) : kind.rank ≤ 0 ↔ kind = .required := by
  cases kind <;> simp [rank]

theorem one_lt_rank_iff (kind : ParameterKind) : 1 < kind.rank ↔ kind = .rest := by
  cases kind <;> simp [rank]

end ParameterKind

namespace ArityCount

open ParameterKind

/-- The counter after a list of kinds. -/
def of (kinds : List ParameterKind) : ArityCount :=
  kinds.foldl (fun c kind => (c.push kind).2) {}

theorem of_concat (kinds : List ParameterKind) (kind : ParameterKind) :
    of (kinds ++ [kind]) = ((of kinds).push kind).2 := by
  unfold of
  rw [List.foldl_append]
  rfl

/-- The list has no kind that is out of order: no push finds a problem. -/
def InOrder (kinds : List ParameterKind) : Prop :=
  ∀ before kind after, kinds = before ++ kind :: after → ((of before).push kind).1 = none

/-! ## Counting -/

/-- What the counter knows of the kinds that were pushed. -/
structure Counts (c : ArityCount) (kinds : List ParameterKind) : Prop where
  max : c.arity.max = kinds.length
  hasRest : c.arity.hasRest = true ↔ .rest ∈ kinds
  min : c.arity.min = (kinds.takeWhile (· = .required)).length
  /-- The furthest kind is the highest one that was met. -/
  reached : ∀ kind : ParameterKind,
    kind.rank < c.reached.rank ↔ ∃ earlier ∈ kinds, kind.rank < earlier.rank

namespace Counts

variable {c : ArityCount} {kinds : List ParameterKind}

theorem nil : Counts {} [] where
  max := rfl
  hasRest := by simp
  min := rfl
  reached kind := by
    show kind.rank < 0 ↔ _
    simp

/-- Nothing but required parameters was met. -/
theorem reached_required_iff (hc : Counts c kinds) :
    c.reached = .required ↔ ∀ kind ∈ kinds, kind = .required := by
  have h := hc.reached .required
  rw [← rank_le_zero_iff, ← Nat.not_lt]
  show ¬ ParameterKind.required.rank < c.reached.rank ↔ _
  rw [h]
  push Not
  exact forall₂_congr fun kind _ => rank_le_zero_iff kind

/-- A rest parameter was met. -/
theorem reached_rest_iff (hc : Counts c kinds) : c.reached = .rest ↔ .rest ∈ kinds := by
  rw [← one_lt_rank_iff]
  have h := hc.reached .optional
  show ParameterKind.optional.rank < c.reached.rank ↔ _
  rw [h]
  constructor
  · intro ⟨earlier, hmem, hlt⟩
    rw [(one_lt_rank_iff earlier).mp hlt] at hmem
    exact hmem
  · intro hmem
    exact ⟨.rest, hmem, by decide⟩

/-- No more parameters are required than there are. -/
theorem min_le_max (hc : Counts c kinds) : c.arity.min ≤ c.arity.max := by
  rw [hc.min, hc.max]
  exact (List.takeWhile_sublist _).length_le

/-- A rest parameter is not among the required ones. -/
theorem min_lt_max (hc : Counts c kinds) (hrest : c.arity.hasRest = true) :
    c.arity.min < c.arity.max := by
  refine Nat.lt_of_le_of_ne hc.min_le_max fun heq => ?_
  rw [hc.min, hc.max] at heq
  have hall := (List.takeWhile_sublist _).eq_of_length heq
  have hmem := hc.hasRest.mp hrest
  rw [← hall] at hmem
  have hreq := List.mem_takeWhile_imp hmem
  cases of_decide_eq_true hreq

/-- The first parameters that are required, with one more at the end. -/
theorem takeWhile_concat (kinds : List ParameterKind) (kind : ParameterKind) :
    ((kinds ++ [kind]).takeWhile (· = .required)).length =
      if kind = .required ∧ ∀ k ∈ kinds, k = .required
      then (kinds.takeWhile (· = .required)).length + 1
      else (kinds.takeWhile (· = .required)).length := by
  induction kinds with
  | nil => cases kind <;> simp
  | cons k kinds ih =>
    by_cases hk : k = .required
    · simp only [hk, List.cons_append, List.takeWhile_cons, decide_true, if_true, List.length_cons,
        List.forall_mem_cons, true_and, ih]
      split <;> rfl
    · simp [hk]

/-- The highest of the kinds after a push. -/
theorem furthest_rank (reached kind other : ParameterKind) :
    other.rank < (furthest reached kind).rank ↔
      other.rank < reached.rank ∨ other.rank < kind.rank := by
  cases reached <;> cases kind <;> cases other <;> decide

/-- One more parameter. -/
theorem push (hc : Counts c kinds) (kind : ParameterKind) :
    Counts (c.push kind).2 (kinds ++ [kind]) where
  max := by
    show c.arity.max + 1 = _
    rw [hc.max, List.length_append, List.length_singleton]
  hasRest := by
    show (c.arity.hasRest || kind == .rest) = true ↔ _
    rw [Bool.or_eq_true, hc.hasRest, List.mem_append, List.mem_singleton, beq_iff_eq,
      eq_comm (a := kind)]
  min := by
    show (if kind = .required ∧ c.reached = .required then c.arity.min + 1 else c.arity.min) = _
    rw [takeWhile_concat, hc.min]
    exact if_congr (and_congr_right fun _ => hc.reached_required_iff) rfl rfl
  reached other := by
    show other.rank < (furthest c.reached kind).rank ↔ _
    rw [furthest_rank, hc.reached other]
    simp only [List.mem_append, List.mem_singleton, or_and_right, exists_or, exists_eq_left]

end Counts

/-- The counter after a list of kinds knows of all of them. -/
theorem of_counts (kinds : List ParameterKind) : Counts (of kinds) kinds := by
  induction kinds using List.reverseRecOn with
  | nil => exact Counts.nil
  | append_singleton kinds kind ih =>
    rw [of_concat]
    exact ih.push kind

/-- What is wrong with a kind, by the furthest one before it. -/
theorem problem?_eq (reached kind : ParameterKind) :
    problem? reached kind =
      if kind.rank < reached.rank ∨ (kind = .rest ∧ reached = .rest) then some kind.unexpected
      else none := by
  cases reached <;> cases kind <;> decide

/-- A push finds a problem just where the kind is out of order. -/
theorem push_problem (before : List ParameterKind) (kind : ParameterKind) :
    ((of before).push kind).1 =
      if Misplaced before kind then some kind.unexpected else none := by
  show problem? (of before).reached kind = _
  rw [problem?_eq]
  have hc := of_counts before
  exact if_congr (or_congr (hc.reached kind) (and_congr_right fun _ => hc.reached_rest_iff)) rfl rfl

/-! ## Marks -/

section

variable {kinds : List ParameterKind}

/-- In a list that is in order, no kind is out of order. -/
theorem inOrder_iff :
    InOrder kinds ↔ ∀ i, (hi : i < kinds.length) → ¬ Misplaced (kinds.take i) kinds[i] := by
  constructor
  · intro h i hi hmis
    have hsplit : kinds = kinds.take i ++ kinds[i] :: kinds.drop (i + 1) := by simp
    have hnone := h _ _ _ hsplit
    rw [push_problem, if_pos hmis] at hnone
    cases hnone
  · intro h before kind after hsplit
    subst hsplit
    have hkind := h before.length (by simp)
    rw [List.take_left, List.getElem_of_append rfl rfl] at hkind
    rw [push_problem, if_neg hkind]

instance : Decidable (InOrder kinds) := decidable_of_iff _ inOrder_iff.symm

theorem InOrder.not_misplaced (h : InOrder kinds) {i : Nat} (hi : i < kinds.length) :
    ¬ Misplaced (kinds.take i) kinds[i] := inOrder_iff.mp h i hi

/-- The kinds of a list that is in order never go down. -/
theorem InOrder.rank_le (h : InOrder kinds) {i j : Nat} (hij : i ≤ j) (hj : j < kinds.length) :
    kinds[i].rank ≤ kinds[j].rank := by
  rcases Nat.eq_or_lt_of_le hij with rfl | hlt
  · exact Nat.le_refl _
  · by_contra hgt
    apply h.not_misplaced hj
    have hmem : kinds[i] ∈ kinds.take j := List.mem_take_iff_getElem.mpr ⟨i, by omega, rfl⟩
    exact .inl ⟨kinds[i], hmem, by omega⟩

/-- The required parameters are those below the length of the first run of them. -/
theorem InOrder.required_iff (h : InOrder kinds) {i : Nat} (hi : i < kinds.length) :
    kinds[i] = .required ↔ i < (kinds.takeWhile (· = .required)).length := by
  rw [List.takeWhile_eq_take_findIdx_not, List.length_take, Nat.min_eq_left List.findIdx_le_length]
  constructor
  · intro hreq
    by_contra hge
    -- The kind that ends the first run is not required, and no later one ranks below it.
    have hm : kinds.findIdx (fun kind => !decide (kind = .required)) < kinds.length := by omega
    have hstop := List.findIdx_getElem (w := hm)
    have hle := h.rank_le (Nat.le_of_not_lt hge) hi
    rw [hreq] at hle
    rw [(rank_le_zero_iff _).mp hle] at hstop
    cases hstop
  · intro hlt
    have hfalse := List.not_of_lt_findIdx hlt
    simpa using hfalse

/-- The rest parameter is the last one of a list that has any. -/
theorem InOrder.rest_iff (h : InOrder kinds) {i : Nat} (hi : i < kinds.length) :
    kinds[i] = .rest ↔ .rest ∈ kinds ∧ i + 1 = kinds.length := by
  constructor
  · intro hrest
    have hmem : .rest ∈ kinds := hrest ▸ List.getElem_mem hi
    refine ⟨hmem, ?_⟩
    by_contra hne
    -- The next kind would rank as high, and it would be a second rest parameter.
    have hj : i + 1 < kinds.length := by omega
    have hle := h.rank_le (Nat.le_succ i) hj
    rw [hrest] at hle
    have hnext : kinds[i + 1] = .rest := (one_lt_rank_iff _).mp hle
    have hbefore : .rest ∈ kinds.take (i + 1) :=
      List.mem_take_iff_getElem.mpr ⟨i, by omega, hrest⟩
    exact h.not_misplaced hj (.inr ⟨hnext, hbefore⟩)
  · intro ⟨hmem, hlast⟩
    obtain ⟨j, hj, hrest⟩ := List.getElem_of_mem hmem
    have hle := h.rank_le (show j ≤ i by omega) hi
    rw [hrest] at hle
    exact (one_lt_rank_iff _).mp hle

/-- A parameter gets the mark of its kind, by the arity alone. -/
theorem parameter_marked (h : InOrder kinds) {i : Nat} (hi : i < kinds.length) (text : String) :
    Printer.parameter (of kinds).arity kinds.length i text = kinds[i].mark text := by
  have hc := of_counts kinds
  have hlast : ((of kinds).arity.hasRest && i + 1 == kinds.length) = true ↔ kinds[i] = .rest := by
    rw [h.rest_iff hi, Bool.and_eq_true, hc.hasRest, beq_iff_eq]
  have hmin : (of kinds).arity.min ≤ i ↔ kinds[i] ≠ .required := by
    rw [ne_eq, h.required_iff hi, hc.min, Nat.not_lt]
  unfold Printer.parameter
  cases hkind : kinds[i] with
  | required =>
    rw [if_neg (by rw [hlast, hkind]; decide), if_neg (by rw [hmin, hkind]; decide)]
    rfl
  | optional =>
    rw [if_neg (by rw [hlast, hkind]; decide), if_pos (by rw [hmin, hkind]; decide)]
    rfl
  | rest =>
    rw [if_pos (by rw [hlast, hkind])]
    rfl

/-- The parameters of a function type, each with the mark of its kind. -/
theorem parameters_marked (h : InOrder kinds) (texts : List String)
    (hlen : texts.length = kinds.length) :
    Printer.parameters (of kinds).arity texts = List.zipWith mark kinds texts := by
  unfold Printer.parameters
  apply List.ext_getElem
  · simp [hlen]
  · intro i hi _
    have hik : i < kinds.length := by simpa [hlen] using hi
    have hmark := parameter_marked h hik texts[i]
    rw [← hlen] at hmark
    rw [List.getElem_mapIdx, List.getElem_zipWith]
    exact hmark

end

/-- The text of a function type. -/
theorem typeTo_function (p : Printer) (depth : Nat) {t : TypeId} {shape : FunctionShape}
    (ht : p.store.types.key? t = some (.function shape)) :
    p.typeTo (depth + 1) t =
      "function(" ++ ", ".intercalate (Printer.receiver (p.typeTo depth) shape ++
        Printer.parameters shape.arity
          ((p.store.types.list shape.parameters).map (p.typeTo depth)))
        ++ "): " ++ p.typeTo depth shape.returnType := by
  simp only [Printer.typeTo, ht]

/-- The counter finds a problem at a kind just where an earlier one ranks above it or both are
rest parameters. It counts all kinds, the required ones up to the first other one, and says if
there is a rest parameter. If it finds no problem, the text of a function type with this arity
marks the rest parameter, the optional ones, and no others. -/
theorem counts_and_marks (kinds : List ParameterKind) :
    (∀ before kind after, kinds = before ++ kind :: after →
      ((of before).push kind).1 =
        if Misplaced before kind then some kind.unexpected else none) ∧
    (of kinds).arity.max = kinds.length ∧
    ((of kinds).arity.hasRest = true ↔ .rest ∈ kinds) ∧
    (of kinds).arity.min = (kinds.takeWhile (· = .required)).length ∧
    (InOrder kinds →
      ∀ (p : Printer) (depth : Nat) (t : TypeId) (shape : FunctionShape),
        p.store.types.key? t = some (.function shape) →
        shape.arity = (of kinds).arity →
        (p.store.types.list shape.parameters).length = kinds.length →
        p.typeTo (depth + 1) t =
          "function(" ++ ", ".intercalate (Printer.receiver (p.typeTo depth) shape ++
            List.zipWith mark kinds
              ((p.store.types.list shape.parameters).map (p.typeTo depth)))
            ++ "): " ++ p.typeTo depth shape.returnType) := by
  have hc := of_counts kinds
  refine ⟨fun before kind _ _ => push_problem before kind, hc.max, hc.hasRest, hc.min, ?_⟩
  intro hin p depth t shape ht harity hlen
  rw [typeTo_function p depth ht, harity, parameters_marked hin _ (by rw [List.length_map, hlen])]

/-- The kinds of the parameters of `triple`. -/
def tripleKinds : List ParameterKind := [.required, .optional, .rest]

/-- A function with a parameter of each kind. -/
def triple : FunctionShape := { parameters := ⟨1⟩, arity := (of tripleKinds).arity }

/-- A store with the type of such a function. -/
def tripleStore : Store :=
  let types := (TypeStore.new.internList [.number, .string, .boolean]).2
  { Store.new ⟨0⟩ with types := (types.intern (.function triple)).2 }

/-- The parameter of each kind has its mark. -/
theorem triple_marked :
    InOrder tripleKinds ∧
    (Printer.mk tripleStore .new).type ⟨1000⟩ = "function(number, string=, ...boolean): void" := by
  have hin : InOrder tripleKinds := by decide
  refine ⟨hin, ?_⟩
  have htext := (counts_and_marks tripleKinds).2.2.2.2 hin (Printer.mk tripleStore .new) 16 ⟨1000⟩
    triple (by decide) rfl (by decide)
  exact htext.trans (by decide)

end ArityCount

end DocTypes
