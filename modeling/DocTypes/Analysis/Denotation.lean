import DocTypes.Analysis.Basic

/-!
# What a slot stands for

A variable or property stands for the function, class or object that is written to it.
If only other variables or properties are written to it, it is an alias of the first of
them, and the question is passed on. The chase takes at most `aliasSteps` steps, so a
cycle of aliases ends it too.

`Analysis.resolvePath` follows a dotted path `a.b.c` by the same rule: each member is
looked up in what its object stands for.

## Main statement

* `Analysis.denoteIn_succ_eq_scan`: one step of the chase goes once through what is written.
-/

namespace DocTypes

/-- How many aliases are followed. -/
def aliasSteps : Nat := 32

namespace Analysis

/-- Functions, classes, constructed classes and objects: values that stand for themselves. -/
def isSolid (x : Analysis) (v : ValueId) : Bool :=
  match x.store.values.get? v with
  | some { data := .functionValue, .. } | some { data := .classValue _, .. }
  | some { data := .constructedClass _, .. } | some { data := .objectValue, .. } => true
  | _ => false

/-- The first solid value among those written. -/
def solidSite? (x : Analysis) (writes : List NodeRef) : Option ValueId :=
  writes.findSome? fun site => (x.valueOf? site).filter x.isSolid

/-- The first variable or property, other than `v` itself, among those written. -/
def aliasSite? (x : Analysis) (v : ValueId) (writes : List NodeRef) : Option ValueId :=
  writes.findSome? fun site =>
    (x.valueOf? site).filter fun w => (x.store.values.slot? w).isSome && w ≠ v

/-- What a value stands for, after at most `steps` aliases. -/
def denoteIn (x : Analysis) : (steps : Nat) → ValueId → ValueId
  | 0, v => v
  | steps + 1, v =>
    match x.store.values.slot? v with
    | none => v
    | some slot =>
      match x.solidSite? slot.writes with
      | some w => w
      | none =>
        match x.aliasSite? v slot.writes with
        | some w => x.denoteIn steps w
        | none => v

/-- What a value stands for. -/
def denote (x : Analysis) (v : ValueId) : ValueId := x.denoteIn aliasSteps v

/-- The class or constructed class a value stands for. -/
def classOf? (x : Analysis) (v : ValueId) : Option ValueId :=
  if x.store.values.isClassLike (x.denote v) then some (x.denote v) else none

/-- What an identifier or a dotted path stands for. The root must be known already. -/
def resolvePath (x : Analysis) (a : Arena) (r : NodeRef) : Option ValueId :=
  match r with
  | none => none
  | some n =>
    match a.kind? (some n) with
    | some .memberExpression =>
      (resolvePath x a (a.child (some n) 0)).bind fun object =>
        x.store.values.property? (x.denote object) (.name (a.atom (a.child (some n) 1)))
    | some .identifier => x.valueOf? (some n)
    | _ => none
termination_by r.rank
decreasing_by exact Arena.rank_child_lt a n 0

/-! ## Once through the sites -/

/-- The sites of a holder `v` gone through once, with the alias found so far: the first solid value
ends the search, and the first alias is kept. -/
def scan (x : Analysis) (v : ValueId) (found : Option ValueId) :
    List NodeRef → ValueId ⊕ Option ValueId
  | [] => .inr found
  | site :: rest =>
    match x.valueOf? site with
    | none => scan x v found rest
    | some w =>
      if x.isSolid w then .inl w
      else if (x.store.values.slot? w).isSome ∧ w ≠ v ∧ found.isNone then scan x v (some w) rest
      else scan x v found rest

variable {x : Analysis}

theorem solidSite?_cons (site : NodeRef) (rest : List NodeRef) :
    x.solidSite? (site :: rest) = ((x.valueOf? site).filter x.isSolid).or (x.solidSite? rest) := by
  rw [solidSite?, List.findSome?_cons]
  cases (x.valueOf? site).filter x.isSolid <;> rfl

theorem aliasSite?_cons (v : ValueId) (site : NodeRef) (rest : List NodeRef) :
    x.aliasSite? v (site :: rest) = ((x.valueOf? site).filter fun w =>
      (x.store.values.slot? w).isSome && w ≠ v).or (x.aliasSite? v rest) := by
  rw [aliasSite?, List.findSome?_cons]
  cases (x.valueOf? site).filter fun w => (x.store.values.slot? w).isSome && w ≠ v <;> rfl

/-- Going through the sites once finds the first solid value, and the first alias if
there is none. -/
theorem scan_eq (v : ValueId) (found : Option ValueId) (sites : List NodeRef) :
    x.scan v found sites =
      match x.solidSite? sites with
      | some w => .inl w
      | none => .inr (found.or (x.aliasSite? v sites)) := by
  induction sites generalizing found with
  | nil => simp [scan, solidSite?, aliasSite?]
  | cons site rest ih =>
    rw [scan, solidSite?_cons, aliasSite?_cons]
    cases x.valueOf? site with
    | none => simpa using ih found
    | some w =>
      by_cases hsolid : x.isSolid w = true
      · simp [Option.filter_some, hsolid]
      · by_cases hother : (x.store.values.slot? w).isSome = true ∧ w ≠ v
        · cases found <;> simp [Option.filter_some, hsolid, hother, ih]
        · have hskip : ¬ ((x.store.values.slot? w).isSome = true ∧ w ≠ v ∧ found.isNone = true) :=
            fun h => hother ⟨h.1, h.2.1⟩
          simp only [if_neg hsolid, if_neg hskip, ih]
          simp [Option.filter_some, hsolid, hother]

/-- A step of the chase goes once through what is written to a holder. -/
theorem denoteIn_succ_eq_scan (steps : Nat) (v : ValueId) :
    x.denoteIn (steps + 1) v =
      match x.store.values.slot? v with
      | none => v
      | some slot =>
        match x.scan v none slot.writes with
        | .inl w => w
        | .inr (some w) => x.denoteIn steps w
        | .inr none => v := by
  rw [denoteIn]
  cases x.store.values.slot? v with
  | none => rfl
  | some slot =>
    simp only [scan_eq]
    cases x.solidSite? slot.writes with
    | some w => rfl
    | none => cases x.aliasSite? v slot.writes <;> rfl

end Analysis

end DocTypes
