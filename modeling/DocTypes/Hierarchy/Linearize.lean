import DocTypes.Types.Substitution

/-!
# Ancestor lists

The classes above a class are listed level by level: its direct bases in the order in
which they are declared, then their direct bases, and so on. A class that is met again
is not listed again.

A generic class applied to types has the bases of the generic class with the types put
in for its parameters. Looking them up may therefore make new constructed classes.
-/

namespace DocTypes

namespace Store

/-- The direct bases of a class or constructed class. -/
def directBases (v : ValueId) : StateM Store (List ValueId) := do
  let s ← get
  match s.values.get? v with
  | some { data := .classValue cls, .. } => return cls.bases
  | some { data := .constructedClass cls, .. } =>
    match s.values.class? cls.generic with
    | some generic =>
      generic.bases.mapM (instantiateClass
        (Substitution.ofArguments generic.typeParameters (s.types.list cls.arguments)))
    | none => return []
  | _ => return []

/-- List one level: the classes that are not listed yet are added to the ancestors, and
their direct bases to the next level. -/
def listLevel (ancestors : Registry ValueId) (next : Array ValueId) :
    List ValueId → StateM Store (Registry ValueId × Array ValueId)
  | [] => return (ancestors, next)
  | v :: level => do
    if ancestors.contains v then listLevel ancestors next level
    else
      let bases ← directBases v
      listLevel (ancestors.insert v) (next ++ bases) level

/-- List at most the given number of levels. -/
def listLevels : (levels : Nat) → (ancestors : Registry ValueId) → (level : List ValueId) →
    StateM Store (Registry ValueId)
  | 0, ancestors, _ => return ancestors
  | _ + 1, ancestors, [] => return ancestors
  | levels + 1, ancestors, level => do
    let (ancestors, next) ← listLevel ancestors #[] level
    listLevels levels ancestors next.toList

/-- The classes above a class with the given bases. The classes of a chain of bases are
different, so there are no more levels than values. -/
def linearize (bases : List ValueId) : StateM Store (List ValueId) := do
  return (← listLevels ((← get).values.size + 1) .empty bases).toList

/-! ## Constructed classes -/

/-- Whether a value is a constructed class whose own ancestors are not listed yet, and those
of its generic class are. -/
def isPending (values : ValueStore) (v : ValueId) : Bool :=
  (values.constructed? v).any fun cls => !cls.finalized && values.isFinalized cls.generic

/-- List the ancestors of a constructed class. -/
def finalizeConstructed (v : ValueId) : StateM Store Unit := do
  let ancestors ← linearize (← directBases v)
  onValues fun values => ((), values.updateConstructed v fun cls =>
    { cls with ancestors, finalized := true })

/-- List the ancestors of the constructed classes in rounds, because one round may make new
ones. -/
def finalizeRounds : (rounds : Nat) → StateM Store Unit
  | 0 => return
  | rounds + 1 => do
    let values := (← get).values
    match values.ids.filter (isPending values) with
    | [] => return
    | pending =>
      pending.forM finalizeConstructed
      finalizeRounds rounds

/-- How many values a store may grow to: numbers of values have 32 bits. -/
def valueLimit : Nat := Nat.pow 2 32

/-- List the ancestors of all constructed classes whose generic class has its own listed.
Every round lists those of one constructed class at least, so there are no more rounds
than values. -/
def finalizeAllConstructed : StateM Store Unit := do
  finalizeRounds ((← get).values.size + valueLimit)

end Store

end DocTypes
