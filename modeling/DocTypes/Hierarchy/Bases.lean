import DocTypes.TypeExpr.Transform

/-!
# The bases of a class

A base is written as a type expression in a comment, or as an expression after `extends`.
It has to be a class of the right sort: an interface has interfaces as bases, a class
implements interfaces and extends a class.
-/

namespace DocTypes

namespace Hierarchy

/-- What a base as it is written refers to. -/
inductive Heritage where
  | cls (v : ValueId)
  /-- Something that is no class, or an expression that is not followed. -/
  | other
  | unresolved
  deriving DecidableEq, Repr

/-- The class in the type of its instances. -/
def heritageOfType (t : TypeId) : Analyze Heritage := do
  if t = .unspecified || t = .invalid then return .unresolved
  let t ← Analysis.onTypes (·.removeMember t .null)
  match (← get).store.types.key? t with
  | some (.instanceOf v) | some (.constructedInstanceOf v) => return .cls v
  | _ => return .other

/-- What a base refers to. -/
def heritage (a : Arena) (node : NodeRef) : Analyze Heritage := do
  match a.kind? node with
  | none => return .unresolved
  | some kind =>
    if kind.isTypeExpression then heritageOfType (← TypeExpr.transform a node .plain)
    else
      let x ← get
      match kind with
      | .identifier | .memberExpression =>
        match x.valueOf? node with
        | none => return .unresolved
        | some v => return ((x.classOf? v).map Heritage.cls).getD .other
      | _ => return .other

/-- Whether a base of a class has to be an interface. -/
def wantsInterface (x : Analysis) (cls : ValueId) (base : BaseRef) : Bool :=
  base.relation = .implementing || x.store.values.isInterface cls

/-- What is wrong with a base that is not of the right sort. -/
def sortProblem (interface : Bool) : Problem :=
  if interface then .expectedInterface else .expectedClass

/-- What a base refers to, if that is a class of the right sort. Everything else is
reported. -/
def resolveBase (a : Arena) (cls : ValueId) (base : BaseRef) : Analyze Heritage := do
  let interface := wantsInterface (← get) cls base
  match ← heritage a base.node with
  | .unresolved =>
    Analysis.reportAt a .undefinedClass base.node
    return .unresolved
  | .other =>
    Analysis.reportAt a (sortProblem interface) base.node
    return .other
  | .cls v =>
    if (← get).store.values.isInterface v = interface then return .cls v
    else
      Analysis.reportAt a (sortProblem interface) base.node
      return .other

/-- The direct bases of a class, each once, and whether all of them were resolved. -/
structure Resolved where
  bases : List ValueId := []
  complete : Bool := true

/-- Add one base to those resolved so far. -/
def pushBase (a : Arena) (cls : ValueId) (r : Resolved) (base : BaseRef) : Analyze Resolved := do
  match ← resolveBase a cls base with
  | .cls v => return if v ∈ r.bases then r else { r with bases := r.bases ++ [v] }
  | .other => return r
  | .unresolved => return { r with complete := false }

/-- Resolve the bases of the declared classes. The classes with a base that could not be
resolved are given back. -/
def resolveBases (a : Arena) : List ClassDecl → Analyze (List ValueId)
  | [] => return []
  | decl :: rest => do
    let resolved ← decl.bases.foldlM (pushBase a decl.cls) {}
    Analysis.modifyValues (·.updateClass decl.cls fun cls => { cls with bases := resolved.bases })
    let blocked ← resolveBases a rest
    return if resolved.complete then blocked else decl.cls :: blocked

/-- Note the bases of one class. Whether all of them could be resolved is given back. -/
def noteBases (a : Arena) (decl : ClassDecl) : Analyze Bool := do
  let resolved ← decl.bases.foldlM (pushBase a decl.cls) {}
  Analysis.modifyValues (·.updateClass decl.cls fun cls => { cls with bases := resolved.bases })
  return resolved.complete

/-- The bases of classes are noted one class after the other. -/
theorem resolveBases_cons (a : Arena) (decl : ClassDecl) (rest : List ClassDecl) (x : Analysis) :
    resolveBases a (decl :: rest) x =
      (if (noteBases a decl x).1 then (resolveBases a rest (noteBases a decl x).2).1
        else decl.cls :: (resolveBases a rest (noteBases a decl x).2).1,
      (resolveBases a rest (noteBases a decl x).2).2) := rfl

/-- The class behind a base: the generic class, if the base is constructed. -/
def baseClass (values : ValueStore) (base : ValueId) : ValueId :=
  ((values.constructed? base).map (·.generic)).getD base

/-- The classes on which a class is built, one for each base. -/
def baseClasses (values : ValueStore) (cls : ValueId) : List ValueId :=
  (((values.class? cls).map (·.bases)).getD []).map (baseClass values)

end Hierarchy

end DocTypes
