import DocTypes.Comment.DocComment
import DocTypes.TypeExpr.Transform

/-!
# Parameters

The parameters of a function are its parameter list, typed by the `@param` tags of the
same names. A declaration that defines no function has the parameters its `@param` tags
say, in their order. Either way the kinds of the parameters are counted from the left,
and each one that is out of order is reported.
-/

namespace DocTypes

namespace Signature

/-- The parameters read so far. -/
structure Parameters where
  types : List TypeId := []
  count : ArityCount := {}

/-- Count a parameter. If its kind is out of order that is reported at `node`. -/
def Parameters.countKind (a : Arena) (s : Parameters) (kind : ParameterKind) (node : NodeRef) :
    Analyze Parameters := do
  let (problem?, count) := s.count.push kind
  match problem? with
  | some problem => Analysis.reportAt a problem node
  | none => pure ()
  return { s with count }

/-- Add the type of a parameter that was counted. -/
def Parameters.addType (s : Parameters) (type : TypeId) : Parameters :=
  { s with types := s.types ++ [type] }

/-! ## Parameters of tags -/

/-- Add the parameter of a `@param` tag. The order is checked before the type is looked at. -/
def pushTag (a : Arena) (s : Parameters) (tag : Nat) : Analyze Parameters := do
  let operand := a.typeOperand (some tag)
  let s ← s.countKind a (.ofTypeKind (a.kind? operand)) (some tag)
  return s.addType (← TypeExpr.transform a operand .parameter)

/-- The parameters that the `@param` tags say. -/
def ofTags (a : Arena) (doc : DocComment) : Analyze Parameters :=
  doc.paramTags.foldlM (pushTag a) {}

/-! ## Parameters of a list -/

/-- An entry of a parameter list. -/
structure Entry where
  node : NodeRef
  binding : NodeRef
  hasDefault : Bool := false
  isRest : Bool := false

/-- The entry that a node of a parameter list makes, if it makes one. -/
def Entry.ofNode? (a : Arena) (node : NodeRef) : Option Entry :=
  match a.kind? node with
  | some .bindingName => some { node, binding := node }
  | some .bindingWithDefault => some { node, binding := a.child node 0, hasDefault := true }
  | some .restParameter => some { node, binding := a.child node 0, isRest := true }
  | _ => none

/-- The kind of an entry whose type expression says `declared`. -/
def Entry.kind (e : Entry) (declared : ParameterKind) : ParameterKind :=
  if e.isRest then .rest else if e.hasDefault then .optional else declared

/-- The parameter list of a function. -/
def entries (a : Arena) (function : NodeRef) : List Entry :=
  let list := match a.kind? function with
    | some .arrowFunction => a.child function 0
    | some _ => a.child function 1
    | none => none
  (a.children list).filterMap (Entry.ofNode? a)

/-- The type of a parameter with a `@param` tag, and the kind that the tag gives it. -/
def taggedType (a : Arena) (e : Entry) (tag : Nat) : Analyze (ParameterKind × TypeId) := do
  let operand := a.typeOperand (some tag)
  let declared := ParameterKind.ofTypeKind (a.kind? operand)
  if e.hasDefault && declared ≠ .required then
    Analysis.reportAt a .unexpectedInitializer e.node
  let type ← TypeExpr.transform a operand .parameter
  if e.hasDefault && declared = .required then return (declared, ← TypeExpr.union2 type .void)
  else return (declared, type)

/-- The type of a parameter without a `@param` tag. If others have one, that is reported. -/
def untaggedType (a : Arena) (doc : Option DocComment) (e : Entry) :
    Analyze (ParameterKind × TypeId) := do
  if doc.any (!·.paramTags.isEmpty) then
    Analysis.reportAt a .expectedParameterTag e.node
  return (.required, .unspecified)

/-- Add an entry of a parameter list, typed by its `@param` tag. -/
def pushEntry (a : Arena) (doc : Option DocComment) (s : Parameters) (e : Entry) :
    Analyze Parameters := do
  let (declared, type) ← match doc.bind (·.paramTag? a (a.atom e.binding)) with
    | some tag => taggedType a e tag
    | none => untaggedType a doc e
  let s ← s.countKind a (e.kind declared) e.node
  return s.addType type

/-- The `@param` tags that are for none of the entries. -/
def strayTags (a : Arena) (doc : DocComment) (list : List Entry) : List Nat :=
  doc.paramTags.filter fun tag =>
    !list.any fun e => a.atom e.binding = a.atom (a.nameOperand (some tag))

/-- The parameters of a function. -/
def ofList (a : Arena) (doc : Option DocComment) (function : NodeRef) :
    Analyze Parameters := do
  let list := entries a function
  let parameters ← list.foldlM (pushEntry a doc) {}
  match doc with
  | some doc =>
    (strayTags a doc list).forM fun tag =>
      Analysis.reportAt a .undefinedParameter (some tag)
  | none => pure ()
  return parameters

/-- The parameters of a declaration. -/
def parameters (a : Arena) (doc : Option DocComment) (function : NodeRef) :
    Analyze Parameters :=
  match doc, function with
  | some doc, none => ofTags a doc
  | _, _ => ofList a doc function

end Signature

end DocTypes
