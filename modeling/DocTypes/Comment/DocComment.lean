import DocTypes.Comment.Tag

/-!
# Documentation comments

A `DocComment` is what a documentation comment says about the declaration below it:
the kind of declaration it makes, who may use it, and the tags that carry types.
-/

namespace DocTypes

/-- What a documentation comment declares. -/
inductive DocKind where
  | constructor
  | interface
  | function
  | type
  | typedef
  | enum
  | dict
  | define
  /-- Nothing. -/
  | plain
  deriving DecidableEq, Repr

namespace DocKind

/-- Whether a class is declared. -/
def isClass : DocKind → Bool
  | .constructor | .interface => true
  | _ => false

/-- Whether a type name is declared. -/
def declaresType : DocKind → Bool
  | .constructor | .interface | .typedef | .enum => true
  | _ => false

/-- The written form of a kind. -/
def render : DocKind → String
  | .constructor => "Constructor"
  | .interface => "Interface"
  | .function => "Function"
  | .type => "Type"
  | .typedef => "TypeDef"
  | .enum => "Enum"
  | .dict => "Dict"
  | .define => "Define"
  | .plain => "None"

end DocKind

/-- What a documentation comment says about its declaration. -/
structure DocComment where
  document : NodeRef
  target : NodeRef
  kind : DocKind := .plain
  visibility : Visibility := .unstated
  /-- Whether an interface is matched by structure (`@record`). -/
  isRecord : Bool := false
  /-- The tags that occur once, each with its slot, in order. -/
  slots : List (TagSlot × Nat) := []
  extendsTags : List Nat := []
  implementsTags : List Nat := []
  paramTags : List Nat := []
  templateTags : List Nat := []
  /-- The names of the `@template` tags, each name once. -/
  typeParameters : List Nat := []
  deriving DecidableEq, Repr

namespace DocComment

/-- The tag in a slot. -/
def tag (x : DocComment) (slot : TagSlot) : NodeRef := x.slots.lookup slot

/-- Whether a slot is filled. -/
def has (x : DocComment) (slot : TagSlot) : Bool := (x.tag slot).isSome

/-- The type expression of the tag in a slot. -/
def typeOf (x : DocComment) (a : Arena) (slot : TagSlot) : NodeRef := a.typeOperand (x.tag slot)

/-- The `@param` tag for a name. -/
def paramTag? (x : DocComment) (a : Arena) (name : Atom) : Option Nat :=
  x.paramTags.find? fun tag => a.atom (a.nameOperand (some tag)) == name

/-- Whether the comment holds anything besides free text and ignored tags. -/
def hasTags (x : DocComment) : Bool :=
  !x.slots.isEmpty || !x.extendsTags.isEmpty || !x.implementsTags.isEmpty
    || !x.paramTags.isEmpty || !x.templateTags.isEmpty

end DocComment

end DocTypes
