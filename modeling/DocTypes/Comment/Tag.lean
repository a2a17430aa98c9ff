import DocTypes.Tree.Arena

/-!
# Tags of documentation comments

A tag's name decides how it is treated. Some tags may occur once in a comment and are
kept in a `TagSlot`; base classes, parameters and type parameters may occur often; a
number of names are known and mean nothing here. The operands of a tag are its
children: at most one type expression counts, and any number of names.
-/

namespace DocTypes

/-- A place for a tag that may occur once in a comment. -/
inductive TagSlot where
  /-- `@constructor`, `@interface` or `@record`. -/
  | kind
  /-- `@private`, `@protected`, `@public` or `@package`. -/
  | access
  | constTag
  | finalTag
  | overrideTag
  | thisTag
  | returnTag
  | typeTag
  | typedefTag
  | enumTag
  | defineTag
  | dictTag
  deriving DecidableEq, Repr

namespace TagSlot

/-- Every slot, in the order of declaration. -/
def all : List TagSlot :=
  [.kind, .access, .constTag, .finalTag, .overrideTag, .thisTag, .returnTag, .typeTag,
    .typedefTag, .enumTag, .defineTag, .dictTag]

/-- The name of a slot. -/
def name : TagSlot → String
  | .kind => "Kind"
  | .access => "Access"
  | .constTag => "Const"
  | .finalTag => "Final"
  | .overrideTag => "Override"
  | .thisTag => "This"
  | .returnTag => "Return"
  | .typeTag => "Type"
  | .typedefTag => "TypeDef"
  | .enumTag => "Enum"
  | .defineTag => "Define"
  | .dictTag => "Dict"

end TagSlot

/-- How a tag is treated. -/
inductive TagClass where
  /-- It fills a slot; a repetition is reported and ignored. -/
  | once (slot : TagSlot)
  | extendsTag
  | implementsTag
  | paramTag
  | templateTag
  /-- It is known and means nothing for the analysis. -/
  | ignored
  deriving DecidableEq, Repr

namespace TagClass

/-- The names that are known and mean nothing. -/
def ignoredNames : List String :=
  ["abstract", "author", "deprecated", "desc", "example", "export", "expose", "externs",
    "fileoverview", "inheritDoc", "license", "noalias", "nocollapse", "nocompile",
    "nosideeffects", "preserve", "see", "struct", "suppress", "throws", "unrestricted"]

/-- How the tag of a name is treated. -/
def ofName? (name : String) : Option TagClass :=
  match name with
  | "constructor" | "interface" | "record" => some (.once .kind)
  | "private" | "protected" | "public" | "package" => some (.once .access)
  | "const" => some (.once .constTag)
  | "final" => some (.once .finalTag)
  | "override" => some (.once .overrideTag)
  | "this" => some (.once .thisTag)
  | "return" | "returns" => some (.once .returnTag)
  | "type" => some (.once .typeTag)
  | "typedef" => some (.once .typedefTag)
  | "enum" => some (.once .enumTag)
  | "define" => some (.once .defineTag)
  | "dict" => some (.once .dictTag)
  | "extends" => some .extendsTag
  | "implements" => some .implementsTag
  | "param" => some .paramTag
  | "template" => some .templateTag
  | _ => if ignoredNames.contains name then some .ignored else none

/-- The written form of a class. -/
def render : TagClass → String
  | .once slot => "Once(" ++ slot.name ++ ")"
  | .extendsTag => "Extends"
  | .implementsTag => "Implements"
  | .paramTag => "Param"
  | .templateTag => "Template"
  | .ignored => "Ignored"

end TagClass

/-- Who may use a member. -/
inductive Visibility where
  /-- The comment does not say. -/
  | unstated
  | privateAccess
  | protectedAccess
  | publicAccess
  | packageAccess
  deriving DecidableEq, Repr

namespace Visibility

/-- The visibility a tag of this name gives. -/
def ofTagName : String → Visibility
  | "private" => .privateAccess
  | "protected" => .protectedAccess
  | "public" => .publicAccess
  | "package" => .packageAccess
  | _ => .unstated

/-- The written form of a visibility. -/
def render : Visibility → String
  | .unstated => "None"
  | .privateAccess => "Private"
  | .protectedAccess => "Protected"
  | .publicAccess => "Public"
  | .packageAccess => "Package"

end Visibility

namespace Arena

/-- The tags of a documentation comment, in order. -/
def tags (a : Arena) (document : NodeRef) : List Nat :=
  (a.presentChildren document).filter fun c => a.isKind (some c) .jsDocTag

/-- The type expression of a tag: the first among its children. -/
def typeOperand (a : Arena) (tag : NodeRef) : NodeRef :=
  (a.presentChildren tag).find? fun c =>
    (a.kind? (some c)).any NodeKind.isTypeExpression

/-- The names of a tag. -/
def nameOperands (a : Arena) (tag : NodeRef) : List Nat :=
  (a.presentChildren tag).filter fun c => a.isKind (some c) .jsDocName

/-- The first name of a tag. -/
def nameOperand (a : Arena) (tag : NodeRef) : NodeRef := (a.nameOperands tag).head?

/-- The type expressions of the tags of a comment, in order. -/
def typeOperands (a : Arena) (document : NodeRef) : List Nat :=
  (a.tags document).filterMap fun tag => a.typeOperand (some tag)

end Arena

end DocTypes
