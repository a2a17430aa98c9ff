import DocTypes.Comment.DocComment
import DocTypes.Comment.Target
import DocTypes.Diagnostic

/-!
# Compiling comments

`DocComment.compile` turns the node of a comment and the declaration under it into a
`DocComment`. It looks at the tags from the left. The first tag for a slot fills it and a
later one is a repetition; `@param` counts once a name; `@template` names count once.
The tags that were kept then decide the kind of the comment.

Problems go to a `Sink`, which keeps them or drops them. The same comment is compiled
several times, and only once with a sink that keeps.
-/

namespace DocTypes

/-- Where problems are reported: a growing list, or nowhere. -/
abbrev Sink := Option (Array Diagnostic)

/-- Report one problem. -/
def Sink.report (s : Sink) (d : Diagnostic) : Sink := s.map (·.push d)

namespace DocComment

/-- Report a problem at a node. -/
def flag (a : Arena) (problem : Problem) (node : NodeRef) (sink : Sink) : Sink :=
  sink.report { problem, span := a.span node }

/-- Report a problem at each node of a list. -/
def flagAll (a : Arena) (problem : Problem) (nodes : List Nat) (sink : Sink) : Sink :=
  nodes.foldl (fun sink node => flag a problem (some node) sink) sink

/-! ## The scan -/

/-- The first tag for a slot is kept. It also decides what the slot's name says. -/
def keepOnce (a : Arena) (slot : TagSlot) (tag : Nat) (x : DocComment) : DocComment :=
  let x := { x with slots := x.slots ++ [(slot, tag)] }
  match slot with
  | .access => { x with visibility := Visibility.ofTagName (a.text (some tag)) }
  | .kind => { x with isRecord := a.text (some tag) == "record" }
  | _ => x

/-- One name of a `@template` tag. -/
def scanTypeParameter (a : Arena) (state : DocComment × Sink) (name : Nat) :
    DocComment × Sink :=
  let (x, sink) := state
  if x.typeParameters.any fun seen => a.atom (some seen) == a.atom (some name) then
    (x, flag a .repeatedTypeParameter (some name) sink)
  else ({ x with typeParameters := x.typeParameters ++ [name] }, sink)

/-- One tag of the comment. -/
def scanTag (a : Arena) (state : DocComment × Sink) (tag : Nat) : DocComment × Sink :=
  let (x, sink) := state
  match TagClass.ofName? (a.text (some tag)) with
  | none => (x, flag a .unknownTag (some tag) sink)
  | some .ignored => (x, sink)
  | some (.once slot) =>
    if x.has slot then (x, flag a .repeatedTag (some tag) sink)
    else (x.keepOnce a slot tag, sink)
  | some .extendsTag => ({ x with extendsTags := x.extendsTags ++ [tag] }, sink)
  | some .implementsTag => ({ x with implementsTags := x.implementsTags ++ [tag] }, sink)
  | some .paramTag =>
    let name := a.atom (a.nameOperand (some tag))
    if !name.isEmpty && (x.paramTag? a name).isSome then
      (x, flag a .repeatedParameter (some tag) sink)
    else ({ x with paramTags := x.paramTags ++ [tag] }, sink)
  | some .templateTag =>
    (a.nameOperands (some tag)).foldl (scanTypeParameter a)
      ({ x with templateTags := x.templateTags ++ [tag] }, sink)

/-! ## The kind -/

/-- The slots whose tag alone decides the kind. -/
def declaringSlots : List TagSlot := [.kind, .typedefTag, .enumTag, .defineTag, .typeTag]

/-- The tags that alone decide the kind, in the order of the source. -/
def declaringTags (a : Arena) (x : DocComment) : List Nat :=
  (declaringSlots.filterMap x.tag).mergeSort fun s t =>
    (a.span (some s)).start ≤ (a.span (some t)).start

/-- Whether a tag is present that only a function has. -/
def hasFunctionTags (x : DocComment) : Bool :=
  !x.paramTags.isEmpty || x.has .returnTag || x.has .thisTag || !x.templateTags.isEmpty

/-- The kind of the comment. Two declaring tags cancel each other. -/
def deriveKind (a : Arena) (x : DocComment) (declaring : List Nat) : DocKind :=
  if 1 < declaring.length then .plain
  else if x.has .kind then
    if a.text (x.tag .kind) == "constructor" then .constructor else .interface
  else if x.has .typedefTag then .typedef
  else if x.has .enumTag then .enum
  else if x.has .defineTag then .define
  else if x.has .typeTag then .type
  else if a.targetKind x.target == .classLike then .constructor
  else if x.has .dictTag then .dict
  else if x.hasFunctionTags || (a.definedFunction x.target).isSome then .function
  else .plain

/-! ## Tags against the declaration -/

/-- Report the tags that do not fit the kind or the declaration. -/
def validate (a : Arena) (x : DocComment) (declaring : List Nat) (sink : Sink) : Sink :=
  let sink := flagAll a .unexpectedTag declaring.tail sink
  let sink :=
    if x.has .access && !(a.targetKind x.target).isPropertyLike then
      flag a .unexpectedVisibility (x.tag .access) sink
    else sink
  let sink :=
    if x.kind.isClass then flagAll a .repeatedTag x.extendsTags.tail sink
    else flagAll a .unexpectedTag x.extendsTags sink
  let sink :=
    if x.kind == .constructor then sink else flagAll a .unexpectedTag x.implementsTags sink
  let sink :=
    if x.kind == .interface || x.kind == .enum then
      let sink := flagAll a .unexpectedTag x.paramTags sink
      if x.has .returnTag then flag a .unexpectedTag (x.tag .returnTag) sink else sink
    else sink
  if x.kind == .constructor || x.kind == .interface || x.kind == .function then sink
  else flagAll a .unexpectedTag x.templateTags sink

/-- Compile the comment `document` on the declaration `target`. -/
def compile (a : Arena) (document target : NodeRef) (sink : Sink) : DocComment × Sink :=
  let (x, sink) := (a.tags document).foldl (scanTag a) ({ document, target }, sink)
  let declaring := declaringTags a x
  let x := { x with kind := deriveKind a x declaring }
  (x, validate a x declaring sink)

/-- Compile a comment and report nothing. -/
def silent (a : Arena) (document target : NodeRef) : DocComment :=
  (compile a document target none).1

end DocComment

end DocTypes
