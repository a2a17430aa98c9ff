import DocTypes.Tree.Outline

/-!
# Reading outlines

A tree is written as a JSON object with the members `kind`, `start`, `end` and,
optionally, `name`, `flags` and `children`. A node may also be an array of these
values in that order, with the optional ones left off at the end, and a kind may be
an object with the kind's name as its only key and `null` as the value.

`Reader` takes the tokens one at a time. The first token that cannot stand where it
stands decides the error: `malformed` if no JSON text goes on with it, `wrongShape` if
it begins a value of the wrong kind, or completes one that is out of range, repeated
or unknown. Keys are texts, so anything else in the place of a key is `malformed`, and so
is a kind that begins as neither a text nor an object. An object that closes without a
required member is `wrongShape` at its closing brace. Opening an array or object inside
`depthLimit` others is `tooDeep`.
-/

namespace DocTypes

/-- A member of a written node. -/
inductive Field where
  | kind
  | start
  | stop
  | name
  | flags
  | children
  deriving DecidableEq, Repr

namespace Field

/-- The fields in the order of the array form. -/
def all : List Field := [.kind, .start, .stop, .name, .flags, .children]

/-- The key of a field in the object form. -/
def key : Field → String
  | .kind => "kind"
  | .start => "start"
  | .stop => "end"
  | .name => "name"
  | .flags => "flags"
  | .children => "children"

/-- The field of a key. -/
def ofKey? (s : String) : Option Field := all.find? (·.key == s)

end Field

/-- A node of which some members have been read. -/
structure Draft where
  kind? : Option NodeKind := none
  start? : Option Nat := none
  stop? : Option Nat := none
  name? : Option (Option String) := none
  flags? : Option (List String) := none
  children? : Option (List Outline) := none

namespace Draft

/-- Whether a member has been read. -/
def has (d : Draft) : Field → Bool
  | .kind => d.kind?.isSome
  | .start => d.start?.isSome
  | .stop => d.stop?.isSome
  | .name => d.name?.isSome
  | .flags => d.flags?.isSome
  | .children => d.children?.isSome

/-- The node, if every required member has been read. -/
def outline? (d : Draft) : Option Outline := do
  return .node (← d.kind?) (← d.start?) (← d.stop?) (d.name?.getD none) (d.flags?.getD [])
    (d.children?.getD [])

end Draft

/-- An array or object that is open. -/
inductive Frame where
  /-- A node as an object. -/
  | object (d : Draft)
  /-- A node as an array, with the fields still to come. -/
  | array (d : Draft) (due : List Field)
  /-- A list of flags, in reverse. -/
  | flags (names : List String)
  /-- A list of children, in reverse. -/
  | children (nodes : List Outline)

/-- What may come next. -/
inductive Expect where
  /-- The root. -/
  | root
  /-- A key or the end of an object that has just been opened. -/
  | firstKey
  /-- A key, after a comma. -/
  | key
  /-- The colon after the key of a field. -/
  | colon (f : Field)
  /-- The value of a field of the innermost object. -/
  | value (f : Field)
  /-- An element or the end of an array that has just been opened. -/
  | firstElement
  /-- An element, after a comma. -/
  | element
  /-- A comma or the end of the innermost array or object. -/
  | separator
  /-- The key of a kind that is written as an object. -/
  | kindKey
  /-- The colon after that key. -/
  | kindColon (k : NodeKind)
  /-- The `null` after that colon. -/
  | kindNull (k : NodeKind)
  /-- The end of that object. -/
  | kindEnd (k : NodeKind)
  /-- Nothing: the root is complete. -/
  | finished (tree : Outline)

/-- The arrays and objects that are open, innermost first, and what may come next. -/
structure Reader where
  frames : List Frame
  expect : Expect

namespace Reader

/-- How many arrays and objects may be open at once. -/
def depthLimit : Nat := 127

/-- The largest offset. -/
def maxOffset : Nat := 4294967295

/-- The state before the first token. -/
def initial : Reader := ⟨[], .root⟩

/-- Open one more array or object. -/
def push (frames : List Frame) (frame : Frame) (expect : Expect) : Except LoadError Reader :=
  if frames.length < depthLimit then .ok ⟨frame :: frames, expect⟩ else .error .tooDeep

/-- The error at a token that stands where a value of another kind is due. -/
def mismatch : Json.Token → LoadError
  | .objectClose | .arrayClose | .comma | .colon | .malformed => .malformed
  | _ => .wrongShape

/-- A member of the innermost node has been read. -/
def setField (frames : List Frame) (set : Draft → Draft) : Except LoadError Reader :=
  match frames with
  | .object d :: rest => .ok ⟨.object (set d) :: rest, .separator⟩
  | .array d due :: rest => .ok ⟨.array (set d) due.tail :: rest, .separator⟩
  | _ => .error .malformed

/-- A node, or an absent child, is complete. -/
def deliver (frames : List Frame) (tree : Outline) : Except LoadError Reader :=
  match frames with
  | [] => .ok ⟨[], .finished tree⟩
  | .children nodes :: rest => .ok ⟨.children (tree :: nodes) :: rest, .separator⟩
  | _ => .error .malformed

/-- The innermost node closes. -/
def closeNode (rest : List Frame) (d : Draft) : Except LoadError Reader :=
  match d.outline? with
  | some tree => deliver rest tree
  | none => .error .wrongShape

/-- A node is due. -/
def node (frames : List Frame) : Json.Token → Except LoadError Reader
  | .objectOpen => push frames (.object {}) .firstKey
  | .arrayOpen => push frames (.array {} Field.all) .firstElement
  | token => .error (mismatch token)

/-- A child is due: a node or `null`. -/
def child (frames : List Frame) : Json.Token → Except LoadError Reader
  | .null => deliver frames .absent
  | token => node frames token

/-- An offset is due. -/
def offset (frames : List Frame) (set : Nat → Draft → Draft) :
    Json.Token → Except LoadError Reader
  | .number _ (some n) => if n ≤ maxOffset then setField frames (set n) else .error .wrongShape
  | token => .error (mismatch token)

/-- The value of a field is due. -/
def value (frames : List Frame) : Field → Json.Token → Except LoadError Reader
  | .kind, .text s =>
    match NodeKind.ofName? s with
    | some k => setField frames fun d => { d with kind? := some k }
    | none => .error .wrongShape
  | .kind, .objectOpen =>
    if frames.length < depthLimit then .ok ⟨frames, .kindKey⟩ else .error .tooDeep
  | .kind, _ => .error .malformed
  | .start, token => offset frames (fun n d => { d with start? := some n }) token
  | .stop, token => offset frames (fun n d => { d with stop? := some n }) token
  | .name, .null => setField frames fun d => { d with name? := some none }
  | .name, .text s => setField frames fun d => { d with name? := some (some s) }
  | .flags, .arrayOpen => push frames (.flags []) .firstElement
  | .children, .arrayOpen => push frames (.children []) .firstElement
  | _, token => .error (mismatch token)

/-- A key of a node is due. -/
def key (frames : List Frame) : Json.Token → Except LoadError Reader
  | .text s =>
    match Field.ofKey? s, frames with
    | some f, .object d :: _ => if d.has f then .error .wrongShape else .ok ⟨frames, .colon f⟩
    | _, _ => .error .wrongShape
  | _ => .error .malformed

/-- An element of the innermost array is due. -/
def element (frames : List Frame) (token : Json.Token) : Except LoadError Reader :=
  match frames with
  | .array _ (f :: _) :: _ => value frames f token
  | .flags names :: rest =>
    match token with
    | .text s => .ok ⟨.flags (s :: names) :: rest, .separator⟩
    | _ => .error (mismatch token)
  | .children _ :: _ => child frames token
  | _ => .error .malformed

/-- The innermost array closes. -/
def closeArray : List Frame → Except LoadError Reader
  | .array d _ :: rest => closeNode rest d
  | .flags names :: rest => setField rest fun d => { d with flags? := some names.reverse }
  | .children nodes :: rest => setField rest fun d => { d with children? := some nodes.reverse }
  | _ => .error .malformed

/-- A comma or the end of the innermost array or object is due. -/
def separator (frames : List Frame) (token : Json.Token) : Except LoadError Reader :=
  match frames, token with
  | .object _ :: _, .comma => .ok ⟨frames, .key⟩
  | .object d :: rest, .objectClose => closeNode rest d
  | .object _ :: _, _ => .error .malformed
  | .array _ [] :: _, .comma => .error .malformed
  | _, .comma => .ok ⟨frames, .element⟩
  | _, .arrayClose => closeArray frames
  | _, _ => .error .malformed

/-- Read one token. -/
def step (r : Reader) (token : Json.Token) : Except LoadError Reader :=
  match r.expect, token with
  | .root, token => node r.frames token
  | .firstKey, .objectClose =>
    match r.frames with
    | .object d :: rest => closeNode rest d
    | _ => .error .malformed
  | .firstKey, token | .key, token => key r.frames token
  | .colon f, .colon => .ok ⟨r.frames, .value f⟩
  | .value f, token => value r.frames f token
  | .firstElement, .arrayClose => closeArray r.frames
  | .firstElement, token | .element, token => element r.frames token
  | .separator, token => separator r.frames token
  | .kindKey, .text s =>
    match NodeKind.ofName? s with
    | some k => .ok ⟨r.frames, .kindColon k⟩
    | none => .error .wrongShape
  | .kindColon k, .colon => .ok ⟨r.frames, .kindNull k⟩
  | .kindNull k, .null => .ok ⟨r.frames, .kindEnd k⟩
  | .kindNull _, token => .error (mismatch token)
  | .kindEnd k, .objectClose => setField r.frames fun d => { d with kind? := some k }
  | .kindKey, _ | .colon _, _ | .kindColon _, _ | .kindEnd _, _ | .finished _, _ =>
    .error .malformed

/-- The tree, if the tokens end where it does. -/
def finish (r : Reader) : Except LoadError Outline :=
  match r.expect with
  | .finished tree => .ok tree
  | _ => .error .malformed

end Reader

/-- Read the outline that a text writes down. -/
def Outline.ofText (text : String) : Except LoadError Outline := do
  ((← (Json.scan text).foldlM Reader.step Reader.initial)).finish

end DocTypes
