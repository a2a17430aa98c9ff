import DocTypes.Tree.Reader

/-!
# Loading trees

`Outline.build` enters an outline into an arena from the leaves up: the children of a
node in order, then the node itself, so the indices are the post-order numbers. The
first node in that order with an unknown flag, or with an end before its start, stops
it; at one node the flags are looked at first, from the left.
-/

namespace DocTypes

namespace Outline

/-- The flags of a written node. The literal `true` has its flag by its name alone. -/
def flagsOf (kind : NodeKind) (name : Option String) (names : List String) :
    Except LoadError Flags := do
  let flags ← names.foldlM (fun flags flag =>
    match Flags.ofName? flag with
    | some more => .ok (flags.union more)
    | none => .error (.unknownFlag flag)) Flags.empty
  return if kind == .booleanLiteral && name == some "true" then
    flags.union { isTrue := true } else flags

mutual

/-- Enter an outline into an arena and give the node it became. -/
def build : Outline → Arena → Except LoadError (NodeRef × Arena)
  | .absent, a => .ok (none, a)
  | .node kind start stop name names children, a => do
    let (refs, a) ← buildAll children a
    let flags ← flagsOf kind name names
    if stop < start then .error (.inverted kind start stop)
    else
      let (atom, a) := match name with
        | some text => a.intern text
        | none => (Atom.empty, a)
      let (n, a) := a.addNode kind flags ⟨start, stop⟩ atom refs
      .ok (some n, a)

/-- Enter a list of outlines from the left. -/
def buildAll : List Outline → Arena → Except LoadError (List NodeRef × Arena)
  | [], a => .ok ([], a)
  | o :: rest, a => do
    let (r, a) ← build o a
    let (refs, a) ← buildAll rest a
    .ok (r :: refs, a)

end

end Outline

/-- A syntax tree: its nodes, and the one it is rooted at. -/
structure Tree where
  arena : Arena
  root : NodeRef

/-- The tree that a text writes down. -/
def Tree.ofText (text : String) : Except LoadError Tree := do
  let (root, arena) ← (← Outline.ofText text).build Arena.empty
  return { arena, root }

end DocTypes
