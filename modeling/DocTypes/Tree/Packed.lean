import DocTypes.Tree.Arena

/-!
# The arena in one buffer

An `Arena` keeps the children of a node in the node. The same tree can be kept in three
arrays of plain entries: the lists of children of all nodes stand one after another in one
buffer, a header keeps where the list of its node begins and how long it is, and the
parents lie beside the headers. A node that is added appends its list to the buffer and
writes itself into the parents of its children.

Nothing here asks where a list ends or whether a child is there: that every list is read
back is a matter of how the arrays came about, and `Packed.Represents` states it.
-/

namespace DocTypes

/-- A node without its children: its list is a part of the shared buffer. -/
structure Header where
  kind : NodeKind
  flags : Flags
  span : Span
  atom : Atom
  firstChild : Nat
  childCount : Nat
  deriving DecidableEq, Repr

/-- The nodes of a tree with their children in one buffer. -/
structure Packed where
  headers : Array Header := #[]
  buffer : Array NodeRef := #[]
  parents : Array NodeRef := #[]
  deriving Repr

namespace Packed

/-- Add a node. Its children get it as their parent. -/
def addNode (p : Packed) (node : Node) : Packed where
  headers := p.headers.push
    { kind := node.kind
      flags := node.flags
      span := node.span
      atom := node.atom
      firstChild := p.buffer.size
      childCount := node.children.length }
  buffer := p.buffer ++ node.children
  parents := adopt p.headers.size (p.parents.push none) node.children

/-- The nodes of a list, added one after another. -/
def ofNodes (nodes : List Node) : Packed := nodes.foldl addNode {}

/-- The part of the buffer that belongs to a header. -/
def childrenOf (p : Packed) (h : Header) : List NodeRef :=
  (p.buffer.extract h.firstChild (h.firstChild + h.childCount)).toList

/-- The node at an index, put together from its header and its part of the buffer. -/
def node? (p : Packed) (n : Nat) : Option Node :=
  p.headers[n]?.map fun h =>
    { kind := h.kind, flags := h.flags, span := h.span, atom := h.atom, children := p.childrenOf h }

end Packed

end DocTypes
