/-!
# Atoms: names by number

Every name in a tree (an identifier, a property label, a tag, an operator) is
kept once in an `AtomTable` and passed around as an `Atom`, its position in that
table. The order of the table is the order in which the texts were first seen,
and that order is visible: the fields of a record type are sorted by it.

Position `0` always holds the empty text, so `Atom.empty` means "no name".

## Main statements

* `AtomTable.lookup?_eq_some_iff`: an atom is found for exactly the text it holds.
* `AtomTable.text?_intern`: interning a text gives an atom that reads back as it.
* `AtomTable.text?_intern_of_some`: no text that was readable before is lost.
-/

namespace DocTypes

/-- A name, as its position in an `AtomTable`. -/
structure Atom where
  index : Nat
  deriving DecidableEq, Repr, Inhabited

namespace Atom

/-- The empty text, which stands for the absence of a name. -/
def empty : Atom := ⟨0⟩

/-- Whether this is the empty text. -/
def isEmpty (a : Atom) : Bool := a.index == 0

end Atom

/-- The texts seen so far, each at the position that is its atom. -/
structure AtomTable where
  texts : Array String
  deriving Repr

namespace AtomTable

/-- The table that holds only the empty text. -/
def new : AtomTable := ⟨#[""]⟩

/-- How many texts the table holds, the empty one included. -/
def size (t : AtomTable) : Nat := t.texts.size

/-- Whether nothing but the empty text was interned. -/
def isEmpty (t : AtomTable) : Bool := t.texts.size ≤ 1

/-- The atom of a text that is already in the table. -/
def lookup? (t : AtomTable) (s : String) : Option Atom :=
  (t.texts.toList.idxOf? s).map Atom.mk

/-- The text at an atom. -/
def text? (t : AtomTable) (a : Atom) : Option String := t.texts[a.index]?

/-- The text at an atom, the empty text for an atom of another table. -/
def text (t : AtomTable) (a : Atom) : String := (t.text? a).getD ""

/-- The atom of a text, which is added at the end if it is new. -/
def intern (t : AtomTable) (s : String) : Atom × AtomTable :=
  match t.lookup? s with
  | some a => (a, t)
  | none => (⟨t.texts.size⟩, ⟨t.texts.push s⟩)

/-- Intern every text of a list, from the left. -/
def internAll (t : AtomTable) (texts : List String) : AtomTable :=
  texts.foldl (fun t s => (t.intern s).2) t

/-- Keywords, primitive type names and tag names, present in every tree's table. -/
def commonNames : List String :=
  ["arguments", "class", "const", "extends", "function", "let", "new", "null", "prototype",
    "this", "undefined", "var", "void",
    "boolean", "number", "string", "symbol",
    "constructor", "define", "dict", "enum", "final", "implements", "interface", "override",
    "package", "param", "private", "protected", "public", "record", "return", "returns",
    "template", "type", "typedef"]

/-- The table with the common names added. -/
def withCommonNames (t : AtomTable) : AtomTable := t.internAll commonNames

/-! ## Reading back -/

/-- Found exactly where the text stands first. -/
theorem lookup?_eq_some_iff {t : AtomTable} {s : String} {a : Atom} :
    t.lookup? s = some a ↔ t.texts.toList.idxOf? s = some a.index := by
  cases a
  simp [lookup?]

theorem text?_of_lookup? {t : AtomTable} {s : String} {a : Atom} (h : t.lookup? s = some a) :
    t.text? a = some s := by
  rw [lookup?_eq_some_iff, List.idxOf?, List.findIdx?_eq_some_iff_getElem] at h
  obtain ⟨hlt, heq, _⟩ := h
  simp only [text?]
  rw [Array.getElem?_eq_getElem (by simpa using hlt)]
  simpa using heq

/-- An interned text reads back as itself. -/
@[simp] theorem text?_intern (t : AtomTable) (s : String) :
    (t.intern s).2.text? (t.intern s).1 = some s := by
  unfold intern
  split
  · next a h => exact text?_of_lookup? h
  · simp [text?]

/-- Interning keeps every text that was there. -/
theorem text?_intern_of_some {t : AtomTable} {a : Atom} {u : String} (s : String)
    (h : t.text? a = some u) : (t.intern s).2.text? a = some u := by
  unfold intern
  split
  · exact h
  · simp only [text?] at h ⊢
    obtain ⟨hlt, heq⟩ := Array.getElem?_eq_some_iff.1 h
    rw [Array.getElem?_push_lt hlt, heq]

end AtomTable

end DocTypes
