/-!
# Spans of source text

A `Span` is a range of character offsets, from `start` up to and not including
`stop`. Nothing asks that `start ≤ stop`: a span that ends before it starts is
empty, like one that ends where it starts.
-/

namespace DocTypes

/-- A range of character offsets in the source text. -/
structure Span where
  start : Nat
  stop : Nat
  deriving DecidableEq, Repr, Inhabited

namespace Span

/-- The empty span at the beginning of the text. -/
def zero : Span := ⟨0, 0⟩

/-- How many characters lie in the span. -/
def length (s : Span) : Nat := s.stop - s.start

/-- Whether no character lies in the span. -/
def isEmpty (s : Span) : Bool := s.stop ≤ s.start

/-- The smallest span around two spans. -/
def cover (s t : Span) : Span := ⟨min s.start t.start, max s.stop t.stop⟩

/-- The smallest span around all spans of a list. -/
def coverAll? : List Span → Option Span
  | [] => none
  | s :: rest => some (rest.foldl cover s)

/-- Spans are ordered by where they start, then by where they end. -/
def le (s t : Span) : Bool :=
  s.start < t.start || (s.start == t.start && s.stop ≤ t.stop)

/-- The written form `start:stop`. -/
def render (s : Span) : String := toString s.start ++ ":" ++ toString s.stop

theorem isEmpty_iff_length_eq_zero (s : Span) : s.isEmpty = true ↔ s.length = 0 := by
  simp only [isEmpty, length, decide_eq_true_eq]
  omega

theorem cover_comm (s t : Span) : s.cover t = t.cover s := by
  simp [cover, Nat.min_comm, Nat.max_comm]

theorem cover_assoc (s t u : Span) : (s.cover t).cover u = s.cover (t.cover u) := by
  simp [cover, Nat.min_assoc, Nat.max_assoc]

end Span

end DocTypes
