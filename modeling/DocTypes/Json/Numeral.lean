import DocTypes.Json.Precision

/-!
# Numbers in a JSON text

A `Numeral` is a number read in part. Its digits are kept as a word of 64 bits: as many of
them as fit, from the left. A digit of the whole part that does not fit raises the
exponent, and one of the fraction is passed over. Behind the point the word is tried
again, because a smaller digit may fit where a larger one did not.

The value is the word times a power of ten, worked out in double precision.
`Numeral.overflows` says whether it is out of range.

## Main statements

* `Numeral.digits_pushWhole_le`, `Numeral.digits_pushFraction_le`: the digits stay a word.
-/

namespace DocTypes.Json

/-- The largest word. -/
def maxWord : Nat := Nat.pow 2 64 - 1

/-- The parts of a number read so far. -/
structure Numeral where
  /-- The characters in reverse. -/
  spelling : List Char := []
  /-- Whether the number is digits alone. -/
  plain : Bool := true
  /-- The digits that are kept, as a number. -/
  digits : Nat := 0
  /-- Whether a digit of the part being read did not fit. -/
  full : Bool := false
  /-- The exponent that comes from the place of the point. -/
  scale : Int := 0
  /-- The exponent that is written. -/
  exponent : Nat := 0
  exponentNegative : Bool := false
  deriving DecidableEq, Repr

namespace Numeral

/-- The value of a decimal digit. -/
def digitValue (c : Char) : Nat := c.toNat - '0'.toNat

/-- The digits with one more. -/
def extended (x : Numeral) (c : Char) : Nat := x.digits * 10 + digitValue c

/-- Whether one more digit is kept. -/
def keeps (x : Numeral) (c : Char) : Bool := !x.full && x.extended c ≤ maxWord

/-- One more digit of the whole part. -/
def pushWhole (x : Numeral) (c : Char) : Numeral :=
  if x.keeps c then { x with spelling := c :: x.spelling, digits := x.extended c }
  else { x with spelling := c :: x.spelling, full := true, scale := x.scale + 1 }

/-- One more digit of the fraction. -/
def pushFraction (x : Numeral) (c : Char) : Numeral :=
  if x.keeps c then
    { x with spelling := c :: x.spelling, digits := x.extended c, scale := x.scale - 1 }
  else { x with spelling := c :: x.spelling, full := true }

/-- One more digit of the exponent. -/
def pushExponent (x : Numeral) (c : Char) : Numeral :=
  { x with spelling := c :: x.spelling, exponent := x.exponent * 10 + digitValue c }

/-- A mark that makes the number more than digits alone. -/
def pushMark (x : Numeral) (c : Char) : Numeral :=
  { x with spelling := c :: x.spelling, plain := false }

/-- The point before the fraction. -/
def pushPoint (x : Numeral) (c : Char) : Numeral := { x.pushMark c with full := false }

/-- The value of a number that is digits alone and fits a word. -/
def natural? (x : Numeral) : Option Nat :=
  if x.plain && !x.full then some x.digits else none

/-- The power of ten that the digits are multiplied by. -/
def power (x : Numeral) : Int :=
  x.scale + if x.exponentNegative then -(x.exponent : Int) else x.exponent

/-- The largest power of ten in range. -/
def maxPower : Nat := 308

/-- Whether the number is out of range. A negative power makes it smaller and never is. -/
def overflows (x : Numeral) : Bool :=
  match x.power with
  | .negSucc _ => false
  | .ofNat power =>
    x.digits != 0 && (maxPower < power || Precision.bound ≤ Precision.scaled x.digits power)

/-- A digit that is kept leaves a word. -/
theorem extended_le_of_keeps {x : Numeral} {c : Char} (h : x.keeps c = true) :
    x.extended c ≤ maxWord := by
  simp only [keeps, Bool.and_eq_true, decide_eq_true_eq] at h
  exact h.2

theorem digits_pushWhole_le {x : Numeral} (c : Char) (h : x.digits ≤ maxWord) :
    (x.pushWhole c).digits ≤ maxWord := by
  unfold pushWhole
  split
  · next hkeeps => exact extended_le_of_keeps hkeeps
  · exact h

theorem digits_pushFraction_le {x : Numeral} (c : Char) (h : x.digits ≤ maxWord) :
    (x.pushFraction c).digits ≤ maxWord := by
  unfold pushFraction
  split
  · next hkeeps => exact extended_le_of_keeps hkeeps
  · exact h

end Numeral

end DocTypes.Json
