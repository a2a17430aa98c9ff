/-!
# Double precision

Natural numbers as double precision holds them: with 53 significant bits, rounded to the
nearest, a half to the even neighbour. From two to the power of 1024 on a number is out of
range.

## Main statements

* `Precision.round_of_lt`: a number of at most 53 bits is held as it is.
* `Precision.round_le_add`, `Precision.le_round_add`: rounding moves a number by half a
  unit of its last bit at most.
-/

namespace DocTypes.Precision

/-- How many significant bits are held. -/
def significantBits : Nat := 53

/-- The least number that is out of range. -/
def bound : Nat := Nat.pow 2 1024

/-- The multiple of `unit` nearest to a number; of two that are as near, the even one. -/
def nearestMultiple (unit n : Nat) : Nat :=
  let quotient := n / unit
  let rest := n % unit
  if 2 * rest < unit then quotient * unit
  else if unit < 2 * rest then (quotient + 1) * unit
  else (quotient + quotient % 2) * unit

/-- The unit of the last bit that is held of a number. -/
def unit (n : Nat) : Nat := Nat.pow 2 (n.log2 + 1 - significantBits)

/-- A number as it is held. -/
def round (n : Nat) : Nat := nearestMultiple (unit n) n

/-- `digits` times a power of ten, worked out in double precision: both factors are held
before they are multiplied, and so is the product. -/
def scaled (digits exponent : Nat) : Nat := round (round digits * round (Nat.pow 10 exponent))

theorem unit_pos (n : Nat) : 0 < unit n := Nat.pow_pos (by decide)

theorem nearestMultiple_one (n : Nat) : nearestMultiple 1 n = n := by
  simp [nearestMultiple, Nat.mod_one]

theorem nearestMultiple_le_add (unit n : Nat) :
    2 * nearestMultiple unit n ≤ 2 * n + unit := by
  have hsplit : unit * (n / unit) + n % unit = n := Nat.div_add_mod n unit
  have hcomm : n / unit * unit = unit * (n / unit) := Nat.mul_comm _ _
  simp only [nearestMultiple]
  split
  · omega
  · split
    · rw [Nat.add_mul]
      omega
    · rcases Nat.mod_two_eq_zero_or_one (n / unit) with h | h
      · rw [h, Nat.add_zero]
        omega
      · rw [h, Nat.add_mul]
        omega

theorem le_nearestMultiple_add {unit : Nat} (hunit : 0 < unit) (n : Nat) :
    2 * n ≤ 2 * nearestMultiple unit n + unit := by
  have hsplit : unit * (n / unit) + n % unit = n := Nat.div_add_mod n unit
  have hcomm : n / unit * unit = unit * (n / unit) := Nat.mul_comm _ _
  have hlt : n % unit < unit := Nat.mod_lt _ hunit
  simp only [nearestMultiple]
  split
  · omega
  · split
    · rw [Nat.add_mul]
      omega
    · rcases Nat.mod_two_eq_zero_or_one (n / unit) with h | h
      · rw [h, Nat.add_zero]
        omega
      · rw [h, Nat.add_mul]
        omega

/-- A number of at most 53 bits is held as it is. -/
theorem round_of_lt {n : Nat} (h : n < Nat.pow 2 significantBits) : round n = n := by
  have hbits : n.log2 + 1 - significantBits = 0 := by
    rcases Nat.eq_zero_or_pos n with h0 | hpos
    · subst h0
      decide
    · have hlog : n.log2 < significantBits := (Nat.log2_lt (Nat.ne_of_gt hpos)).2 h
      omega
  have hunit : unit n = 1 := by
    unfold unit
    rw [hbits]
  rw [round, hunit, nearestMultiple_one]

/-- Rounding adds half a unit of the last bit at most. -/
theorem round_le_add (n : Nat) : 2 * round n ≤ 2 * n + unit n := nearestMultiple_le_add _ n

/-- Rounding takes half a unit of the last bit away at most. -/
theorem le_round_add (n : Nat) : 2 * n ≤ 2 * round n + unit n :=
  le_nearestMultiple_add (unit_pos n) n

end DocTypes.Precision
