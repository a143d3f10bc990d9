/-!
# Scaled and rounded numbers

Powers of two, five and ten, and division with rounding: the arithmetic of natural numbers that the
number formats rest on.
-/

namespace PowerRule

/-! ## Scales

Powers of two, five and ten, by which numbers are scaled. They turn sums of exponents into products.
-/

/-- Two to the power of a natural number. -/
def twoTo (n : Nat) : Nat := Nat.pow 2 n

/-- Five to the power of a natural number. -/
def fiveTo (n : Nat) : Nat := Nat.pow 5 n

/-- Ten to the power of a natural number. -/
def tenTo (n : Nat) : Nat := Nat.pow 10 n

/-- Powers of two are positive. -/
theorem twoTo_pos (n : Nat) : 0 < twoTo n := Nat.two_pow_pos n

/-- Powers of two are not zero. -/
theorem twoTo_ne_zero (n : Nat) : twoTo n ≠ 0 := Nat.pos_iff_ne_zero.mp (twoTo_pos n)

/-- A power with a sum is a product. -/
theorem twoTo_add (m n : Nat) : twoTo (m + n) = twoTo m * twoTo n := Nat.pow_add 2 m n

/-- The next power of two is twice as large. -/
theorem twoTo_succ (n : Nat) : twoTo (n + 1) = twoTo n * 2 := Nat.pow_succ 2 n

/-- Powers of two rise. -/
theorem twoTo_le {m n : Nat} (h : m ≤ n) : twoTo m ≤ twoTo n :=
  Nat.pow_le_pow_right (by decide) h

/-- They rise strictly. -/
theorem twoTo_lt {m n : Nat} (h : m < n) : twoTo m < twoTo n :=
  Nat.pow_lt_pow_right (by decide) h

/-- Smaller powers of two divide larger ones. -/
theorem twoTo_dvd {m n : Nat} (h : m ≤ n) : twoTo m ∣ twoTo n := Nat.pow_dvd_pow 2 h

/-- Powers of ten are positive. -/
theorem tenTo_pos (n : Nat) : 0 < tenTo n := Nat.pow_pos (by decide)

/-- The first power of ten is one. -/
theorem tenTo_zero : tenTo 0 = 1 := rfl

/-- A power with a sum is a product. -/
theorem tenTo_add (m n : Nat) : tenTo (m + n) = tenTo m * tenTo n := Nat.pow_add 10 m n

/-- The next power of ten is ten times as large. -/
theorem tenTo_succ (n : Nat) : tenTo (n + 1) = tenTo n * 10 := Nat.pow_succ 10 n

/-- Ten is two times five, to any power. -/
theorem fiveTo_mul_twoTo (n : Nat) : fiveTo n * twoTo n = tenTo n := (Nat.mul_pow 5 2 n).symm

/-- A number lies below twice the largest power of two in it. -/
theorem lt_twoTo_log2 (n : Nat) : n < twoTo (n.log2 + 1) := Nat.lt_log2_self

/-- The binary logarithm counts the powers of two up to a number. -/
theorem log2_lt_iff {n k : Nat} (h : n ≠ 0) : n.log2 < k ↔ n < twoTo k := Nat.log2_lt h

/-- The logarithm is known from the powers of two below. -/
theorem le_log2_iff {n k : Nat} (h : n ≠ 0) : k ≤ n.log2 ↔ twoTo k ≤ n := Nat.le_log2 h

/-- The logarithm of a power of two is its exponent. -/
theorem log2_twoTo (n : Nat) : (twoTo n).log2 = n := Nat.log2_two_pow

/-! ## Rounded division

The whole number nearest to a quotient, a half going to the even neighbour. It is exact on whole
quotients (`roundDiv_mul`) and lies next to the floor (`le_roundDiv`, `roundDiv_le`).
-/

/-- The whole number nearest to `num / den`; halfway between two, the even one. -/
def roundDiv (num den : Nat) : Nat :=
  let floor := num / den
  let twice := 2 * (num % den)
  if twice < den then floor
  else if den < twice then floor + 1
  else floor + floor % 2

/-- Rounding never goes below the floor. -/
theorem le_roundDiv (num den : Nat) : num / den ≤ roundDiv num den := by
  unfold roundDiv
  dsimp only
  split
  · omega
  · split <;> omega

/-- Rounding goes at most one above the floor. -/
theorem roundDiv_le (num den : Nat) : roundDiv num den ≤ num / den + 1 := by
  unfold roundDiv
  dsimp only
  split
  · omega
  · split <;> omega

/-- A whole quotient is its own rounding. -/
theorem roundDiv_mul {den : Nat} (h : 0 < den) (n : Nat) : roundDiv (n * den) den = n := by
  simp [roundDiv, h]

end PowerRule
