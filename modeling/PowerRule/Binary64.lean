import PowerRule.Scale

/-!
# Binary64

The numbers of the binary64 format as exact multiples of the smallest one: signs, magnitudes, the
numbers with their sum, product and comparisons, and their 64 bits.
-/

namespace PowerRule

/-! ## Signs

The sign of a number and of a written term. A sign is never zero: the zeros `0` and `-0` carry one
as well.
-/

/-- One of the two signs. -/
inductive Sign where
  | positive
  | negative
deriving DecidableEq, Repr

namespace Sign

/-- The opposite sign. -/
def flip : Sign → Sign
  | positive => negative
  | negative => positive

/-- The sign of a product of two factors. -/
def times : Sign → Sign → Sign
  | positive, s => s
  | negative, s => s.flip

/-- What is written before a magnitude of this sign. -/
def mark : Sign → List Char
  | positive => []
  | negative => ['-']

/-- The opposite of the opposite sign is the sign. -/
@[simp] theorem flip_flip (s : Sign) : s.flip.flip = s := by cases s <;> rfl

/-- A positive factor does not change a sign. -/
@[simp] theorem times_positive (s : Sign) : s.times positive = s := by cases s <;> rfl

end Sign

/-! ## Magnitudes of binary64

A finite magnitude is a whole number of units of two to the power of -1074, the smallest one above
zero. Between two powers of two the magnitudes lie evenly spaced, with 53 binary digits each
(`Binary64.spacing`), and they end below two to the power of 1024. `Magnitude.ofRatio?` takes the
magnitude nearest to a quotient and fails past the end; what is a magnitude already is taken as it
is (`Magnitude.ofRatio?_self`).
-/

namespace Binary64

/-- How many units make up the number one. -/
def one : Nat := twoTo 1074

/-- The first power of two that is too large, in units. -/
def bound : Nat := twoTo 2098

/-- The binary logarithm of the distance between neighbouring magnitudes near `units`. -/
def spacingLog (units : Nat) : Nat := units.log2 - 52

/-- The distance between neighbouring magnitudes near `units`. -/
def spacing (units : Nat) : Nat := twoTo (spacingLog units)

/-- The numbers of units that a magnitude can have: multiples of the spacing where they lie. -/
structure Representable (units : Nat) : Prop where
  spaced : spacing units ∣ units
  bounded : units < bound

/-- The multiple of the spacing that is nearest to `num / den` units. -/
def roundUnits (num den : Nat) : Nat :=
  let step := spacing (num / den)
  roundDiv num (den * step) * step

/-- Units have 53 bits at most, in their spacing. -/
theorem lt_twoTo_spacingLog (units : Nat) : units < twoTo (53 + spacingLog units) := by
  apply Nat.lt_of_lt_of_le (lt_twoTo_log2 units)
  apply twoTo_le
  unfold spacingLog
  omega

/-- Any number of at most 53 binary digits, shifted by any amount, lies on the spacing. -/
theorem spacing_dvd_mul_twoTo {m : Nat} (h : m ≤ twoTo 53) (k : Nat) :
    spacing (m * twoTo k) ∣ m * twoTo k := by
  rcases Nat.eq_zero_or_pos m with hz | hpos
  · rw [hz, Nat.zero_mul]
    exact Nat.dvd_zero _
  have hne : m * twoTo k ≠ 0 := Nat.mul_ne_zero (Nat.pos_iff_ne_zero.mp hpos) (twoTo_ne_zero k)
  rcases Nat.lt_or_eq_of_le h with hlt | heq
  · have hlog : (m * twoTo k).log2 < 53 + k := by
      rw [log2_lt_iff hne, twoTo_add]
      exact Nat.mul_lt_mul_of_pos_right hlt (twoTo_pos k)
    apply Nat.dvd_mul_left_of_dvd
    apply twoTo_dvd
    unfold spacingLog
    omega
  · have hlog : (m * twoTo k).log2 = 53 + k := by
      rw [heq, ← twoTo_add, log2_twoTo]
    rw [spacing, spacingLog, hlog, heq, ← twoTo_add]
    apply twoTo_dvd
    omega

/-- A quotient rounded to the spacing has at most 53 binary digits there. -/
theorem roundDiv_spacing_le (num den : Nat) :
    roundDiv num (den * spacing (num / den)) ≤ twoTo 53 := by
  have hq : num / den < twoTo 53 * spacing (num / den) := by
    rw [spacing, ← twoTo_add]
    exact lt_twoTo_spacingLog _
  have hdiv : num / (den * spacing (num / den)) < twoTo 53 := by
    rw [← Nat.div_div_eq_div_mul]
    exact (Nat.div_lt_iff_lt_mul (twoTo_pos _)).mpr hq
  exact Nat.le_trans (roundDiv_le num (den * spacing (num / den))) hdiv

/-- Rounding lands on the spacing of its result, also where it carries into the next binade. -/
theorem spacing_dvd_roundUnits (num den : Nat) :
    spacing (roundUnits num den) ∣ roundUnits num den :=
  spacing_dvd_mul_twoTo (roundDiv_spacing_le num den) _

/-- Below the bound, a number of at most 53 binary digits, shifted, is a magnitude. -/
theorem Representable.of_mul_twoTo {m k : Nat} (hm : m < twoTo 53) (hk : k ≤ 2045) :
    Representable (m * twoTo k) where
  spaced := spacing_dvd_mul_twoTo (Nat.le_of_lt hm) k
  bounded := by
    have h : m * twoTo k < twoTo 53 * twoTo k := Nat.mul_lt_mul_of_pos_right hm (twoTo_pos k)
    rw [← twoTo_add] at h
    exact Nat.lt_of_lt_of_le h (twoTo_le (by omega))

/-- Zero is representable. -/
theorem Representable.zero : Representable 0 where
  spaced := Nat.dvd_zero _
  bounded := twoTo_pos 2098

/-- A number on the spacing is not changed by rounding. -/
theorem roundUnits_self {units : Nat} (h : spacing units ∣ units) : roundUnits units 1 = units := by
  obtain ⟨m, hm⟩ := h
  have hpos : 0 < spacing units := twoTo_pos _
  have hround : roundDiv units (spacing units) = m := by
    conv => lhs; arg 1; rw [hm, Nat.mul_comm]
    exact roundDiv_mul hpos m
  simp only [roundUnits, Nat.div_one, Nat.one_mul, hround]
  rw [Nat.mul_comm]
  exact hm.symm

end Binary64

/-- A finite binary64 magnitude, as its number of units. -/
structure Magnitude where
  units : Nat
  representable : Binary64.Representable units
deriving DecidableEq

namespace Magnitude

/-- The magnitude zero. -/
def zero : Magnitude := ⟨0, Binary64.Representable.zero⟩

/-- The magnitude one. -/
def one : Magnitude := ⟨1 * twoTo 1074, Binary64.Representable.of_mul_twoTo (by decide) (by decide)⟩

/-- The magnitude nearest to `num / den` units, a tie going to the even one; `none` from halfway
between the largest one and the bound on. -/
def ofRatio? (num den : Nat) : Option Magnitude :=
  if h : Binary64.roundUnits num den < Binary64.bound then
    some ⟨Binary64.roundUnits num den, Binary64.spacing_dvd_roundUnits num den, h⟩
  else
    none

/-- A magnitude is nearest to itself. -/
theorem ofRatio?_self (m : Magnitude) : ofRatio? m.units 1 = some m := by
  have h := Binary64.roundUnits_self m.representable.spaced
  simp [ofRatio?, h, m.representable.bounded]

/-- The value, if it is a whole number. -/
def toNat? (m : Magnitude) : Option Nat :=
  if Binary64.one ∣ m.units then some (m.units / Binary64.one) else none

end Magnitude

/-! ## Binary64 numbers

Signed binary64 magnitudes with the two infinities and one NaN. Addition and multiplication are the
exact result, rounded once (`Binary64.ofRatio`). The comparisons are those of the format: `0` and
`-0` are equal, and NaN is neither equal to nor below anything.
-/

/-- A binary64 number. Its zeros are finite numbers of either sign. -/
inductive Binary64 where
  | nan
  | infinite (sign : Sign)
  | finite (sign : Sign) (magnitude : Magnitude)
deriving DecidableEq

namespace Binary64

/-- The number of this sign nearest to `num / den` units: infinite if that is too large. -/
def ofRatio (sign : Sign) (num den : Nat) : Binary64 :=
  match Magnitude.ofRatio? num den with
  | some magnitude => finite sign magnitude
  | none => infinite sign

/-- The number nearest to a natural number. -/
def ofNat (n : Nat) : Binary64 := ofRatio .positive (n * one) 1

/-- The positive zero. -/
def zero : Binary64 := finite .positive Magnitude.zero

/-- The same number with the opposite sign. -/
def neg : Binary64 → Binary64
  | nan => nan
  | infinite s => infinite s.flip
  | finite s m => finite s.flip m

/-- The same number without its sign. -/
def abs : Binary64 → Binary64
  | nan => nan
  | infinite _ => infinite .positive
  | finite _ m => finite .positive m

/-- The sum of two finite numbers. Opposite numbers cancel to the positive zero. -/
def addFinite (s : Sign) (a : Magnitude) (t : Sign) (b : Magnitude) : Binary64 :=
  if s = t then ofRatio s (a.units + b.units) 1
  else if a.units = b.units then zero
  else if b.units < a.units then ofRatio s (a.units - b.units) 1
  else ofRatio t (b.units - a.units) 1

/-- The sum, rounded. Opposite infinities have none. -/
def add : Binary64 → Binary64 → Binary64
  | nan, _ => nan
  | _, nan => nan
  | infinite s, infinite t => if s = t then infinite s else nan
  | infinite s, finite _ _ => infinite s
  | finite _ _, infinite t => infinite t
  | finite s a, finite t b => addFinite s a t b

/-- The product, rounded. An infinity and a zero have none. -/
def mul : Binary64 → Binary64 → Binary64
  | nan, _ => nan
  | _, nan => nan
  | infinite s, infinite t => infinite (s.times t)
  | infinite s, finite t b => if b.units = 0 then nan else infinite (s.times t)
  | finite s a, infinite t => if a.units = 0 then nan else infinite (s.times t)
  | finite s a, finite t b => ofRatio (s.times t) (a.units * b.units) one

/-- Negation is written as such. -/
instance : Neg Binary64 := ⟨neg⟩
/-- So is addition. -/
instance : Add Binary64 := ⟨add⟩
/-- So is multiplication. -/
instance : Mul Binary64 := ⟨mul⟩

/-- Neither infinite nor NaN. -/
def isFinite : Binary64 → Bool
  | finite _ _ => true
  | _ => false

/-- Equal to zero, of either sign. -/
def isZero : Binary64 → Bool
  | finite _ m => m.units == 0
  | _ => false

/-- Below zero. The negative zero is not. -/
def isNegative : Binary64 → Bool
  | nan => false
  | infinite s => s == .negative
  | finite s m => s == .negative && m.units != 0

/-- Equality of the format: the zeros are equal, and NaN differs from itself. -/
def sameValue : Binary64 → Binary64 → Bool
  | infinite s, infinite t => s == t
  | finite s a, finite t b => a.units == b.units && (s == t || a.units == 0)
  | _, _ => false

end Binary64

namespace Sign

/-- The number of this sign and the given magnitude: the number itself, or its negation. -/
def apply : Sign → Binary64 → Binary64
  | positive, x => x
  | negative, x => -x

end Sign

/-! ## The 64 bits of a binary64 number

The interchange format: a sign bit, eleven exponent bits and 52 fraction bits. Above the sign, the
bits of a finite number count the magnitudes below it, so that consecutive magnitudes have
consecutive bits.
-/

namespace Binary64

/-- How many bits hold the fraction, as a power of two. -/
def fractionRange : Nat := twoTo 52

/-- The exponent field of infinities and NaN. -/
def specialExponent : Nat := 2047

/-- The sign bit, as a power of two. -/
def signBit : Nat := twoTo 63

/-- The magnitude with these exponent and fraction fields, unless they are special. -/
def magnitudeOfFields? (exponent fraction : Nat) : Option Magnitude :=
  if h : exponent < specialExponent ∧ fraction < fractionRange then
    if exponent = 0 then
      some ⟨fraction * twoTo 0, Representable.of_mul_twoTo
        (Nat.lt_trans h.2 (by decide)) (Nat.zero_le _)⟩
    else
      some ⟨(fractionRange + fraction) * twoTo (exponent - 1), Representable.of_mul_twoTo
        (Nat.lt_of_lt_of_eq (Nat.add_lt_add_left h.2 fractionRange) (by decide))
        (Nat.le_of_lt_succ (Nat.lt_of_le_of_lt (Nat.sub_le_sub_right (Nat.le_pred_of_lt h.1) 1)
          (by decide)))⟩
  else
    none

/-- The number with these bits. Every NaN is the same one. -/
def ofBits (bits : UInt64) : Binary64 :=
  let sign := if signBit ≤ bits.toNat then Sign.negative else Sign.positive
  let exponent := bits.toNat / fractionRange % 2048
  let fraction := bits.toNat % fractionRange
  match magnitudeOfFields? exponent fraction with
  | some m => finite sign m
  | none => if fraction = 0 then infinite sign else nan

/-- How many magnitudes lie below this one. -/
def magnitudeRank (m : Magnitude) : Nat :=
  spacingLog m.units * fractionRange + m.units / spacing m.units

/-- The bits of a number; those of the quiet NaN without payload for NaN. -/
def toBits (x : Binary64) : UInt64 :=
  let signed (s : Sign) (rank : Nat) : UInt64 :=
    UInt64.ofNat (if s = .negative then signBit + rank else rank)
  match x with
  | nan => signed .positive (specialExponent * fractionRange + fractionRange / 2)
  | infinite s => signed s (specialExponent * fractionRange)
  | finite s m => signed s (magnitudeRank m)

end Binary64

end PowerRule
