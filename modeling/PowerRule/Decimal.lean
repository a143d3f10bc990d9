import PowerRule.Binary64

/-!
# Decimals

A decimal is a whole number over a power of ten. Numerals are read as decimals, and a magnitude is
written as one: rounded to some places, or as the shortest that reads back.
-/

namespace PowerRule

/-! ## Decimals

A decimal is a whole number over a power of ten. It is written in positional notation without
superfluous zeros (`Decimal.text`), and read as the nearest binary64 magnitude
(`Decimal.nearest?`).
-/

/-- The number whose decimal digits are those of `coefficient`, the last `places` after the point.
-/
structure Decimal where
  coefficient : Nat
  places : Nat
deriving DecidableEq, Repr

namespace Decimal

/-- The same number with as few places as possible, given its coefficient and places. -/
def trim (coefficient : Nat) : Nat → Decimal
  | 0 => ⟨coefficient, 0⟩
  | places + 1 =>
    if coefficient % 10 = 0 then trim (coefficient / 10) places
    else ⟨coefficient, places + 1⟩

/-- The digits of a fraction, filled up with zeros in front to the given number of places. -/
def fractionDigits (places n : Nat) : List Char :=
  (Nat.toDigits 10 n).leftpad places '0'

/-- The decimal in positional notation: no zeros at the end of the fraction, no point without one,
and at least one digit before it. -/
def text (d : Decimal) : List Char :=
  let t := trim d.coefficient d.places
  if t.places = 0 then
    Nat.toDigits 10 t.coefficient
  else
    Nat.toDigits 10 (t.coefficient / tenTo t.places) ++
      '.' :: fractionDigits t.places (t.coefficient % tenTo t.places)

/-- The magnitude nearest to the decimal, if it is not too large for one. -/
def nearest? (d : Decimal) : Option Magnitude :=
  Magnitude.ofRatio? (d.coefficient * Binary64.one) (tenTo d.places)

/-- The nearest binary64 number, infinite if the decimal is too large. -/
def toBinary64 (d : Decimal) : Binary64 :=
  Binary64.ofRatio .positive (d.coefficient * Binary64.one) (tenTo d.places)

/-- The number is zero exactly if no digit but zeros is written. -/
def isZero (d : Decimal) : Bool := d.coefficient == 0

end Decimal

/-! ## A magnitude rounded to decimal places

The decimal with a given number of places that is nearest to the exact magnitude, a tie going to the
even last digit.
-/

namespace Decimal

/-- The magnitude rounded to this many places. No magnitude has more than 1074 places, so further
ones could only hold zeros and are left out. -/
def rounded (m : Magnitude) (places : Nat) : Decimal :=
  let kept := min places 1074
  ⟨roundDiv (m.units * tenTo kept) Binary64.one, kept⟩

end Decimal

/-! ## Numerals

A numeral is one or more ASCII digits, which a point and further digits may follow, or a point with
one or more digits after it: `3`, `3.`, `2.75`, `.5`. There is no sign and no exponent.
`longestNumeral` finds the longest one at the start of a text.
-/

/-- The longest numeral that the text starts with; empty if there is none. -/
def longestNumeral (text : List Char) : List Char :=
  let whole := text.takeWhile Char.isDigit
  match whole, text.dropWhile Char.isDigit with
  | [], '.' :: rest =>
    match rest.takeWhile Char.isDigit with
    | [] => []
    | fraction => '.' :: fraction
  | [], _ => []
  | _, '.' :: rest => whole ++ '.' :: rest.takeWhile Char.isDigit
  | _, _ => whole

/-- The number that a numeral stands for. -/
def Decimal.ofNumeral (numeral : List Char) : Decimal :=
  let whole := numeral.takeWhile Char.isDigit
  let fraction := (numeral.dropWhile Char.isDigit).drop 1
  ⟨Nat.ofDigitChars 10 (whole ++ fraction) 0, fraction.length⟩

/-! ## The shortest decimal of a magnitude

Among the decimals that read back as a magnitude, the one on the coarsest decimal grid is the
shortest. On each grid only the two neighbours of the magnitude are tried: the nearer one that reads
back is taken, and of two equally near ones the upper. Every magnitude is a whole number of
`10 ^ -1074`, so the search ends there at the latest (`Decimal.shortest`).
-/

namespace Decimal

/-- The magnitude in steps of `10 ^ -1074`: `2 ^ -1074` is `5 ^ 1074` of them. -/
def finestSteps (m : Magnitude) : Nat := m.units * fiveTo 1074

/-- The decimal `n * 10 ^ grid`, in steps of `10 ^ -1074`. -/
def ofGrid (grid n : Nat) : Decimal :=
  if grid ≤ 1074 then ⟨n, 1074 - grid⟩ else ⟨n * tenTo (grid - 1074), 0⟩

/-- The neighbour of the magnitude on the grid of width `10 ^ grid` that reads back as it. -/
def readingBackOn (m : Magnitude) (grid : Nat) : Option Decimal :=
  let exact := finestSteps m
  let width := tenTo grid
  let below := ofGrid grid (exact / width)
  let above := ofGrid grid (exact / width + 1)
  if below.nearest? = some m then
    if above.nearest? = some m ∧ width ≤ 2 * (exact % width) then some above else some below
  else if above.nearest? = some m then some above
  else none

/-- The first decimal that reads back, from the given grid down to the finest. -/
def shortestFrom (m : Magnitude) : Nat → Decimal
  | 0 => ofGrid 0 (finestSteps m)
  | grid + 1 => (readingBackOn m (grid + 1)).getD (shortestFrom m grid)

/-- The shortest decimal that reads back as the magnitude, the nearest one of that length. -/
def shortest (m : Magnitude) : Decimal :=
  shortestFrom m (Nat.toDigits 10 (finestSteps m)).length

end Decimal

end PowerRule
