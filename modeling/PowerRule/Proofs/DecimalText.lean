import Mathlib.Tactic.Lemma
import PowerRule.Expression
import PowerRule.Format
import PowerRule.Proofs.Numeral
import PowerRule.Proofs.Rounding

/-!
# Decimals as text

Writing a decimal and reading it again keeps its value. `Decimal.ofNumeral_text` says which decimal
the text stands for, `Decimal.coefficient?_text` that the text reads as the nearest magnitude.
`Decimal.nearest?_shortest` is the law of the shortest decimal: it reads back. A decimal that is
rounded to any number of places still reads as a magnitude (`Decimal.nearest?_rounded_isSome`).
-/

namespace PowerRule

namespace Decimal

/-! ## Value -/

/-- The decimal stands for the natural number. -/
def Denotes (d : Decimal) (n : Nat) : Prop := d.coefficient = n * tenTo d.places

/-- The nearest magnitude depends on the value only. -/
lemma nearest?_congr {d e : Decimal}
    (h : d.coefficient * tenTo e.places = e.coefficient * tenTo d.places) :
    d.nearest? = e.nearest? := by
  apply Magnitude.ofRatio?_congr (tenTo_pos _) (tenTo_pos _)
  rw [Nat.mul_right_comm, h, Nat.mul_right_comm]

/-- Leaving out zeros keeps the value. -/
lemma trim_value (coefficient places : Nat) :
    (trim coefficient places).coefficient * tenTo places =
      coefficient * tenTo (trim coefficient places).places := by
  induction places generalizing coefficient with
  | zero => rfl
  | succ places ih =>
    unfold trim
    split
    · rename_i hzero
      have hcoeff : coefficient = coefficient / 10 * 10 := by omega
      conv => rhs; arg 1; rw [hcoeff]
      rw [tenTo_add, ← Nat.mul_assoc, ih, Nat.mul_right_comm]
      rfl
    · rfl

/-- Zero is written without places. -/
lemma trim_zero (places : Nat) : trim 0 places = ⟨0, 0⟩ := by
  induction places with
  | zero => rfl
  | succ places ih => simpa [trim] using ih

/-- Zeros at the end do not change what is nearest. -/
lemma nearest?_trim (d : Decimal) : (trim d.coefficient d.places).nearest? = d.nearest? :=
  nearest?_congr (trim_value d.coefficient d.places)

/-! ## Digits -/

/-- Places are written in digits. -/
lemma digits_fractionDigits (places n : Nat) : Digits (fractionDigits places n) :=
  (Digits.replicate_zero _).append (Digits.toDigits n)

/-- There are as many digits as places. -/
lemma length_fractionDigits {places n : Nat} (hp : 0 < places) (hn : n < tenTo places) :
    (fractionDigits places n).length = places := by
  have hlen : (Nat.toDigits 10 n).length ≤ places :=
    (Nat.length_toDigits_le_iff (by decide) hp).mpr hn
  simp only [fractionDigits, List.length_leftpad]
  omega

/-- Read after others, the digits of places add to what was read. -/
lemma ofDigitChars_fractionDigits (places n init : Nat) (hp : 0 < places)
    (hn : n < tenTo places) :
    Nat.ofDigitChars 10 (fractionDigits places n) init = init * tenTo places + n := by
  rw [Nat.ofDigitChars_eq_ofDigitChars_zero, length_fractionDigits hp hn]
  have hvalue : Nat.ofDigitChars 10 (fractionDigits places n) 0 = n := by
    rw [fractionDigits, List.leftpad, Nat.ofDigitChars_append, Nat.ofDigitChars_replicate_zero,
      Nat.mul_zero, Nat.ofDigitChars_ten_toDigits]
  rw [hvalue, Nat.mul_comm]
  rfl

/-- The number that digits without a point stand for. -/
lemma ofNumeral_digits {digits : List Char} (h : Digits digits) :
    ofNumeral digits = ⟨Nat.ofDigitChars 10 digits 0, 0⟩ := by
  simp [ofNumeral, h.takeWhile_eq, h.dropWhile_eq]

/-- Digits are read as the number that they are. -/
lemma ofNumeral_toDigits (n : Nat) : ofNumeral (Nat.toDigits 10 n) = ⟨n, 0⟩ := by
  rw [ofNumeral_digits (Digits.toDigits n), Nat.ofDigitChars_ten_toDigits]

/-- The number that digits with a point stand for. -/
lemma ofNumeral_pointed {whole : List Char} (h : Digits whole) (fraction : List Char) :
    ofNumeral (whole ++ '.' :: fraction) =
      ⟨Nat.ofDigitChars 10 (whole ++ fraction) 0, fraction.length⟩ := by
  have htake : (whole ++ '.' :: fraction).takeWhile Char.isDigit = whole := by
    rw [h.takeWhile_append]
    simp
  have hdrop : (whole ++ '.' :: fraction).dropWhile Char.isDigit = '.' :: fraction := by
    rw [h.dropWhile_append]
    simp
  simp only [ofNumeral, htake, hdrop, List.drop_succ_cons, List.drop_zero]

/-- The number that digits after a point stand for. -/
lemma ofNumeral_fraction (fraction : List Char) :
    ofNumeral ('.' :: fraction) = ⟨Nat.ofDigitChars 10 fraction 0, fraction.length⟩ :=
  ofNumeral_pointed Digits.nil fraction

/-! ## Writing and reading -/

/-- The text of a decimal is a numeral. -/
lemma numeral_text (d : Decimal) : Numeral d.text := by
  unfold text
  dsimp only
  split
  · exact .whole Nat.toDigits_ne_nil (Digits.toDigits _)
  · exact .pointed Nat.toDigits_ne_nil (Digits.toDigits _) (digits_fractionDigits _ _)

/-- The text of a decimal stands for it, with as few places as possible. -/
lemma ofNumeral_text (d : Decimal) : ofNumeral d.text = trim d.coefficient d.places := by
  unfold text
  generalize trim d.coefficient d.places = t
  obtain ⟨coefficient, places⟩ := t
  dsimp only
  split
  · rename_i hz
    rw [ofNumeral_toDigits, hz]
  · rename_i hz
    have hp : 0 < places := Nat.pos_iff_ne_zero.mpr hz
    have hlt : coefficient % tenTo places < tenTo places := Nat.mod_lt _ (tenTo_pos _)
    rw [ofNumeral_pointed (Digits.toDigits _), Nat.ofDigitChars_append,
      Nat.ofDigitChars_ten_toDigits, ofDigitChars_fractionDigits _ _ _ hp hlt,
      length_fractionDigits hp hlt, Nat.div_add_mod']

/-- The text of a decimal reads as the magnitude nearest to it. -/
lemma coefficient?_text (d : Decimal) : coefficient? d.text = d.nearest? := by
  rw [coefficient?, (numeral_text d).ofText?_eq, ofNumeral_text, Option.bind_some, nearest?_trim]

/-- Zero is written as one digit, whatever its places. -/
lemma text_of_isZero {d : Decimal} (h : d.isZero = true) : d.text = ['0'] := by
  have hz : d.coefficient = 0 := beq_iff_eq.mp h
  simp [text, hz, trim_zero, Nat.toDigits_zero]

/-! ## The shortest decimal -/

/-- The magnitude is a whole number of the finest steps. -/
lemma nearest?_ofGrid_zero (m : Magnitude) : (ofGrid 0 (finestSteps m)).nearest? = some m := by
  apply Magnitude.ofRatio?_of_eq_mul (tenTo_pos _)
  have hgrid : ofGrid 0 (finestSteps m) = ⟨finestSteps m, 1074⟩ := by
    rw [ofGrid, if_pos (by decide)]
  rw [hgrid, finestSteps, Binary64.one, Nat.mul_assoc, fiveTo_mul_twoTo]

/-- What is taken on a grid lies on it and reads back. -/
lemma readingBackOn_eq_some {m : Magnitude} {grid : Nat} {d : Decimal}
    (h : readingBackOn m grid = some d) :
    (∃ n, d = ofGrid grid n) ∧ d.nearest? = some m := by
  unfold readingBackOn at h
  dsimp only at h
  split at h
  · rename_i hbelow
    split at h
    · rename_i habove
      cases h
      exact ⟨⟨_, rfl⟩, habove.1⟩
    · cases h
      exact ⟨⟨_, rfl⟩, hbelow⟩
  · split at h
    · rename_i habove
      cases h
      exact ⟨⟨_, rfl⟩, habove⟩
    · cases h

/-- The shortest decimal that is looked for is read as the magnitude. -/
lemma nearest?_shortestFrom (m : Magnitude) (grid : Nat) :
    (shortestFrom m grid).nearest? = some m := by
  induction grid with
  | zero =>
    rw [shortestFrom]
    exact nearest?_ofGrid_zero m
  | succ grid ih =>
    rw [shortestFrom]
    cases h : readingBackOn m (grid + 1) with
    | none => exact ih
    | some d => exact (readingBackOn_eq_some h).2

/-- The shortest decimal of a magnitude reads back as it. -/
theorem nearest?_shortest (m : Magnitude) : (shortest m).nearest? = some m := by
  unfold shortest
  exact nearest?_shortestFrom m _

/-! ## Rounded decimals -/

/-- A rounded decimal is less than one above the magnitude. -/
lemma rounded_le (m : Magnitude) (places : Nat) :
    (rounded m places).coefficient * Binary64.one ≤
      (m.units + Binary64.one) * tenTo (rounded m places).places := by
  simp only [rounded]
  generalize min places 1074 = kept
  have hup := roundDiv_le (m.units * tenTo kept) Binary64.one
  calc roundDiv (m.units * tenTo kept) Binary64.one * Binary64.one
      ≤ (m.units * tenTo kept / Binary64.one + 1) * Binary64.one := Nat.mul_le_mul_right _ hup
    _ = m.units * tenTo kept / Binary64.one * Binary64.one + Binary64.one := Nat.succ_mul _ _
    _ ≤ m.units * tenTo kept + Binary64.one :=
        Nat.add_le_add_right (Nat.div_mul_le_self _ _) _
    _ ≤ m.units * tenTo kept + Binary64.one * tenTo kept :=
        Nat.add_le_add_left (Nat.le_mul_of_pos_right _ (tenTo_pos kept)) _
    _ = (m.units + Binary64.one) * tenTo kept := (Nat.add_mul _ _ _).symm

/-- A magnitude that is a whole number is not changed by rounding to places. -/
lemma nearest?_rounded_of_dvd {m : Magnitude} (h : Binary64.one ∣ m.units) (places : Nat) :
    (rounded m places).nearest? = some m := by
  obtain ⟨n, hn⟩ := h
  apply Magnitude.ofRatio?_of_eq_mul (tenTo_pos _)
  simp only [rounded]
  generalize min places 1074 = kept
  have hmul : m.units * tenTo kept = n * tenTo kept * Binary64.one := by
    rw [hn, Nat.mul_comm Binary64.one n, Nat.mul_right_comm]
  rw [hmul, roundDiv_mul Binary64.one_pos]

/-- Large magnitudes are whole numbers. -/
lemma one_dvd_of_large {m : Magnitude} (h : twoTo 1126 ≤ m.units) : Binary64.one ∣ m.units := by
  have hne : m.units ≠ 0 := by
    have := twoTo_pos 1126
    omega
  have hlog := (le_log2_iff hne).mpr h
  have hspacing : 1074 ≤ Binary64.spacingLog m.units := by
    unfold Binary64.spacingLog
    omega
  exact Nat.dvd_trans (twoTo_dvd hspacing) m.representable.spaced

/-- A decimal that is rounded to places is not too large for a magnitude. -/
theorem nearest?_rounded_isSome (m : Magnitude) (places : Nat) :
    (rounded m places).nearest?.isSome := by
  rcases Nat.lt_or_ge m.units (twoTo 1126) with hsmall | hlarge
  · -- The next power of two is a magnitude, so the rounding cannot pass it.
    apply Magnitude.ofRatio?_isSome
    have hone : Binary64.one ≤ twoTo 1126 := twoTo_le (by decide)
    have htwo : twoTo 1127 = twoTo 1126 * 2 := twoTo_succ 1126
    have hself : Binary64.roundUnits (twoTo 1127) 1 = twoTo 1127 := by
      apply Binary64.roundUnits_self
      have h := Binary64.spacing_dvd_mul_twoTo (m := 1) (by decide) 1127
      rwa [Nat.one_mul] at h
    have hmono : Binary64.roundUnits ((rounded m places).coefficient * Binary64.one)
        (tenTo (rounded m places).places) ≤ Binary64.roundUnits (twoTo 1127) 1 := by
      apply Binary64.roundUnits_mono (tenTo_pos _) Nat.one_pos
      rw [Nat.mul_one]
      refine Nat.le_trans (rounded_le m places) (Nat.mul_le_mul_right _ ?_)
      omega
    rw [hself] at hmono
    exact Nat.lt_of_le_of_lt hmono (twoTo_lt (by decide))
  · rw [nearest?_rounded_of_dvd (one_dvd_of_large hlarge)]
    rfl

end Decimal

/-! ## Numbers -/

namespace Decimal

/-- The shortest decimal of zero is zero. -/
lemma isZero_shortest_zero : (shortest .zero).isZero = true := by decide +kernel

/-- Zero is written with the decimal zero, to any number of places. -/
lemma isZero_ofMagnitude {m : Magnitude} (h : m.units = 0) (precision : Option Nat) :
    (ofMagnitude precision m).isZero = true := by
  cases precision with
  | none =>
    rw [Magnitude.ext (b := .zero) h]
    exact isZero_shortest_zero
  | some places => simp [ofMagnitude, rounded, isZero, h, roundDiv]

end Decimal

/-- The text of a magnitude reads as the magnitude nearest to its decimal. -/
lemma formatNumber_positive (precision : Option Nat) (m : Magnitude) :
    formatNumber precision (.finite .positive m) = (Decimal.ofMagnitude precision m).text := by
  unfold formatNumber
  dsimp only
  split
  · rename_i hz
    exact (Decimal.text_of_isZero hz).symm
  · rfl

/-- A magnitude is written as a decimal below the limit. -/
lemma nearest?_ofMagnitude_isSome (precision : Option Nat) (m : Magnitude) :
    (Decimal.ofMagnitude precision m).nearest?.isSome := by
  cases precision with
  | none =>
    show (Decimal.shortest m).nearest?.isSome
    rw [Decimal.nearest?_shortest]
    rfl
  | some places => exact Decimal.nearest?_rounded_isSome m places

end PowerRule
