import Mathlib.Algebra.Order.Field.Rat
import Mathlib.Data.Nat.Cast.Order.Field
import Mathlib.Tactic.FieldSimp
import Mathlib.Tactic.Lemma
import Mathlib.Tactic.Linarith
import Mathlib.Tactic.Positivity
import Mathlib.Tactic.Ring
import PowerRule.Decimal
import PowerRule.Proofs.Rounding

/-!
# The nearest magnitude

`RoundsTo` says which magnitude a number is rounded to, without a computation: no magnitude is
nearer, of two that are equally near it is the one with the even significand, and from halfway
between the largest magnitude and the bound on there is none. There is at most one
(`RoundsTo.unique`), and reading a decimal finds it (`Decimal.nearest?_eq_some_iff`).
-/

namespace PowerRule

/-- A power of two is the same among rational numbers. -/
lemma cast_twoTo (n : Nat) : ((twoTo n : Nat) : ℚ) = 2 ^ n := Nat.cast_pow 2 n

/-- So is a power of ten. -/
lemma cast_tenTo (n : Nat) : ((tenTo n : Nat) : ℚ) = 10 ^ n := Nat.cast_pow 10 n

/-- Powers of two but the first are even. -/
lemma two_dvd_twoTo_succ (n : Nat) : 2 ∣ twoTo (n + 1) := by
  rw [twoTo_succ]
  exact Nat.dvd_mul_left 2 _

attribute [local irreducible] twoTo tenTo

/-! ## The nearest whole number -/

section

variable {num den : Nat}

/-- A quotient is its floor and a remainder. -/
lemma quotient_eq (hden : 0 < den) :
    (num : ℚ) / den = ((num / den : Nat) : ℚ) + ((num % den : Nat) : ℚ) / den := by
  have hpos : (0 : ℚ) < den := Nat.cast_pos.mpr hden
  have hdivmod : ((den * (num / den) + num % den : Nat) : ℚ) = num := by
    rw [Nat.div_add_mod]
  push_cast at hdivmod
  field_simp
  linarith

/-- A fraction is less than a half if twice its numerator is less than its denominator. -/
lemma div_lt_half_iff (num : Nat) (hden : 0 < den) : (num : ℚ) / den < 1 / 2 ↔ 2 * num < den := by
  have hpos : (0 : ℚ) < den := Nat.cast_pos.mpr hden
  rw [div_lt_div_iff₀ hpos two_pos, one_mul, mul_comm]
  exact_mod_cast Iff.rfl

/-- It is more than a half if twice its numerator is more. -/
lemma half_lt_div_iff (num : Nat) (hden : 0 < den) : 1 / 2 < (num : ℚ) / den ↔ den < 2 * num := by
  have hpos : (0 : ℚ) < den := Nat.cast_pos.mpr hden
  rw [div_lt_div_iff₀ two_pos hpos, one_mul, mul_comm]
  exact_mod_cast Iff.rfl

/-- Rounding changes a quotient by a half at most, and by a half only to an even number. -/
lemma roundDiv_error (num : Nat) (hden : 0 < den) :
    |(roundDiv num den : ℚ) - num / den| ≤ 1 / 2 ∧
      (|(roundDiv num den : ℚ) - num / den| = 1 / 2 → 2 ∣ roundDiv num den) := by
  have hbelow := div_lt_half_iff (num % den) hden
  have habove := half_lt_div_iff (num % den) hden
  have hone : ((num % den : Nat) : ℚ) / den < 1 := by
    rw [div_lt_one (Nat.cast_pos.mpr hden)]
    exact Nat.cast_lt.mpr (Nat.mod_lt num hden)
  have hnonneg : 0 ≤ ((num % den : Nat) : ℚ) / den := by positivity
  rw [quotient_eq hden, roundDiv]
  generalize num / den = floor
  generalize ((num % den : Nat) : ℚ) / den = part at hbelow habove hone hnonneg ⊢
  generalize num % den = rest at hbelow habove ⊢
  -- The three cases of the rounding: the part after the floor is below, above or at a half.
  split
  · rename_i h
    have hpart := hbelow.mpr h
    rw [sub_add_cancel_left, abs_neg, abs_of_nonneg hnonneg]
    exact ⟨le_of_lt hpart, fun heq => absurd heq (ne_of_lt hpart)⟩
  · split
    · rename_i h
      have hpart := habove.mpr h
      have herror : ((floor + 1 : Nat) : ℚ) - (floor + part) = 1 - part := by
        rw [Nat.cast_add, add_sub_add_left_eq_sub, Nat.cast_one]
      rw [herror, abs_of_pos (by linarith)]
      exact ⟨by linarith, fun heq => absurd heq (by linarith)⟩
    · rename_i hnotBelow hnotAbove
      have hpart : part = 1 / 2 :=
        le_antisymm (not_lt.mp (mt habove.mp hnotAbove)) (not_lt.mp (mt hbelow.mp hnotBelow))
      have heven : 2 ∣ floor + floor % 2 := by omega
      refine ⟨?_, fun _ => heven⟩
      rcases Nat.mod_two_eq_zero_or_one floor with h | h
      · rw [h, hpart, Nat.add_zero, sub_add_cancel_left, abs_neg]
        exact le_of_eq (abs_of_pos one_half_pos)
      · rw [h, hpart, Nat.cast_add, add_sub_add_left_eq_sub, Nat.cast_one, sub_half]
        exact le_of_eq (abs_of_pos one_half_pos)

/-- Another whole number lies further from a quotient than a half, or at a half. -/
lemma half_le_of_ne {x : ℚ} {r k : Nat} (herror : |(r : ℚ) - x| ≤ 1 / 2) (hk : k ≠ r) :
    1 / 2 ≤ |(k : ℚ) - x| := by
  obtain ⟨hlow, hhigh⟩ := abs_le.mp herror
  rcases Nat.lt_or_gt_of_ne hk with hlt | hgt
  · have hone : (k : ℚ) + 1 ≤ r := by exact_mod_cast hlt
    rw [abs_sub_comm]
    exact le_trans (by linarith) (le_abs_self _)
  · have hone : (r : ℚ) + 1 ≤ k := by exact_mod_cast hgt
    exact le_trans (by linarith) (le_abs_self _)

/-- No whole number is closer to a quotient than the rounded one. -/
lemma roundDiv_nearest (hden : 0 < den) (k : Nat) :
    |(roundDiv num den : ℚ) - num / den| ≤ |(k : ℚ) - num / den| := by
  obtain ⟨herror, _⟩ := roundDiv_error num hden
  by_cases hk : k = roundDiv num den
  · rw [hk]
  · exact le_trans herror (half_le_of_ne herror hk)

/-- If another one is as close, the rounded one is even. -/
lemma even_roundDiv_of_tie (hden : 0 < den) {k : Nat} (hk : k ≠ roundDiv num den)
    (htie : |(k : ℚ) - num / den| = |(roundDiv num den : ℚ) - num / den|) :
    2 ∣ roundDiv num den := by
  obtain ⟨herror, heven⟩ := roundDiv_error num hden
  exact heven (le_antisymm herror (htie ▸ half_le_of_ne herror hk))

end

/-! ## Digits and their places -/

namespace Binary64

/-- Above the lowest spacing there are 53 binary digits. -/
lemma spacingLog_eq_zero_or (units : Nat) :
    spacingLog units = 0 ∨ twoTo 52 * spacing units ≤ units := by
  by_cases h : units.log2 ≤ 52
  · exact .inl (Nat.sub_eq_zero_of_le h)
  · have hlog : 52 + spacingLog units = units.log2 := by
      unfold spacingLog
      omega
    have hne : units ≠ 0 := by
      rintro rfl
      exact h (by decide)
    rw [spacing, ← twoTo_add, hlog]
    exact .inr ((le_log2_iff hne).mp (Nat.le_refl _))

/-- Digits that fill the lowest place, or all places above it, have the spacing of their place. -/
lemma spacing_digits {digits e : Nat} (hlt : digits < twoTo 53) (h : e = 0 ∨ twoTo 52 ≤ digits) :
    spacing (digits * twoTo e) = twoTo e := by
  rcases Nat.eq_zero_or_pos digits with hz | hpos
  · rcases h with rfl | hle
    · rw [hz, Nat.zero_mul]
      rfl
    · rw [hz] at hle
      exact absurd hle (Nat.not_le_of_lt (twoTo_pos 52))
  have hne : digits * twoTo e ≠ 0 :=
    Nat.mul_ne_zero (Nat.pos_iff_ne_zero.mp hpos) (twoTo_ne_zero e)
  have hbelow : (digits * twoTo e).log2 < 53 + e := by
    rw [log2_lt_iff hne, twoTo_add]
    exact Nat.mul_lt_mul_of_pos_right hlt (twoTo_pos e)
  have hlog : spacingLog (digits * twoTo e) = e := by
    unfold spacingLog
    rcases h with rfl | hle
    · omega
    · have habove : 52 + e ≤ (digits * twoTo e).log2 := by
        rw [le_log2_iff hne, twoTo_add]
        exact Nat.mul_le_mul_right _ hle
      omega
  rw [spacing, hlog]

end Binary64

namespace Magnitude

/-- The magnitude in units of its spacing: its 53 binary digits. -/
def significand (m : Magnitude) : Nat := m.units / Binary64.spacing m.units

/-- A magnitude is its significand times the spacing. -/
lemma significand_mul (m : Magnitude) :
    m.significand * Binary64.spacing m.units = m.units :=
  Nat.div_mul_cancel m.representable.spaced

/-- A significand has 53 bits. -/
lemma significand_lt (m : Magnitude) : m.significand < twoTo 53 := by
  rw [significand, Nat.div_lt_iff_lt_mul (Binary64.spacing_pos _), Binary64.spacing, ← twoTo_add]
  exact Binary64.lt_twoTo_spacingLog _

/-- The spacing is the least one, or the significand has all its bits. -/
lemma spacingLog_eq_zero_or (m : Magnitude) :
    Binary64.spacingLog m.units = 0 ∨ twoTo 52 ≤ m.significand := by
  rcases Binary64.spacingLog_eq_zero_or m.units with hzero | hle
  · exact .inl hzero
  · exact .inr ((Nat.le_div_iff_mul_le (Binary64.spacing_pos _)).mpr hle)

/-- A number of digits in the range of significands is the significand. -/
lemma significand_eq {m : Magnitude} {digits e : Nat} (hm : m.units = digits * twoTo e)
    (hlt : digits < twoTo 53) (h : e = 0 ∨ twoTo 52 ≤ digits) :
    m.significand = digits := by
  rw [significand, hm, Binary64.spacing_digits hlt h]
  exact Nat.mul_div_cancel _ (twoTo_pos e)

/-- A carry into the next binade leaves the significand at its least. -/
lemma significand_eq_of_carry {m : Magnitude} {e : Nat} (hm : m.units = twoTo 53 * twoTo e) :
    m.significand = twoTo 52 := by
  apply significand_eq (e := e + 1)
  · rw [hm, twoTo_succ 52, twoTo_succ e, Nat.mul_assoc, Nat.mul_comm 2]
  · exact twoTo_lt (by decide)
  · exact .inr (Nat.le_refl _)

/-- If the digits are even, so is the significand. -/
lemma even_significand {m : Magnitude} {digits e : Nat} (hm : m.units = digits * twoTo e)
    (hle : digits ≤ twoTo 53) (h : e = 0 ∨ twoTo 52 ≤ digits) (heven : 2 ∣ digits) :
    2 ∣ m.significand := by
  rcases Nat.lt_or_eq_of_le hle with hlt | heq
  · rw [significand_eq hm hlt h]
    exact heven
  · rw [heq] at hm
    rw [significand_eq_of_carry hm]
    exact two_dvd_twoTo_succ 51

/-- Below another magnitude there is a next one. -/
lemma exists_next {m n : Magnitude} (h : m.units < n.units) :
    ∃ p : Magnitude, p.units = (m.significand + 1) * Binary64.spacing m.units ∧
      m.units < p.units ∧ p.units ≤ n.units := by
  have hdvd : Binary64.spacing m.units ∣ n.units :=
    Nat.dvd_trans (twoTo_dvd (Binary64.spacingLog_mono (Nat.le_of_lt h))) n.representable.spaced
  obtain ⟨k, hk⟩ := hdvd
  have hm := m.significand_mul
  have hpos := Binary64.spacing_pos m.units
  have hlt : m.significand < k := by
    apply Nat.lt_of_mul_lt_mul_right (a := Binary64.spacing m.units)
    rw [hm, Nat.mul_comm k, ← hk]
    exact h
  have hle : (m.significand + 1) * Binary64.spacing m.units ≤ n.units := by
    rw [hk, Nat.mul_comm _ k]
    exact Nat.mul_le_mul_right _ hlt
  refine ⟨⟨(m.significand + 1) * Binary64.spacing m.units, ?_, ?_⟩, rfl, ?_, hle⟩
  · exact Binary64.spacing_dvd_mul_twoTo m.significand_lt _
  · exact Nat.lt_of_le_of_lt hle n.representable.bounded
  · dsimp only
    rw [Nat.succ_mul, hm]
    exact Nat.lt_add_of_pos_right hpos

/-- After an even magnitude comes an odd one. -/
lemma odd_next {m p : Magnitude} (hm : 2 ∣ m.significand)
    (hp : p.units = (m.significand + 1) * Binary64.spacing m.units) :
    ¬2 ∣ p.significand := by
  have hlt : m.significand + 1 < twoTo 53 := by
    have heven : 2 ∣ twoTo 53 := two_dvd_twoTo_succ 52
    have := m.significand_lt
    omega
  have hsignificand : p.significand = m.significand + 1 := by
    apply significand_eq hp hlt
    rcases m.spacingLog_eq_zero_or with hzero | hle
    · exact .inl hzero
    · exact .inr (Nat.le_succ_of_le hle)
  rw [hsignificand]
  omega

end Magnitude

/-! ## The nearest magnitude -/

section

variable {num den : Nat}

/-- Distances from a quotient, in units of its spacing. -/
lemma abs_multiple_sub (hden : 0 < den) {step : Nat} (hstep : 0 < step) (k : Nat) :
    |((k * step : Nat) : ℚ) - num / den| = step * |(k : ℚ) - num / (den * step : Nat)| := by
  have hden' : (den : ℚ) ≠ 0 := Nat.cast_ne_zero.mpr (Nat.pos_iff_ne_zero.mp hden)
  have hstep' : (0 : ℚ) < step := Nat.cast_pos.mpr hstep
  have hscale : ((k * step : Nat) : ℚ) - num / den =
      step * ((k : ℚ) - num / (den * step : Nat)) := by
    push_cast
    field_simp
  rw [hscale, abs_mul, abs_of_pos hstep']

/-- A magnitude lies on the spacing of the quotient, or is further from it than a number that does.
-/
lemma multiple_or_farther (n : Magnitude) :
    (∃ k, n.units = k * Binary64.spacing (num / den)) ∨
      |((twoTo 52 * Binary64.spacing (num / den) : Nat) : ℚ) - num / den| <
        |(n.units : ℚ) - num / den| := by
  by_cases hlog : Binary64.spacingLog (num / den) ≤ Binary64.spacingLog n.units
  · obtain ⟨k, hk⟩ := Nat.dvd_trans (twoTo_dvd hlog) n.representable.spaced
    exact .inl ⟨k, by rw [hk, Nat.mul_comm]; rfl⟩
  · -- The magnitude lies below the binade of the quotient.
    have hbinade : twoTo 52 * Binary64.spacing (num / den) ≤ num / den := by
      rcases Binary64.spacingLog_eq_zero_or (num / den) with hzero | hle
      · omega
      · exact hle
    have hbelow : n.units < twoTo 52 * Binary64.spacing (num / den) := by
      apply Nat.lt_of_lt_of_le (Binary64.lt_twoTo_spacingLog n.units)
      rw [Binary64.spacing, ← twoTo_add]
      exact twoTo_le (by omega)
    have hquotient : ((twoTo 52 * Binary64.spacing (num / den) : Nat) : ℚ) ≤ num / den :=
      le_trans (Nat.cast_le.mpr hbinade) Nat.cast_div_le
    have hbelow' : (n.units : ℚ) < (twoTo 52 * Binary64.spacing (num / den) : Nat) :=
      Nat.cast_lt.mpr hbelow
    rw [abs_of_nonpos (by linarith), abs_of_neg (by linarith)]
    exact .inr (by linarith)

variable {m : Magnitude}

/-- What a quotient is rounded to: digits that fill the binade of the quotient, at its place. -/
lemma units_eq_of_ofRatio? (h : Magnitude.ofRatio? num den = some m) :
    ∃ digits, digits = roundDiv num (den * Binary64.spacing (num / den)) ∧
      m.units = digits * Binary64.spacing (num / den) ∧ digits ≤ twoTo 53 ∧
      (Binary64.spacingLog (num / den) = 0 ∨ twoTo 52 ≤ digits) := by
  refine ⟨_, rfl, Magnitude.units_of_ofRatio? h, Binary64.roundDiv_spacing_le num den, ?_⟩
  rcases Binary64.spacingLog_eq_zero_or (num / den) with hzero | hle
  · exact .inl hzero
  · right
    calc twoTo 52 ≤ num / den / Binary64.spacing (num / den) :=
          (Nat.le_div_iff_mul_le (Binary64.spacing_pos _)).mpr hle
      _ = num / (den * Binary64.spacing (num / den)) := Nat.div_div_eq_div_mul _ _ _
      _ ≤ roundDiv num (den * Binary64.spacing (num / den)) := le_roundDiv _ _

/-- No number on the spacing is nearer. -/
lemma nearest_multiple (hden : 0 < den) (h : Magnitude.ofRatio? num den = some m) (k : Nat) :
    |(m.units : ℚ) - num / den| ≤
      |((k * Binary64.spacing (num / den) : Nat) : ℚ) - num / den| := by
  obtain ⟨digits, hdigits, hunits, _⟩ := units_eq_of_ofRatio? h
  have hstep := Binary64.spacing_pos (num / den)
  rw [hunits, abs_multiple_sub hden hstep, abs_multiple_sub hden hstep, hdigits]
  apply mul_le_mul_of_nonneg_left _ (Nat.cast_nonneg _)
  exact roundDiv_nearest (Nat.mul_pos hden hstep) k

/-- No magnitude is closer to a quotient than the one that it is rounded to. -/
lemma nearest_units (hden : 0 < den) (h : Magnitude.ofRatio? num den = some m) (n : Magnitude) :
    |(m.units : ℚ) - num / den| ≤ |(n.units : ℚ) - num / den| := by
  rcases multiple_or_farther n with ⟨k, hk⟩ | hfar
  · rw [hk]
    exact nearest_multiple hden h k
  · exact le_trans (nearest_multiple hden h (twoTo 52)) (le_of_lt hfar)

/-- If another one is as close, the significand of this one is even. -/
lemma even_of_tie (hden : 0 < den) (h : Magnitude.ofRatio? num den = some m) {n : Magnitude}
    (hne : n ≠ m) (htie : |(n.units : ℚ) - num / den| = |(m.units : ℚ) - num / den|) :
    2 ∣ m.significand := by
  obtain ⟨digits, hdigits, hunits, hle, hfill⟩ := units_eq_of_ofRatio? h
  have hstep := Binary64.spacing_pos (num / den)
  rcases multiple_or_farther n with ⟨k, hk⟩ | hfar
  · have hk' : k ≠ digits := by
      rintro rfl
      exact hne (Magnitude.ext (hk.trans hunits.symm))
    rw [hk, hunits, abs_multiple_sub hden hstep, abs_multiple_sub hden hstep] at htie
    have htie' := mul_left_cancel₀ (Nat.cast_ne_zero.mpr (Nat.pos_iff_ne_zero.mp hstep)) htie
    rw [hdigits] at hk' htie'
    have heven := even_roundDiv_of_tie (Nat.mul_pos hden hstep) hk' htie'
    rw [← hdigits] at heven
    exact Magnitude.even_significand hunits hle hfill heven
  · have := nearest_multiple hden h (twoTo 52)
    linarith

end

/-! ## The end of the magnitudes -/

/-- Halfway between the largest magnitude and the bound, in units. -/
def limitUnits : Nat := twoTo 2098 - twoTo 2044

/-- The limit is an odd number of halves of the highest spacing. -/
lemma limitUnits_eq : limitUnits = (2 * twoTo 53 - 1) * twoTo 2044 := by
  rw [limitUnits, Nat.sub_mul, Nat.one_mul, Nat.mul_comm 2, ← twoTo_succ, ← twoTo_add]

/-- The limit lies below the bound on magnitudes. -/
lemma limitUnits_lt_bound : limitUnits < Binary64.bound :=
  Nat.sub_lt (twoTo_pos 2098) (twoTo_pos 2044)

/-- The spacing at the limit is that of the largest magnitudes. -/
lemma spacing_limitUnits : Binary64.spacing limitUnits = twoTo 2045 := by
  have hlow : twoTo 2097 ≤ limitUnits := by
    have hdouble : twoTo 2098 = twoTo 2097 * 2 := twoTo_succ 2097
    have hle : twoTo 2044 ≤ twoTo 2097 := twoTo_le (by decide)
    unfold limitUnits
    omega
  have hne : limitUnits ≠ 0 :=
    Nat.pos_iff_ne_zero.mp (Nat.lt_of_lt_of_le (twoTo_pos 2097) hlow)
  have hlog : limitUnits.log2 = 2097 := by
    have hge := (le_log2_iff hne).mpr hlow
    have hlt := (log2_lt_iff hne).mpr limitUnits_lt_bound
    omega
  rw [Binary64.spacing, Binary64.spacingLog, hlog]

/-- At the limit the tie goes to the bound. -/
lemma roundUnits_limitUnits : Binary64.roundUnits limitUnits 1 = Binary64.bound := by
  have hodd : roundDiv (2 * twoTo 53 - 1) 2 = twoTo 53 := by
    have heven : twoTo 53 = twoTo 52 * 2 := twoTo_succ 52
    have hpos := twoTo_pos 52
    unfold roundDiv
    dsimp only
    rw [if_neg (by omega), if_neg (by omega)]
    omega
  have hround : roundDiv limitUnits (twoTo 2045) = twoTo 53 := by
    rw [limitUnits_eq, twoTo_succ 2044, Nat.mul_comm _ 2, roundDiv_mul_right _ _ (twoTo_pos 2044),
      hodd]
  rw [Binary64.roundUnits, Nat.div_one, spacing_limitUnits, Nat.one_mul, hround, ← twoTo_add]
  rfl

/-- A quotient less than a half above a whole number is not rounded above it. -/
lemma roundDiv_le_of_lt {num den k : Nat} (hden : 0 < den) (h : 2 * num < (2 * k + 1) * den) :
    roundDiv num den ≤ k := by
  obtain ⟨herror, _⟩ := roundDiv_error num hden
  have hquotient : (num : ℚ) / den < k + 1 / 2 := by
    rw [div_lt_iff₀ (Nat.cast_pos.mpr hden)]
    have : ((2 * num : Nat) : ℚ) < ((2 * k + 1) * den : Nat) := Nat.cast_lt.mpr h
    push_cast at this
    linarith
  have hbelow : (roundDiv num den : ℚ) < (k + 1 : Nat) := by
    push_cast
    linarith [(abs_le.mp herror).2]
  exact Nat.lt_succ_iff.mp (Nat.cast_lt.mp hbelow)

/-- Exactly the quotients below the limit are rounded to a magnitude. -/
lemma roundUnits_lt_bound_iff {num den : Nat} (hden : 0 < den) :
    Binary64.roundUnits num den < Binary64.bound ↔ num < limitUnits * den := by
  constructor
  · intro h
    rw [← Nat.not_le]
    intro hle
    have hle' : limitUnits * den ≤ num * 1 := by rwa [Nat.mul_one]
    have hmono := Binary64.roundUnits_mono Nat.one_pos hden hle'
    rw [roundUnits_limitUnits] at hmono
    exact absurd h (Nat.not_lt_of_le hmono)
  · intro h
    have hfloor : num / den < Binary64.bound :=
      Nat.lt_trans ((Nat.div_lt_iff_lt_mul hden).mpr h) limitUnits_lt_bound
    have hlog : Binary64.spacingLog (num / den) ≤ 2045 := by
      rcases Nat.eq_zero_or_pos (num / den) with hz | hpos
      · rw [hz]
        decide
      · have := (log2_lt_iff (Nat.pos_iff_ne_zero.mp hpos)).mpr hfloor
        unfold Binary64.spacingLog
        omega
    rcases Nat.lt_or_eq_of_le hlog with hlt | heq
    · exact Nat.lt_of_le_of_lt (Binary64.roundUnits_le_twoTo num den) (twoTo_lt (by omega))
    · -- In the highest binade the digits stay below a carry.
      have hstep : Binary64.spacing (num / den) = twoTo 2044 * 2 := by
        rw [Binary64.spacing, heq, twoTo_succ]
      have hdigits : roundDiv num (den * Binary64.spacing (num / den)) ≤ twoTo 53 - 1 := by
        apply roundDiv_le_of_lt (Nat.mul_pos hden (Binary64.spacing_pos _))
        have hodd : 2 * (twoTo 53 - 1) + 1 = 2 * twoTo 53 - 1 := by
          have := twoTo_pos 53
          omega
        rw [hodd, hstep]
        calc 2 * num < 2 * (limitUnits * den) := Nat.mul_lt_mul_of_pos_left h Nat.two_pos
          _ = (2 * twoTo 53 - 1) * (den * (twoTo 2044 * 2)) := by
            rw [limitUnits_eq]
            ring
      have hcarry : roundDiv num (den * Binary64.spacing (num / den)) < twoTo 53 :=
        Nat.lt_of_le_of_lt hdigits (Nat.sub_lt (twoTo_pos 53) Nat.one_pos)
      have hbound : Binary64.bound = twoTo 53 * twoTo 2045 := by
        rw [← twoTo_add]
        rfl
      rw [Binary64.roundUnits, hbound, Binary64.spacing, heq]
      rw [Binary64.spacing, heq] at hcarry
      exact Nat.mul_lt_mul_of_pos_right hcarry (twoTo_pos 2045)

/-! ## Values -/

/-- The number that a magnitude is. -/
def Magnitude.value (m : Magnitude) : ℚ := m.units / 2 ^ 1074

/-- The number that a decimal is. -/
def Decimal.value (d : Decimal) : ℚ := d.coefficient / 10 ^ d.places

/-- The magnitude that a number is rounded to: the nearest one, in a tie the even one. From halfway
between the largest magnitude and the bound on there is none. -/
structure RoundsTo (q : ℚ) (m : Magnitude) : Prop where
  below : q < 2 ^ 1024 - 2 ^ 970
  nearest (n : Magnitude) : |m.value - q| ≤ |n.value - q|
  even (n : Magnitude) : n ≠ m → |n.value - q| = |m.value - q| → 2 ∣ m.significand

/-- Between two numbers at the same distance every number is nearer. -/
lemma abs_sub_lt_of_between {a b c q : ℚ} (hab : a < b) (hbc : b < c) (h : |a - q| = |c - q|) :
    |b - q| < |a - q| := by
  rcases abs_eq_abs.mp h with heq | heq
  · linarith
  · rw [abs_of_neg (show a - q < 0 by linarith), abs_lt]
    constructor
    · linarith
    · linarith

/-- A magnitude with more units has a larger value. -/
lemma Magnitude.value_lt_value {m n : Magnitude} (h : m.units < n.units) : m.value < n.value :=
  div_lt_div_of_pos_right (Nat.cast_lt.mpr h) (by positivity)

/-- A number is rounded to one magnitude at most. -/
theorem RoundsTo.unique {q : ℚ} {m n : Magnitude} (hm : RoundsTo q m) (hn : RoundsTo q n) :
    m = n := by
  by_contra hne
  wlog h : m.units < n.units generalizing m n
  · have hunits : m.units ≠ n.units := fun heq => hne (Magnitude.ext heq)
    exact this hn hm (Ne.symm hne) (by omega)
  have htie : |m.value - q| = |n.value - q| := le_antisymm (hm.nearest n) (hn.nearest m)
  have hmeven := hm.even n (Ne.symm hne) htie.symm
  have hneven := hn.even m hne htie
  obtain ⟨p, hp, hmp, hpn⟩ := Magnitude.exists_next h
  rcases Nat.lt_or_eq_of_le hpn with hlt | heq
  -- A magnitude between the two would be nearer than both.
  · have hnearer :=
      abs_sub_lt_of_between (Magnitude.value_lt_value hmp) (Magnitude.value_lt_value hlt) htie
    exact absurd (hm.nearest p) (not_le_of_gt hnearer)
  -- If there is none they are neighbours, and only one of them is even.
  · rw [← Magnitude.ext heq] at hneven
    exact Magnitude.odd_next hmeven hp hneven

namespace Decimal

/-- The decimal in units. -/
lemma value_eq (d : Decimal) :
    d.value = ((d.coefficient * Binary64.one : Nat) : ℚ) / (tenTo d.places : Nat) / 2 ^ 1074 := by
  rw [cast_tenTo, value, Binary64.one, Nat.cast_mul, cast_twoTo, div_right_comm,
    mul_div_cancel_right₀ _ (by positivity)]

/-- The distance between a magnitude and a decimal, in units. -/
lemma abs_value_sub (n : Magnitude) (d : Decimal) :
    |n.value - d.value| =
      |(n.units : ℚ) - (d.coefficient * Binary64.one : Nat) / (tenTo d.places : Nat)| /
        2 ^ 1074 := by
  have hpos : (0 : ℚ) < 2 ^ 1074 := by positivity
  rw [value_eq, Magnitude.value, ← sub_div, abs_div, abs_of_pos hpos]

/-- A decimal lies below the limit exactly if it does so in units. -/
lemma value_lt_limit_iff {d : Decimal} :
    d.value < 2 ^ 1024 - 2 ^ 970 ↔
      d.coefficient * Binary64.one < limitUnits * tenTo d.places := by
  have hlimit : ((2 : ℚ) ^ 1024 - 2 ^ 970) * 2 ^ 1074 = (limitUnits : Nat) := by
    rw [limitUnits, Nat.cast_sub (twoTo_le (by decide)), cast_twoTo, cast_twoTo, sub_mul,
      ← pow_add, ← pow_add]
  have hten : (0 : ℚ) < (tenTo d.places : Nat) := Nat.cast_pos.mpr (tenTo_pos d.places)
  rw [value_eq, div_lt_iff₀ (by positivity), hlimit, div_lt_iff₀ hten]
  exact_mod_cast Iff.rfl

/-- A decimal below the limit is read as some magnitude. -/
lemma exists_nearest? {d : Decimal} (h : d.value < 2 ^ 1024 - 2 ^ 970) :
    ∃ m, d.nearest? = some m := by
  rw [value_lt_limit_iff, ← roundUnits_lt_bound_iff (tenTo_pos d.places)] at h
  exact Option.isSome_iff_exists.mp (Magnitude.ofRatio?_isSome h)

/-- What a decimal is read as is what it is rounded to. -/
lemma roundsTo_of_nearest? {d : Decimal} {m : Magnitude} (h : d.nearest? = some m) :
    RoundsTo d.value m where
  below := by
    rw [value_lt_limit_iff, ← roundUnits_lt_bound_iff (tenTo_pos d.places),
      ← Magnitude.units_of_ofRatio? h]
    exact m.representable.bounded
  nearest n := by
    rw [abs_value_sub, abs_value_sub, div_le_div_iff_of_pos_right (by positivity)]
    exact nearest_units (tenTo_pos d.places) h n
  even n hne htie := by
    rw [abs_value_sub, abs_value_sub, div_left_inj' (by positivity)] at htie
    exact even_of_tie (tenTo_pos d.places) h hne htie

/-- Reading a decimal is correctly rounded. -/
theorem nearest?_eq_some_iff {d : Decimal} {m : Magnitude} :
    d.nearest? = some m ↔ RoundsTo d.value m := by
  constructor
  · exact roundsTo_of_nearest?
  · intro h
    obtain ⟨n, hn⟩ := exists_nearest? h.below
    rw [hn, h.unique (roundsTo_of_nearest? hn)]

/-- A decimal has no nearest magnitude exactly from the limit on. -/
lemma nearest?_eq_none_iff {d : Decimal} :
    d.nearest? = none ↔ 2 ^ 1024 - 2 ^ 970 ≤ d.value := by
  rw [← not_lt]
  constructor
  · intro hnone hlt
    obtain ⟨m, hm⟩ := exists_nearest? hlt
    rw [hnone] at hm
    cases hm
  · intro hle
    rw [Option.eq_none_iff_forall_ne_some]
    intro m hm
    exact hle (roundsTo_of_nearest? hm).below

end Decimal

end PowerRule
