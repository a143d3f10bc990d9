import Mathlib.Tactic.Lemma
import PowerRule.Proofs.Nearest

/-!
# Neighbouring magnitudes

Between two neighbouring magnitudes (`Magnitude.Adjacent`) the middle decides to which side a
number is rounded, and at the middle the even one of the two is taken
(`RoundsTo.le_iff`, `RoundsTo.ge_iff`). The neighbours of a magnitude lie one spacing away: upwards
that of the magnitude itself, downwards that of the units just below it
(`Magnitude.exists_adjacent_after`, `Magnitude.exists_adjacent_before`).
-/

namespace PowerRule

attribute [local irreducible] twoTo tenTo

namespace Magnitude

/-- The second magnitude is the next one after the first. -/
structure Adjacent (m n : Magnitude) : Prop where
  lt : m.units < n.units
  none_between (p : Magnitude) : m.units < p.units → n.units ≤ p.units

/-- The number halfway between two magnitudes. -/
def middle (m n : Magnitude) : ℚ := (m.value + n.value) / 2

section

variable {m n : Magnitude}

/-- A magnitude with more units has a value at least as large. -/
lemma value_le_value (h : m.units ≤ n.units) : m.value ≤ n.value :=
  div_le_div_of_nonneg_right (Nat.cast_le.mpr h) (by positivity)

/-- One with a larger value has at least as many units. -/
lemma units_le_units (h : m.value ≤ n.value) : m.units ≤ n.units := by
  by_contra hlt
  exact absurd h (not_le_of_gt (value_lt_value (Nat.lt_of_not_le hlt)))

/-- The middle lies half a step above the lower of two magnitudes. -/
lemma middle_eq_add {step : Nat} (h : n.units = m.units + step) :
    middle m n = m.value + step / 2 ^ 1075 := by
  rw [middle, value, value, h, Nat.cast_add, pow_succ (2 : ℚ) 1074]
  generalize (2 : ℚ) ^ 1074 = scale
  ring

/-- The middle lies half a step below the higher of two magnitudes. -/
lemma middle_eq_sub {step : Nat} (h : n.units = m.units + step) :
    middle m n = n.value - step / 2 ^ 1075 := by
  rw [middle, value, value, h, Nat.cast_add, pow_succ (2 : ℚ) 1074]
  generalize (2 : ℚ) ^ 1074 = scale
  ring

namespace Adjacent

/-- The next magnitude has one more in its significand, in the same spacing. -/
lemma units_eq (h : Adjacent m n) :
    n.units = (m.significand + 1) * Binary64.spacing m.units := by
  obtain ⟨p, hp, hmp, hpn⟩ := exists_next h.lt
  rw [← hp]
  exact Nat.le_antisymm (h.none_between p hmp) hpn

/-- One of two neighbours is odd. -/
lemma not_even (h : Adjacent m n) (hm : 2 ∣ m.significand) : ¬2 ∣ n.significand :=
  odd_next hm h.units_eq

/-- There is none between two adjacent magnitudes. -/
lemma le_left (h : Adjacent m n) {p : Magnitude} (hp : p.units < n.units) :
    p.units ≤ m.units := by
  by_contra hlt
  exact absurd (h.none_between p (Nat.lt_of_not_le hlt)) (Nat.not_le_of_lt hp)

/-- The middle lies above the lower one. -/
lemma lt_middle (h : Adjacent m n) : m.value < middle m n := by
  have hvalue := value_lt_value h.lt
  unfold middle
  linarith

/-- It lies below the upper one. -/
lemma middle_lt (h : Adjacent m n) : middle m n < n.value := by
  have hvalue := value_lt_value h.lt
  unfold middle
  linarith

end Adjacent

/-- Magnitudes are adjacent if they are one spacing apart. -/
lemma adjacent_of_units_eq (h : n.units = m.units + Binary64.spacing m.units) :
    Adjacent m n where
  lt := by
    have hpos := Binary64.spacing_pos m.units
    omega
  none_between p hp := by
    obtain ⟨r, hr, _, hle⟩ := exists_next hp
    rw [Nat.succ_mul, m.significand_mul] at hr
    omega

/-- After a magnitude that is not the largest comes the one that is a spacing higher. -/
lemma exists_adjacent_after (h : m.units < n.units) :
    ∃ p, Adjacent m p ∧ p.units = m.units + Binary64.spacing m.units := by
  obtain ⟨p, hp, _, _⟩ := exists_next h
  rw [Nat.succ_mul, m.significand_mul] at hp
  exact ⟨p, adjacent_of_units_eq hp, hp⟩

/-- Below a number of units lie digits that fill their places, on the spacing that the units just
below it have. -/
lemma exists_digits_before {units : Nat} (h : 0 < units)
    (hdvd : Binary64.spacing (units - 1) ∣ units) :
    ∃ digits e, Binary64.spacing (units - 1) = twoTo e ∧
      units = digits * twoTo e + twoTo e ∧ digits < twoTo 53 ∧
        (e = 0 ∨ twoTo 52 ≤ digits) := by
  have hbelow : units - 1 < twoTo 53 * Binary64.spacing (units - 1) := by
    rw [Binary64.spacing, ← twoTo_add]
    exact Binary64.lt_twoTo_spacingLog _
  have hfill := Binary64.spacingLog_eq_zero_or (units - 1)
  rw [Binary64.spacing] at hdvd hbelow hfill ⊢
  generalize Binary64.spacingLog (units - 1) = e at *
  obtain ⟨k, hk⟩ := hdvd
  obtain ⟨digits, rfl⟩ : ∃ digits, k = digits + 1 := by
    apply Nat.exists_eq_add_one_of_ne_zero
    rintro rfl
    omega
  have hunits : units = digits * twoTo e + twoTo e := by rw [hk, Nat.mul_comm, Nat.succ_mul]
  have hstep := twoTo_pos e
  refine ⟨digits, e, rfl, hunits, ?_, ?_⟩
  · apply Nat.lt_of_mul_lt_mul_right (a := twoTo e)
    omega
  · rcases hfill with hzero | hle
    · exact .inl hzero
    · right
      apply Nat.le_of_lt_succ
      apply Nat.lt_of_mul_lt_mul_right (a := twoTo e)
      rw [Nat.succ_mul]
      omega

/-- Before a magnitude that is not zero comes the one that is lower by the spacing below it. -/
lemma exists_adjacent_before (h : 0 < m.units) :
    ∃ p, Adjacent p m ∧ m.units = p.units + Binary64.spacing (m.units - 1) := by
  have hdvd : Binary64.spacing (m.units - 1) ∣ m.units :=
    Nat.dvd_trans (twoTo_dvd (Binary64.spacingLog_mono (Nat.sub_le _ _))) m.representable.spaced
  obtain ⟨digits, e, hspacing, hunits, hlt, hfill⟩ := exists_digits_before h hdvd
  have hbounded := m.representable.bounded
  refine ⟨⟨digits * twoTo e, ?_, ?_⟩, ?_, ?_⟩
  · exact Binary64.spacing_dvd_mul_twoTo (Nat.le_of_lt hlt) e
  · omega
  · apply adjacent_of_units_eq
    rw [Binary64.spacing_digits hlt hfill, hunits]
  · rw [hspacing, hunits]

end

end Magnitude

namespace RoundsTo

open Magnitude

variable {q : ℚ} {m n r : Magnitude}

/-! ## Bounds that are magnitudes -/

/-- Rounding does not bring a number below a magnitude. -/
lemma ge_of_value_le (hr : RoundsTo q r) (h : m.value ≤ q) : m.units ≤ r.units := by
  by_contra hlt
  have hrm := value_lt_value (Nat.lt_of_not_le hlt)
  have hnearest := hr.nearest m
  rw [abs_of_nonpos (sub_nonpos.mpr h),
    abs_of_neg (sub_neg_of_lt (lt_of_lt_of_le hrm h))] at hnearest
  linarith

/-- Rounding does not bring a number above a magnitude. -/
lemma le_of_le_value (hr : RoundsTo q r) (h : q ≤ m.value) : r.units ≤ m.units := by
  by_contra hlt
  have hmr := value_lt_value (Nat.lt_of_not_le hlt)
  have hnearest := hr.nearest m
  rw [abs_of_nonneg (sub_nonneg.mpr h),
    abs_of_pos (sub_pos_of_lt (lt_of_le_of_lt h hmr))] at hnearest
  linarith

/-! ## The two sides of a middle -/

/-- Below the middle a number is rounded down. -/
lemma le_of_lt_middle (hr : RoundsTo q r) (h : Adjacent m n) (hq : q < middle m n) :
    r.units ≤ m.units := by
  by_contra hlt
  have hnr := value_le_value (h.none_between r (Nat.lt_of_not_le hlt))
  have hmn := value_lt_value h.lt
  have hnearest := hr.nearest m
  unfold middle at hq
  rw [abs_of_nonneg (show 0 ≤ r.value - q by linarith)] at hnearest
  rcases abs_cases (m.value - q) with ⟨habs, _⟩ | ⟨habs, _⟩
  · linarith
  · linarith

/-- Above the middle a number is rounded up. -/
lemma ge_of_middle_lt (hr : RoundsTo q r) (h : Adjacent m n) (hq : middle m n < q) :
    n.units ≤ r.units := by
  by_contra hlt
  have hrm := value_le_value (h.le_left (Nat.lt_of_not_le hlt))
  have hmn := value_lt_value h.lt
  have hnearest := hr.nearest n
  unfold middle at hq
  rw [abs_of_nonpos (show r.value - q ≤ 0 by linarith)] at hnearest
  rcases abs_cases (n.value - q) with ⟨habs, _⟩ | ⟨habs, _⟩
  · linarith
  · linarith

/-- At the middle the even one of the two is taken. -/
lemma even_of_middle (hr : RoundsTo (middle m n) r) (h : Adjacent m n) :
    2 ∣ r.significand ∧ (r = m ∨ r = n) := by
  have hmn := value_lt_value h.lt
  have hm : |m.value - middle m n| = middle m n - m.value := by
    rw [abs_sub_comm, abs_of_pos (sub_pos.mpr h.lt_middle)]
  have hn : |n.value - middle m n| = n.value - middle m n :=
    abs_of_pos (sub_pos.mpr h.middle_lt)
  have htie : |m.value - middle m n| = |n.value - middle m n| := by
    rw [hm, hn, middle]
    ring
  have hne : m ≠ n := by
    rintro rfl
    exact Nat.lt_irrefl _ h.lt
  have hr' : r = m ∨ r = n := by
    rcases Nat.lt_or_ge r.units n.units with hlt | hle
    · left
      have hle := h.le_left hlt
      have hnearest := hr.nearest m
      have hrm := value_le_value hle
      rw [hm, abs_sub_comm, abs_of_pos (by linarith [h.lt_middle])] at hnearest
      exact Magnitude.ext (Nat.le_antisymm hle (units_le_units (by linarith)))
    · right
      have hnearest := hr.nearest n
      have hnr := value_le_value hle
      rw [hn, abs_of_pos (by linarith [h.middle_lt])] at hnearest
      exact Magnitude.ext (Nat.le_antisymm (units_le_units (by linarith)) hle)
  refine ⟨?_, hr'⟩
  rcases hr' with rfl | rfl
  · exact hr.even n hne.symm htie.symm
  · exact hr.even m hne htie

/-- Up to the middle after an even magnitude, and not beyond, numbers are rounded to it or below.
-/
lemma le_iff (hr : RoundsTo q r) (h : Adjacent m n) (heven : 2 ∣ m.significand) :
    r.units ≤ m.units ↔ q ≤ middle m n := by
  constructor
  · intro hle
    by_contra hlt
    have hge := hr.ge_of_middle_lt h (lt_of_not_ge hlt)
    exact absurd (Nat.le_trans hge hle) (Nat.not_le_of_lt h.lt)
  · intro hq
    rcases lt_or_eq_of_le hq with hlt | rfl
    · exact hr.le_of_lt_middle h hlt
    · obtain ⟨hr', rfl | rfl⟩ := hr.even_of_middle h
      · exact Nat.le_refl _
      · exact absurd hr' (h.not_even heven)

/-- From the middle before an even magnitude on, and not earlier, numbers are rounded to it or
above. -/
lemma ge_iff (hr : RoundsTo q r) (h : Adjacent m n) (heven : 2 ∣ n.significand) :
    n.units ≤ r.units ↔ middle m n ≤ q := by
  constructor
  · intro hge
    by_contra hlt
    have hle := hr.le_of_lt_middle h (lt_of_not_ge hlt)
    exact absurd (Nat.le_trans hge hle) (Nat.not_le_of_lt h.lt)
  · intro hq
    rcases lt_or_eq_of_le hq with hlt | rfl
    · exact hr.ge_of_middle_lt h hlt
    · obtain ⟨hr', rfl | rfl⟩ := hr.even_of_middle h
      · exact absurd heven (h.not_even hr')
      · exact Nat.le_refl _

end RoundsTo

end PowerRule
