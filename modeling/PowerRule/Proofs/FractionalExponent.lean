import Mathlib.Data.Rat.Floor
import Mathlib.Tactic.Lemma
import PowerRule.Proofs.Neighbours
import PowerRule.Proofs.WholeExponent

/-!
# Exponents with a fraction

An exponent is rounded before it is tested for a fraction. So a fraction is noticed only if it is
large enough: a number within half a spacing of a whole number (`InReach`) is rounded to it, and its
fraction is lost. `readExponent_numeral` says what becomes of every numeral. One with a fraction and
at most fifteen digits is always out of reach, and refused for its fraction.
-/

namespace PowerRule

/-- Exponents are far below what a number is written to with all its digits. -/
lemma maxExponent_lt_twoTo_52 : maxExponent < twoTo 52 := by decide

attribute [local irreducible] twoTo tenTo

/-- An exponent that is allowed is at most two to the power of 52. -/
lemma le_twoTo_52 {n : Nat} (hn : n ≤ maxExponent) : n ≤ twoTo 52 :=
  Nat.le_trans hn (Nat.le_of_lt maxExponent_lt_twoTo_52)

/-- Half the distance of magnitudes above a whole number. -/
def reachAbove (n : Nat) : ℚ := if n = 0 then 1 / 2 ^ 1075 else 2 ^ n.log2 / 2 ^ 53

/-- Half the distance of magnitudes below a whole number, which are closer together below a power of
two. -/
def reachBelow (n : Nat) : ℚ :=
  if n = twoTo n.log2 then 2 ^ n.log2 / 2 ^ 54 else 2 ^ n.log2 / 2 ^ 53

/-- The number is no further from the whole number than half the distance of magnitudes there. -/
structure InReach (n : Nat) (q : ℚ) : Prop where
  low : n - reachBelow n ≤ q
  high : q ≤ n + reachAbove n

/-! ## How far a whole number reaches -/

section

variable {n : Nat}

/-- Zero reaches half of the least step above it. -/
lemma reachAbove_zero : reachAbove 0 = 1 / 2 ^ 1075 := if_pos rfl

/-- Another number reaches half a step above it. -/
lemma reachAbove_of_pos (hn : 0 < n) : reachAbove n = 2 ^ n.log2 / 2 ^ 53 :=
  if_neg (Nat.pos_iff_ne_zero.mp hn)

/-- What a number reaches below it is not negative. -/
lemma reachBelow_nonneg (n : Nat) : 0 ≤ reachBelow n := by
  unfold reachBelow
  split <;> positivity

/-- A positive number is at least the power of two with its logarithm. -/
lemma two_pow_log2_le (hn : 0 < n) : (2 : ℚ) ^ n.log2 ≤ n := by
  exact_mod_cast Nat.log2_self_le (Nat.pos_iff_ne_zero.mp hn)

/-- A number reaches above it no more than one part in two to the power of 53. -/
lemma reachAbove_le (hn : 0 < n) : reachAbove n ≤ n / 2 ^ 53 := by
  rw [reachAbove_of_pos hn]
  exact div_le_div_of_nonneg_right (two_pow_log2_le hn) (by positivity)

/-- It reaches no more than that below it either. -/
lemma reachBelow_le (hn : 0 < n) : reachBelow n ≤ n / 2 ^ 53 := by
  have hle := two_pow_log2_le hn
  unfold reachBelow
  split
  · linarith
  · linarith

/-- The logarithm is known from the powers of two on both sides. -/
lemma log2_eq_of_bounds {m k : Nat} (hlow : twoTo k ≤ m) (hhigh : m < twoTo (k + 1)) :
    m.log2 = k := by
  have hne : m ≠ 0 := Nat.pos_iff_ne_zero.mp (Nat.lt_of_lt_of_le (twoTo_pos k) hlow)
  apply Nat.le_antisymm
  · exact Nat.le_of_lt_succ ((log2_lt_iff hne).mpr hhigh)
  · exact (le_log2_iff hne).mpr hlow

/-- A positive number is at least the power of two with its logarithm, among naturals. -/
lemma twoTo_log2_le (hn : 0 < n) : twoTo n.log2 ≤ n :=
  (le_log2_iff (Nat.pos_iff_ne_zero.mp hn)).mp (Nat.le_refl _)

/-- In units, a number lies below the next power of two. -/
lemma mul_one_lt_twoTo (n : Nat) : n * Binary64.one < twoTo (n.log2 + 1074 + 1) := by
  rw [Nat.add_right_comm, twoTo_add]
  exact Nat.mul_lt_mul_of_pos_right (lt_twoTo_log2 n) Binary64.one_pos

/-- In units, the logarithm is larger by that of one. -/
lemma log2_mul_one (hn : 0 < n) : (n * Binary64.one).log2 = n.log2 + 1074 := by
  apply log2_eq_of_bounds
  · rw [twoTo_add]
    exact Nat.mul_le_mul_right _ (twoTo_log2_le hn)
  · exact mul_one_lt_twoTo n

/-- Half a spacing, as a number. -/
lemma half_spacing {units e : Nat} (h : Binary64.spacingLog units = e + 1021) :
    (Binary64.spacing units : ℚ) / 2 ^ 1075 = 2 ^ e / 2 ^ 54 := by
  have hsplit : (2 : ℚ) ^ 1075 = 2 ^ 54 * 2 ^ 1021 := by rw [← pow_add]
  rw [Binary64.spacing, h, cast_twoTo, pow_add, hsplit, mul_div_mul_right _ _ (by positivity)]

/-- What a number reaches above it is half the spacing there. -/
lemma reachAbove_eq (n : Nat) :
    reachAbove n = (Binary64.spacing (n * Binary64.one) : ℚ) / 2 ^ 1075 := by
  rcases Nat.eq_zero_or_pos n with rfl | hn
  · rw [reachAbove_zero, Nat.zero_mul, Binary64.spacing, cast_twoTo]
    rfl
  · have hlog : Binary64.spacingLog (n * Binary64.one) = n.log2 + 1 + 1021 := by
      unfold Binary64.spacingLog
      rw [log2_mul_one hn]
      omega
    rw [reachAbove_of_pos hn, half_spacing hlog, pow_succ]
    ring

/-- The units below a power of two have one binary digit less. -/
lemma log2_units_below (hn : 0 < n) :
    (n * Binary64.one - 1).log2 = if n = twoTo n.log2 then n.log2 + 1073 else n.log2 + 1074 := by
  have hhigh := mul_one_lt_twoTo n
  split
  · rename_i hpower
    have hunits : n * Binary64.one = twoTo (n.log2 + 1073) * 2 := by
      rw [← twoTo_succ, show n.log2 + 1073 + 1 = n.log2 + 1074 from rfl, twoTo_add, ← hpower]
      rfl
    have hpos := twoTo_pos (n.log2 + 1073)
    apply log2_eq_of_bounds
    · omega
    · rw [twoTo_succ]
      omega
  · rename_i hpower
    have hlow : twoTo (n.log2 + 1074) < n * Binary64.one := by
      rw [twoTo_add]
      apply Nat.mul_lt_mul_of_pos_right _ Binary64.one_pos
      exact Nat.lt_of_le_of_ne (twoTo_log2_le hn) (Ne.symm hpower)
    apply log2_eq_of_bounds
    · omega
    · omega

/-- What it reaches below it is half the spacing just before it. -/
lemma reachBelow_eq (hn : 0 < n) :
    reachBelow n = (Binary64.spacing (n * Binary64.one - 1) : ℚ) / 2 ^ 1075 := by
  have hlog := log2_units_below hn
  unfold reachBelow
  split at hlog
  · rename_i hpower
    rw [if_pos hpower, half_spacing]
    unfold Binary64.spacingLog
    omega
  · rename_i hpower
    rw [if_neg hpower, half_spacing (e := n.log2 + 1), pow_succ]
    · ring
    · unfold Binary64.spacingLog
      omega

/-- A whole number up to two to the power of 52 has an even significand. -/
lemma even_significand_whole (hn : n ≤ twoTo 52) (h : n ≤ maxWhole) :
    2 ∣ (Magnitude.whole n h).significand := by
  rcases Nat.eq_zero_or_pos n with rfl | hpos
  · rw [Magnitude.significand, Magnitude.units_whole, Nat.zero_mul, Nat.zero_div]
    exact Nat.dvd_zero 2
  -- The digits are filled up with zeros, unless there are 53 already.
  have hlog : n.log2 ≤ 52 := by
    apply Nat.le_of_lt_succ
    rw [log2_lt_iff (Nat.pos_iff_ne_zero.mp hpos)]
    exact Nat.lt_of_le_of_lt hn (twoTo_lt (by decide))
  obtain ⟨k, hk⟩ := Nat.exists_eq_add_of_le hlog
  have hlow : twoTo 52 ≤ n * twoTo k := by
    rw [hk, twoTo_add]
    exact Nat.mul_le_mul_right _ (twoTo_log2_le hpos)
  have hhigh : n * twoTo k < twoTo 53 := by
    rw [show 53 = n.log2 + 1 + k by omega, twoTo_add]
    exact Nat.mul_lt_mul_of_pos_right (lt_twoTo_log2 n) (twoTo_pos k)
  have hunits : (Magnitude.whole n h).units = n * twoTo k * twoTo (1074 - k) := by
    rw [Magnitude.units_whole, Nat.mul_assoc, ← twoTo_add, Nat.add_sub_cancel' (by omega)]
    rfl
  apply Magnitude.even_significand hunits
  · exact Nat.le_of_lt hhigh
  · exact .inr hlow
  · cases k with
    | zero =>
      have hge := twoTo_log2_le hpos
      rw [Nat.add_zero] at hk
      rw [← hk] at hge
      rw [Nat.le_antisymm hn hge]
      exact Nat.dvd_mul_right_of_dvd (two_dvd_twoTo_succ 51) _
    | succ k => exact Nat.dvd_mul_left_of_dvd (two_dvd_twoTo_succ k) n

/-- From two to the power of 52 on there is no gap between what whole numbers reach. -/
lemma half_le_reachAbove (hn : twoTo 52 ≤ n) : 1 / 2 ≤ reachAbove n := by
  have hpos : 0 < n := Nat.lt_of_lt_of_le (twoTo_pos 52) hn
  have hlog : 52 ≤ n.log2 := (le_log2_iff (Nat.pos_iff_ne_zero.mp hpos)).mpr hn
  have hpow : (2 : ℚ) ^ 52 ≤ 2 ^ n.log2 := pow_le_pow_right₀ one_le_two hlog
  rw [reachAbove_of_pos hpos]
  linarith

/-- Past two to the power of 52 a number reaches half of one below it. -/
lemma half_le_reachBelow (hn : twoTo 52 < n) : 1 / 2 ≤ reachBelow n := by
  have hpos : 0 < n := Nat.lt_trans (twoTo_pos 52) hn
  unfold reachBelow
  split
  · rename_i hpower
    have hlog : 53 ≤ n.log2 := by
      by_contra hlt
      have hle : twoTo n.log2 ≤ twoTo 52 := twoTo_le (by omega)
      rw [← hpower] at hle
      exact absurd hle (Nat.not_le_of_lt hn)
    have hpow : (2 : ℚ) ^ 53 ≤ 2 ^ n.log2 := pow_le_pow_right₀ one_le_two hlog
    linarith
  · have hlog : 52 ≤ n.log2 := (le_log2_iff (Nat.pos_iff_ne_zero.mp hpos)).mpr (Nat.le_of_lt hn)
    have hpow : (2 : ℚ) ^ 52 ≤ 2 ^ n.log2 := pow_le_pow_right₀ one_le_two hlog
    linarith

end

/-- From there on every number is in reach of some whole number. -/
lemma exists_inReach {q : ℚ} (hq : 2 ^ 52 ≤ q) : ∃ n, twoTo 52 ≤ n ∧ InReach n q := by
  have h0 : 0 ≤ q := le_trans (by positivity) hq
  have hfloor := Nat.floor_le h0
  have hnext := Nat.lt_floor_add_one q
  have hlow : twoTo 52 ≤ ⌊q⌋₊ := by
    rw [Nat.le_floor_iff h0, cast_twoTo]
    exact hq
  rcases le_total q (⌊q⌋₊ + 1 / 2) with hle | hge
  · have hreach := half_le_reachAbove hlow
    have hbelow := reachBelow_nonneg ⌊q⌋₊
    exact ⟨⌊q⌋₊, hlow, by linarith, by linarith⟩
  · have hreach := half_le_reachBelow (Nat.lt_succ_of_le hlow)
    have habove := half_le_reachAbove (Nat.le_succ_of_le hlow)
    refine ⟨⌊q⌋₊.succ, Nat.le_succ_of_le hlow, ?_, ?_⟩
    · rw [Nat.cast_succ]
      linarith
    · rw [Nat.cast_succ]
      linarith

/-- Below two to the power of 52 a number is in reach of no larger whole number. -/
lemma InReach.le_of_lt {q : ℚ} {n : Nat} (h : InReach n q) (hq : q < 2 ^ 52) : n ≤ twoTo 52 := by
  by_contra hlt
  have hn : twoTo 52 + 1 ≤ n := Nat.lt_of_not_le hlt
  have hcast : ((twoTo 52 + 1 : Nat) : ℚ) ≤ n := Nat.cast_le.mpr hn
  have hlow := h.low
  have hreach := reachBelow_le (Nat.lt_of_lt_of_le (Nat.succ_pos _) hn)
  rw [Nat.cast_succ, cast_twoTo] at hcast
  linarith

/-- What is in reach of an exponent in range is not rounded to infinity. -/
lemma InReach.lt_limit {q : ℚ} {n : Nat} (h : InReach n q) (hn : n ≤ maxExponent) :
    q < 2 ^ 1024 - 2 ^ 970 := by
  have hle : (n : ℚ) ≤ 2 ^ 52 := by
    rw [← cast_twoTo]
    exact Nat.cast_le.mpr (le_twoTo_52 hn)
  have hreach : reachAbove n ≤ 1 := by
    rcases Nat.eq_zero_or_pos n with rfl | hpos
    · rw [reachAbove_zero]
      exact div_le_one_of_le₀ (one_le_pow₀ one_le_two) (by positivity)
    · have hlow := reachAbove_le hpos
      linarith
  have hhigh := h.high
  have hone : (1 : ℚ) ≤ 2 ^ 970 := one_le_pow₀ one_le_two
  rw [show (2 : ℚ) ^ 1024 = 2 ^ 54 * 2 ^ 970 by rw [← pow_add]]
  generalize (2 : ℚ) ^ 970 = scale at *
  linarith

/-! ## What is rounded to a whole number -/

section

variable {q : ℚ} {r : Magnitude} {n : Nat}

namespace RoundsTo

/-- Rounding stays at a whole number or below it exactly up to where it reaches. -/
lemma le_whole_iff (hr : RoundsTo q r) (hn : n ≤ twoTo 52) :
    r.units ≤ n * Binary64.one ↔ q ≤ n + reachAbove n := by
  have hwhole : n ≤ maxWhole := Nat.le_trans hn twoTo_52_le_maxWhole
  have hnext : n + 1 ≤ maxWhole := Nat.le_trans (Nat.succ_le_succ hn) (twoTo_lt (by decide))
  have hlt : (Magnitude.whole n hwhole).units < (Magnitude.whole (n + 1) hnext).units :=
    Nat.mul_lt_mul_of_pos_right (Nat.lt_succ_self n) Binary64.one_pos
  obtain ⟨p, hadjacent, hunits⟩ := Magnitude.exists_adjacent_after hlt
  have hmiddle := Magnitude.middle_eq_add hunits
  rw [Magnitude.value_whole, Magnitude.units_whole, ← reachAbove_eq] at hmiddle
  rw [← hmiddle]
  exact hr.le_iff hadjacent (even_significand_whole hn hwhole)

/-- A value is rounded to at least a whole number exactly if it lies within its reach or above. -/
lemma whole_le_iff (hr : RoundsTo q r) (hq : 0 ≤ q) (hn : n ≤ twoTo 52) :
    n * Binary64.one ≤ r.units ↔ n - reachBelow n ≤ q := by
  rcases Nat.eq_zero_or_pos n with rfl | hpos
  -- Nothing is below zero.
  · have hbelow := reachBelow_nonneg 0
    rw [Nat.zero_mul, Nat.cast_zero]
    exact iff_of_true (Nat.zero_le _) (by linarith)
  · have hwhole : n ≤ maxWhole := Nat.le_trans hn twoTo_52_le_maxWhole
    have hunits_pos : 0 < (Magnitude.whole n hwhole).units := Nat.mul_pos hpos Binary64.one_pos
    obtain ⟨p, hadjacent, hunits⟩ := Magnitude.exists_adjacent_before hunits_pos
    have hmiddle := Magnitude.middle_eq_sub hunits
    rw [Magnitude.value_whole, Magnitude.units_whole, ← reachBelow_eq hpos] at hmiddle
    rw [← hmiddle]
    exact hr.ge_iff hadjacent (even_significand_whole hn hwhole)

/-- Up to two to the power of 52, what is rounded to a whole number is what it reaches. -/
lemma toNat?_eq_some_iff (hr : RoundsTo q r) (hq : 0 ≤ q) (hn : n ≤ twoTo 52) :
    r.toNat? = some n ↔ InReach n q := by
  rw [Magnitude.toNat?_eq_some_iff]
  constructor
  · intro heq
    exact ⟨(hr.whole_le_iff hq hn).mp (Nat.le_of_eq heq.symm),
      (hr.le_whole_iff hn).mp (Nat.le_of_eq heq)⟩
  · intro h
    exact Nat.le_antisymm ((hr.le_whole_iff hn).mpr h.high) ((hr.whole_le_iff hq hn).mpr h.low)

/-- Below two to the power of 52 nothing is rounded to a larger whole number. -/
lemma le_of_toNat? (hr : RoundsTo q r) (hq : q < 2 ^ 52) (h : r.toNat? = some n) :
    n ≤ twoTo 52 := by
  have hle : q ≤ (Magnitude.whole (twoTo 52) twoTo_52_le_maxWhole).value := by
    rw [Magnitude.value_whole, cast_twoTo]
    exact le_of_lt hq
  have hunits := hr.le_of_le_value hle
  rw [Magnitude.units_whole, Magnitude.toNat?_eq_some_iff.mp h] at hunits
  exact Nat.le_of_mul_le_mul_right hunits Binary64.one_pos

/-- Out of range as well, what is rounded to a whole number is in reach of one, but from two to the
power of 52 on perhaps of another one. -/
lemma exists_large_iff (hr : RoundsTo q r) (hq : 0 ≤ q) :
    (∃ n, maxExponent < n ∧ r.toNat? = some n) ↔ ∃ n, maxExponent < n ∧ InReach n q := by
  rcases lt_or_ge q (2 ^ 52) with hlt | hge
  · constructor
    · rintro ⟨n, hn, h⟩
      exact ⟨n, hn, (hr.toNat?_eq_some_iff hq (hr.le_of_toNat? hlt h)).mp h⟩
    · rintro ⟨n, hn, h⟩
      exact ⟨n, hn, (hr.toNat?_eq_some_iff hq (h.le_of_lt hlt)).mpr h⟩
  · have hcast : ((twoTo 52 : Nat) : ℚ) ≤ q := by
      rw [cast_twoTo]
      exact hge
    obtain ⟨n, hn, hwhole⟩ := hr.exists_toNat? (Nat.le_refl _) twoTo_52_le_maxWhole hcast
    obtain ⟨k, hk, hreach⟩ := exists_inReach hge
    exact iff_of_true ⟨n, Nat.lt_of_lt_of_le maxExponent_lt_twoTo_52 hn, hwhole⟩
      ⟨k, Nat.lt_of_lt_of_le maxExponent_lt_twoTo_52 hk, hreach⟩

/-- A value is rounded to no whole number exactly if it is in reach of none. -/
lemma toNat?_eq_none_iff (hr : RoundsTo q r) (hq : 0 ≤ q) :
    r.toNat? = none ↔ ∀ n, ¬InReach n q := by
  have hsmall {n : Nat} (hn : n ≤ maxExponent) : r.toNat? = some n ↔ InReach n q :=
    hr.toNat?_eq_some_iff hq (le_twoTo_52 hn)
  have hlarge := hr.exists_large_iff hq
  rw [Option.eq_none_iff_forall_ne_some]
  constructor
  · intro hnone n h
    rcases Nat.lt_or_ge maxExponent n with hn | hn
    · obtain ⟨k, _, hk⟩ := hlarge.mpr ⟨n, hn, h⟩
      exact hnone k hk
    · exact hnone n ((hsmall hn).mpr h)
  · intro hnone n h
    rcases Nat.lt_or_ge maxExponent n with hn | hn
    · obtain ⟨k, _, hk⟩ := hlarge.mp ⟨n, hn, h⟩
      exact hnone k hk
    · exact hnone n ((hsmall hn).mp h)

end RoundsTo

end

/-! ## What becomes of a numeral -/

/-- A numeral has one value. -/
lemma NumeralValue.unique {text : List Char} {p q : ℚ} (hp : NumeralValue text p)
    (hq : NumeralValue text q) : p = q :=
  hp.value_eq.trans hq.value_eq.symm

/-- The value of a numeral is not negative. -/
lemma NumeralValue.nonneg {text : List Char} {q : ℚ} (h : NumeralValue text q) : 0 ≤ q := by
  rw [h.value_eq]
  exact div_nonneg (Nat.cast_nonneg _) (by positivity)

section

variable {text : List Char} {q : ℚ} (h : NumeralValue text q)

include h

/-- A value below the limit is rounded to something. -/
lemma NumeralValue.exists_roundsTo (hq : q < 2 ^ 1024 - 2 ^ 970) : ∃ m, RoundsTo q m := by
  rw [h.value_eq] at hq ⊢
  obtain ⟨m, hm⟩ := Decimal.exists_nearest? hq
  exact ⟨m, Decimal.roundsTo_of_nearest? hm⟩

/-- A numeral is an exponent if its value is in reach of one that is allowed. -/
lemma exponentOfText_eq_ok_iff_inReach {n : Nat} :
    exponentOfText text = .ok n ↔ n ≤ maxExponent ∧ InReach n q := by
  rw [exponentOfText_eq_ok_iff_value]
  constructor
  · rintro ⟨p, m, hp, hm, hvalue, hle⟩
    rw [hp.unique h] at hm
    refine ⟨hle, ?_⟩
    exact (hm.toNat?_eq_some_iff h.nonneg (le_twoTo_52 hle)).mp
      (toNat?_eq_some_iff_value.mpr hvalue)
  · rintro ⟨hle, hreach⟩
    obtain ⟨m, hm⟩ := h.exists_roundsTo (hreach.lt_limit hle)
    have hwhole := (hm.toNat?_eq_some_iff h.nonneg (le_twoTo_52 hle)).mpr hreach
    exact ⟨q, m, h, hm, toNat?_eq_some_iff_value.mp hwhole, hle⟩

/-- It is too large if its value is in reach of a whole number that is not allowed. -/
lemma exponentOfText_eq_tooLarge_iff :
    exponentOfText text = .error .tooLarge ↔
      q < 2 ^ 1024 - 2 ^ 970 ∧ ∃ n, maxExponent < n ∧ InReach n q := by
  rw [exponentOfText_eq_error_iff]
  constructor
  · intro hfault
    cases hfault with
    | tooLarge hp hm hvalue hlt =>
      rw [hp.unique h] at hm
      exact ⟨hm.below, (hm.exists_large_iff h.nonneg).mp
        ⟨_, hlt, toNat?_eq_some_iff_value.mpr hvalue⟩⟩
  · rintro ⟨hq, hreach⟩
    obtain ⟨m, hm⟩ := h.exists_roundsTo hq
    obtain ⟨n, hn, hwhole⟩ := (hm.exists_large_iff h.nonneg).mpr hreach
    exact .tooLarge h hm (toNat?_eq_some_iff_value.mp hwhole) hn

/-- It is fractional if its value is in reach of no whole number, or past the limit. -/
lemma exponentOfText_eq_fractional_iff :
    exponentOfText text = .error .fractional ↔
      2 ^ 1024 - 2 ^ 970 ≤ q ∨ ∀ n, ¬InReach n q := by
  rw [exponentOfText_eq_error_iff]
  constructor
  · intro hfault
    cases hfault with
    | infinite hp hle =>
      rw [hp.unique h] at hle
      exact .inl hle
    | fractional hp hm hvalue =>
      rw [hp.unique h] at hm
      exact .inr ((hm.toNat?_eq_none_iff h.nonneg).mp (toNat?_eq_none_iff_value.mpr hvalue))
  · intro hq
    rcases lt_or_ge q (2 ^ 1024 - 2 ^ 970) with hlt | hle
    · obtain ⟨m, hm⟩ := h.exists_roundsTo hlt
      have hnone := hq.resolve_left (not_le_of_gt hlt)
      exact .fractional h hm
        (toNat?_eq_none_iff_value.mp ((hm.toNat?_eq_none_iff h.nonneg).mpr hnone))
    · exact .infinite h hle

end

/-! ## Short numerals -/

/-- Only with a point there is a fraction. -/
lemma NumeralValue.exists_digits {text : List Char} {q : ℚ} (h : NumeralValue text q)
    (hq : ∀ n : Nat, q ≠ n) {k : Nat} (hk : text.length ≤ k + 1) :
    ∃ c places, q = (c : Nat) / 10 ^ places ∧ c < 10 ^ k ∧ places ≤ k := by
  have hvalue := h.value_eq
  cases h with
  | whole _ _ => exact absurd rfl (hq _)
  | pointed _ hw hf =>
    rw [hvalue]
    exact exists_digits_pointed hw hf hk
  | fraction _ hf =>
    have hdigits := exists_digits_pointed Digits.nil hf hk
    rw [List.nil_append, ← hvalue] at hdigits
    exact hdigits

/-- A small number that is not zero is out of the reach of zero. -/
lemma not_inReach_zero {c places : Nat} (hc : 0 < c) (hplaces : places ≤ 15) :
    ¬InReach 0 (c / 10 ^ places) := by
  intro hreach
  have hscale : (0 : ℚ) < 10 ^ places := by positivity
  have hone : (1 : ℚ) ≤ c := Nat.one_le_cast.mpr hc
  have hpow : (10 : ℚ) ^ places ≤ 10 ^ 15 := pow_le_pow_right₀ (by norm_num) hplaces
  have hfar : reachAbove 0 ≤ 1 / 2 ^ 53 := by
    rw [reachAbove_zero]
    exact one_div_le_one_div_of_le (by positivity) (pow_le_pow_right₀ one_le_two (by decide))
  have hhigh := hreach.high
  rw [Nat.cast_zero, zero_add, div_le_iff₀ hscale] at hhigh
  have hle : reachAbove 0 * 10 ^ places ≤ 1 / 2 ^ 53 * 10 ^ 15 :=
    mul_le_mul hfar hpow (le_of_lt hscale) (by positivity)
  linarith

/-- A fraction of few digits is out of the reach of every other number. -/
lemma not_inReach_of_pos {c places n : Nat} (hc : c < 10 ^ 15) (hn : 0 < n)
    (hne : c ≠ n * 10 ^ places) : ¬InReach n (c / 10 ^ places) := by
  intro hreach
  have hscale : (0 : ℚ) < 10 ^ places := by positivity
  have hsmall : (c : ℚ) < 10 ^ 15 := by exact_mod_cast hc
  have hlow := le_trans (sub_le_sub_left (reachBelow_le hn) _) hreach.low
  have hhigh := le_trans hreach.high (add_le_add_right (reachAbove_le hn) _)
  rw [le_div_iff₀ hscale] at hlow
  rw [div_le_iff₀ hscale] at hhigh
  have hcast : ((n * 10 ^ places : Nat) : ℚ) = n * 10 ^ places := by
    rw [Nat.cast_mul, Nat.cast_pow, Nat.cast_ofNat]
  -- The numerators differ by one at least, so that the whole number has more than 15 digits.
  rcases Nat.lt_or_gt_of_ne hne with hlt | hgt
  · have hstep : ((c + 1 : Nat) : ℚ) ≤ (n * 10 ^ places : Nat) := Nat.cast_le.mpr hlt
    rw [Nat.cast_succ, hcast] at hstep
    linarith
  · have hstep : ((n * 10 ^ places + 1 : Nat) : ℚ) ≤ c := Nat.cast_le.mpr hgt
    rw [Nat.cast_succ, hcast] at hstep
    linarith

/-- Fifteen digits are too few to come near a whole number without being one. -/
lemma NumeralValue.not_inReach {text : List Char} {q : ℚ} (h : NumeralValue text q)
    (hq : ∀ n : Nat, q ≠ n) (hlength : text.length ≤ 16) (n : Nat) : ¬InReach n q := by
  obtain ⟨c, places, rfl, hlt, hplaces⟩ := h.exists_digits hq hlength
  have hne : c ≠ n * 10 ^ places := by
    rintro rfl
    apply hq n
    rw [Nat.cast_mul, Nat.cast_pow, Nat.cast_ofNat]
    exact mul_div_cancel_right₀ _ (by positivity)
  rcases Nat.eq_zero_or_pos n with rfl | hpos
  · rw [Nat.zero_mul] at hne
    exact not_inReach_zero (Nat.pos_of_ne_zero hne) hplaces
  · exact not_inReach_of_pos hlt hpos hne

/-- What becomes of a numeral after the caret: it is the exponent that it is in reach of, also with
a fraction; it is too large if that is out of range; and it is refused for its fraction only if it
is in reach of no whole number, or so large that it is rounded to infinity. A fraction with no more
than fifteen digits is always noticed. -/
theorem readExponent_numeral {text : List Char} {q : ℚ} (h : NumeralValue text q) (start : Nat) :
    (∀ n, readExponent start ('^' :: text) = .ok n ↔ n ≤ maxExponent ∧ InReach n q) ∧
    (readExponent start ('^' :: text) =
        .error ⟨.malformedExponent text .tooLarge, [Span.ofText start ('^' :: text)]⟩ ↔
      q < 2 ^ 1024 - 2 ^ 970 ∧ ∃ n, maxExponent < n ∧ InReach n q) ∧
    (readExponent start ('^' :: text) =
        .error ⟨.malformedExponent text .fractional, [Span.ofText start ('^' :: text)]⟩ ↔
      2 ^ 1024 - 2 ^ 970 ≤ q ∨ ∀ n, ¬InReach n q) ∧
    ((∀ n : Nat, q ≠ n) → text.length ≤ 16 →
      readExponent start ('^' :: text) =
        .error ⟨.malformedExponent text .fractional, [Span.ofText start ('^' :: text)]⟩) := by
  refine ⟨?_, ?_, ?_, ?_⟩
  · intro n
    rw [readExponent_caret_eq_ok_iff]
    exact exponentOfText_eq_ok_iff_inReach h
  · rw [readExponent_caret_eq_error_iff]
    exact exponentOfText_eq_tooLarge_iff h
  · rw [readExponent_caret_eq_error_iff]
    exact exponentOfText_eq_fractional_iff h
  · intro hq hlength
    rw [readExponent_caret_eq_error_iff, exponentOfText_eq_fractional_iff h]
    exact .inr (h.not_inReach hq hlength)

/-- A short fraction is noticed. -/
theorem readExponent_short_fraction :
    NumeralValue "2.5".toList (2 + 5 / 10 ^ 1) ∧ (∀ n : Nat, (2 + 5 / 10 ^ 1 : ℚ) ≠ n) ∧
    readExponent 1 "^2.5".toList =
      .error ⟨.malformedExponent "2.5".toList .fractional, [Span.ofText 1 "^2.5".toList]⟩ := by
  have hvalue : NumeralValue "2.5".toList (2 + 5 / 10 ^ 1) :=
    @NumeralValue.pointed ['2'] ['5'] (by decide) (List.all_eq_true.mp (by decide))
      (List.all_eq_true.mp (by decide))
  have hfraction (n : Nat) : (2 + 5 / 10 ^ 1 : ℚ) ≠ n := by
    intro h
    have hdouble : ((5 : Nat) : ℚ) = (2 * n : Nat) := by
      rw [Nat.cast_mul, ← h]
      norm_num
    have hnat := Nat.cast_injective hdouble
    omega
  exact ⟨hvalue, hfraction, (readExponent_numeral hvalue 1).2.2.2 hfraction (by decide)⟩

/-- A fraction in the sixteenth place is lost. -/
theorem readExponent_lost_fraction :
    NumeralValue "2.0000000000000001".toList (2 + 1 / 10 ^ 16) ∧
    (∀ n : Nat, (2 + 1 / 10 ^ 16 : ℚ) ≠ n) ∧
    readExponent 1 "^2.0000000000000001".toList = .ok 2 := by
  refine ⟨?_, ?_, ?_⟩
  · exact @NumeralValue.pointed ['2'] "0000000000000001".toList (by decide)
      (List.all_eq_true.mp (by decide)) (List.all_eq_true.mp (by decide))
  · intro n h
    have hscaled : ((2 * 10 ^ 16 + 1 : Nat) : ℚ) = (10 ^ 16 * n : Nat) := by
      rw [Nat.cast_mul, ← h]
      norm_num
    have hnat := Nat.cast_injective hscaled
    omega
  · decide +kernel

end PowerRule
