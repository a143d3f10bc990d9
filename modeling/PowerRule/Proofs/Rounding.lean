import Mathlib.Tactic.Lemma
import PowerRule.Binary64

/-!
# Rounding is monotone

What `roundDiv` and `Binary64.roundUnits` do to quotients: neither sees by which fraction a quotient
is written (`roundDiv_mul_right`, `Binary64.roundUnits_mul_right`), and neither swaps two quotients
(`roundDiv_mono`, `Binary64.roundUnits_mono`). A quotient that is a magnitude is rounded to itself
(`Magnitude.ofRatio?_of_eq_mul`), and only zero is rounded to zero
(`Binary64.roundUnits_one_pos`).
-/

namespace PowerRule

/-- Rounding depends on the quotient, not on how it is written. -/
lemma roundDiv_mul_right (num den : Nat) {k : Nat} (hk : 0 < k) :
    roundDiv (num * k) (den * k) = roundDiv num den := by
  have hdiv : num * k / (den * k) = num / den := Nat.mul_div_mul_right _ _ hk
  have hmod : 2 * (num * k % (den * k)) = 2 * (num % den) * k := by
    rw [Nat.mul_mod_mul_right, Nat.mul_assoc]
  simp only [roundDiv, hdiv, hmod, Nat.mul_lt_mul_right hk]

/-- The floor is monotone in the quotient. -/
lemma floor_mono {a b c d : Nat} (hb : 0 < b) (hd : 0 < d) (h : a * d ≤ c * b) :
    a / b ≤ c / d := by
  rw [Nat.le_div_iff_mul_le hd]
  apply Nat.le_of_mul_le_mul_right _ hb
  calc a / b * d * b = a / b * b * d := Nat.mul_right_comm _ _ _
    _ ≤ a * d := Nat.mul_le_mul_right d (Nat.div_mul_le_self a b)
    _ ≤ c * b := h

/-- Rounding is monotone in the quotient. -/
lemma roundDiv_mono {a b c d : Nat} (hb : 0 < b) (hd : 0 < d) (h : a * d ≤ c * b) :
    roundDiv a b ≤ roundDiv c d := by
  have hfloor := floor_mono hb hd h
  rcases Nat.lt_or_eq_of_le hfloor with hlt | heq
  · calc roundDiv a b ≤ a / b + 1 := roundDiv_le a b
      _ ≤ c / d := hlt
      _ ≤ roundDiv c d := le_roundDiv c d
  · -- The floors agree, so the remainders decide, and they are ordered like the quotients.
    have ha := Nat.div_add_mod a b
    have hc := Nat.div_add_mod c d
    have hrem : a % b * d ≤ c % d * b := by
      have e1 : a * d = b * (a / b) * d + a % b * d := by rw [← Nat.add_mul, ha]
      have e2 : c * b = d * (c / d) * b + c % d * b := by rw [← Nat.add_mul, hc]
      have e3 : b * (a / b) * d = d * (c / d) * b := by
        rw [heq, Nat.mul_right_comm, Nat.mul_comm b d, Nat.mul_right_comm]
      omega
    have hhalf : 2 * (a % b) * d ≤ 2 * (c % d) * b := by
      rw [Nat.mul_assoc, Nat.mul_assoc]
      exact Nat.mul_le_mul_left 2 hrem
    simp only [roundDiv, heq]
    have up : b ≤ 2 * (a % b) → d ≤ 2 * (c % d) := by
      intro hle
      apply Nat.le_of_mul_le_mul_right _ hb
      calc d * b = b * d := Nat.mul_comm d b
        _ ≤ 2 * (a % b) * d := Nat.mul_le_mul_right d hle
        _ ≤ 2 * (c % d) * b := hhalf
    have strict : b < 2 * (a % b) → d < 2 * (c % d) := by
      intro hlt
      apply Nat.lt_of_mul_lt_mul_right (a := b)
      calc d * b = b * d := Nat.mul_comm d b
        _ < 2 * (a % b) * d := Nat.mul_lt_mul_of_pos_right hlt hd
        _ ≤ 2 * (c % d) * b := hhalf
    split <;> split <;> (try split) <;> (try split) <;> omega

namespace Binary64

/-- One is some units. -/
lemma one_pos : 0 < one := twoTo_pos 1074

/-- A spacing is positive. -/
lemma spacing_pos (units : Nat) : 0 < spacing units := twoTo_pos _

/-- The spacing rises. -/
lemma spacingLog_mono {m n : Nat} (h : m ≤ n) : spacingLog m ≤ spacingLog n := by
  apply Nat.sub_le_sub_right
  rcases Nat.eq_zero_or_pos m with hz | hpos
  · rw [hz, Nat.log2_zero]
    exact Nat.zero_le _
  · have hm : m ≠ 0 := Nat.pos_iff_ne_zero.mp hpos
    have hn : n ≠ 0 := by omega
    exact (le_log2_iff hn).mpr (Nat.le_trans ((le_log2_iff hm).mp (Nat.le_refl _)) h)

/-- Rounding goes at most to the next power of two. -/
lemma roundUnits_le_twoTo (num den : Nat) :
    roundUnits num den ≤ twoTo (53 + spacingLog (num / den)) := by
  rw [twoTo_add]
  exact Nat.mul_le_mul_right _ (roundDiv_spacing_le num den)

/-- Rounding does not go below the last power of two. -/
lemma twoTo_log2_le_roundUnits {num den : Nat} (h : 0 < num / den)
    (hlarge : 52 ≤ (num / den).log2) :
    twoTo (num / den).log2 ≤ roundUnits num den := by
  have hne : num / den ≠ 0 := Nat.pos_iff_ne_zero.mp h
  have hpow : twoTo (num / den).log2 = twoTo 52 * spacing (num / den) := by
    rw [spacing, ← twoTo_add, spacingLog]
    congr 1
    omega
  have hfloor : twoTo 52 ≤ num / den / spacing (num / den) := by
    rw [Nat.le_div_iff_mul_le (spacing_pos _), ← hpow]
    exact (le_log2_iff hne).mp (Nat.le_refl _)
  rw [hpow]
  apply Nat.mul_le_mul_right
  calc twoTo 52 ≤ num / den / spacing (num / den) := hfloor
    _ = num / (den * spacing (num / den)) := Nat.div_div_eq_div_mul _ _ _
    _ ≤ roundDiv num (den * spacing (num / den)) := le_roundDiv _ _

/-- Rounding to a magnitude depends on the quotient, not on how it is written. -/
lemma roundUnits_mul_right (num den : Nat) {k : Nat} (hk : 0 < k) :
    roundUnits (num * k) (den * k) = roundUnits num den := by
  have hdiv : num * k / (den * k) = num / den := Nat.mul_div_mul_right _ _ hk
  simp only [roundUnits, hdiv]
  rw [Nat.mul_right_comm den k, roundDiv_mul_right _ _ hk]

/-- Rounding to a magnitude is monotone in the quotient. -/
lemma roundUnits_mono {a b c d : Nat} (hb : 0 < b) (hd : 0 < d) (h : a * d ≤ c * b) :
    roundUnits a b ≤ roundUnits c d := by
  have hfloor := floor_mono hb hd h
  rcases Nat.lt_or_eq_of_le (spacingLog_mono hfloor) with hlt | heq
  · -- Between the two spacings lies a power of two, which neither rounding crosses.
    have hlog : 53 + spacingLog (a / b) ≤ (c / d).log2 := by
      unfold spacingLog at hlt ⊢
      omega
    have hpos : 0 < c / d := by
      rcases Nat.eq_zero_or_pos (c / d) with hz | hpos
      · rw [hz, Nat.log2_zero] at hlog
        omega
      · exact hpos
    calc roundUnits a b ≤ twoTo (53 + spacingLog (a / b)) := roundUnits_le_twoTo a b
      _ ≤ twoTo (c / d).log2 := twoTo_le hlog
      _ ≤ roundUnits c d := twoTo_log2_le_roundUnits hpos (by omega)
  · have hspacing : spacing (a / b) = spacing (c / d) := by rw [spacing, heq, spacing]
    simp only [roundUnits, hspacing]
    apply Nat.mul_le_mul_right
    have hs := spacing_pos (c / d)
    apply roundDiv_mono (Nat.mul_pos hb hs) (Nat.mul_pos hd hs)
    calc a * (d * spacing (c / d)) = a * d * spacing (c / d) := (Nat.mul_assoc _ _ _).symm
      _ ≤ c * b * spacing (c / d) := Nat.mul_le_mul_right _ h
      _ = c * (b * spacing (c / d)) := Nat.mul_assoc _ _ _

/-- Only zero units are rounded to zero. -/
lemma roundUnits_one_pos {units : Nat} (h : 0 < units) : 0 < roundUnits units 1 := by
  have hone : roundUnits 1 1 = 1 := roundUnits_self (by decide)
  have hmono : roundUnits 1 1 ≤ roundUnits units 1 :=
    roundUnits_mono Nat.one_pos Nat.one_pos (by omega)
  omega

end Binary64

namespace Magnitude

/-- Magnitudes of the same units are the same. -/
lemma ext {a b : Magnitude} (h : a.units = b.units) : a = b := by
  cases a
  cases b
  cases h
  rfl

/-- The units of a rounded quotient. -/
lemma units_of_ofRatio? {num den : Nat} {m : Magnitude} (h : ofRatio? num den = some m) :
    m.units = Binary64.roundUnits num den := by
  unfold ofRatio? at h
  split at h
  · cases h
    rfl
  · cases h

/-- A quotient that is rounded below the bound has a nearest magnitude. -/
lemma ofRatio?_isSome {num den : Nat} (h : Binary64.roundUnits num den < Binary64.bound) :
    (ofRatio? num den).isSome := by
  simp [ofRatio?, h]

/-- Equal quotients have the same nearest magnitude. -/
lemma ofRatio?_mul_right (num den : Nat) {k : Nat} (hk : 0 < k) :
    ofRatio? (num * k) (den * k) = ofRatio? num den := by
  simp only [ofRatio?, Binary64.roundUnits_mul_right num den hk]

/-- The nearest magnitude to a quotient depends on its value only. -/
lemma ofRatio?_congr {a b c d : Nat} (hb : 0 < b) (hd : 0 < d) (h : a * d = c * b) :
    ofRatio? a b = ofRatio? c d := by
  rw [← ofRatio?_mul_right a b hd, ← ofRatio?_mul_right c d hb, h, Nat.mul_comm b d]

/-- A quotient that is a magnitude is read as it. -/
lemma ofRatio?_of_eq_mul {num den : Nat} {m : Magnitude} (hden : 0 < den)
    (hnum : num = m.units * den) :
    ofRatio? num den = some m := by
  have h := ofRatio?_mul_right m.units 1 hden
  rw [Nat.one_mul, ← hnum] at h
  rw [h]
  exact ofRatio?_self m

end Magnitude

namespace Binary64

/-- A quotient that is rounded to a magnitude is finite. -/
lemma ofRatio_of_some {num den : Nat} {m : Magnitude} (h : Magnitude.ofRatio? num den = some m)
    (sign : Sign) :
    ofRatio sign num den = finite sign m := by
  unfold ofRatio
  rw [h]

/-- One that is not is infinite. -/
lemma ofRatio_of_none {num den : Nat} (h : Magnitude.ofRatio? num den = none) (sign : Sign) :
    ofRatio sign num den = infinite sign := by
  unfold ofRatio
  rw [h]

/-- A quotient of whole units that is rounded to zero is zero. -/
lemma eq_zero_of_isZero_ofRatio {sign : Sign} {num : Nat}
    (h : (ofRatio sign num 1).isZero = true) :
    num = 0 := by
  rcases Nat.eq_zero_or_pos num with hz | hpos
  · exact hz
  · have hround := roundUnits_one_pos hpos
    cases hm : Magnitude.ofRatio? num 1 with
    | none =>
      rw [ofRatio_of_none hm] at h
      cases h
    | some m =>
      rw [ofRatio_of_some hm] at h
      have hunits : m.units = 0 := beq_iff_eq.mp h
      rw [Magnitude.units_of_ofRatio? hm] at hunits
      omega

end Binary64

end PowerRule
