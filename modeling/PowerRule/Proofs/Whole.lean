import Mathlib.Tactic.Lemma
import PowerRule.Expression
import PowerRule.Proofs.DecimalText
import PowerRule.Proofs.Reading

/-!
# Arithmetic with whole numbers

Whole numbers up to two to the power of 53 are read, multiplied, added and written without rounding.
A coefficient times an exponent is rounded once, and only a product with zero is zero.
-/

namespace PowerRule

/-! ## Whole numbers are exact

Whole numbers up to two to the power of 53 are magnitudes (`Magnitude.whole`). Reading, multiplying
and adding them is exact (`Decimal.Denotes.nearest?_eq`, `Binary64.mul_whole`,
`Binary64.add_whole`), and the shortest decimal of one is the number itself
(`Decimal.text_shortest_whole`).
-/

/-- The largest whole number up to which all are magnitudes. -/
def maxWhole : Nat := twoTo 53

/-- All exponents that are allowed are whole numbers without rounding. -/
lemma maxExponent_le_maxWhole : maxExponent ≤ maxWhole := by decide

/-- Ten to the power of `k` has more than `k` digits. -/
lemma le_length_toDigits {n : Nat} (hn : 0 < n) (k : Nat) :
    k ≤ (Nat.toDigits 10 (n * tenTo k)).length := by
  by_contra hlt
  have hk : 0 < k := by omega
  have hbelow : n * tenTo k < tenTo k :=
    (Nat.length_toDigits_le_iff (by decide) hk).mp (by omega)
  exact Nat.lt_irrefl _ (Nat.lt_of_le_of_lt (Nat.le_mul_of_pos_left _ hn) hbelow)

-- Larger powers are reasoned about by their laws and never computed.
attribute [local irreducible] twoTo fiveTo tenTo

namespace Magnitude

/-- A whole number as a magnitude. -/
def whole (n : Nat) (h : n ≤ maxWhole) : Magnitude where
  units := n * Binary64.one
  representable := {
    spaced := Binary64.spacing_dvd_mul_twoTo h 1074
    bounded := by
      have hle : n * Binary64.one ≤ twoTo 1127 := by
        rw [show (1127 : Nat) = 53 + 1074 from rfl, twoTo_add]
        exact Nat.mul_le_mul_right _ h
      exact Nat.lt_of_le_of_lt hle (twoTo_lt (by decide)) }

/-- A whole number in units. -/
lemma units_whole {n : Nat} (h : n ≤ maxWhole) : (whole n h).units = n * Binary64.one := rfl

/-- One is a whole number. -/
lemma one_eq_whole : Magnitude.one = whole 1 (twoTo_pos 53) := rfl

/-- A magnitude is a whole number if it is so many units. -/
lemma toNat?_eq_some_iff {m : Magnitude} {n : Nat} :
    m.toNat? = some n ↔ m.units = n * Binary64.one := by
  unfold toNat?
  constructor
  · intro h
    split at h
    · rename_i hdvd
      rw [← Option.some.inj h, Nat.div_mul_cancel hdvd]
    · cases h
  · intro h
    rw [if_pos (h ▸ Nat.dvd_mul_left _ _), h, Nat.mul_div_cancel _ Binary64.one_pos]

/-- A whole number is that number. -/
lemma toNat?_whole {n : Nat} (h : n ≤ maxWhole) : (whole n h).toNat? = some n :=
  toNat?_eq_some_iff.mpr rfl

/-- A quotient that is whole is not rounded. -/
lemma ofRatio?_eq_whole {num den n : Nat} (h : n ≤ maxWhole) (hden : 0 < den)
    (hnum : num = n * Binary64.one * den) :
    ofRatio? num den = some (whole n h) :=
  ofRatio?_of_eq_mul hden hnum

end Magnitude

namespace Decimal

/-- A whole number in range is read exactly, however it is written. -/
lemma Denotes.nearest?_eq {d : Decimal} {n : Nat} (hd : d.Denotes n) (h : n ≤ maxWhole) :
    d.nearest? = some (Magnitude.whole n h) := by
  apply Magnitude.ofRatio?_eq_whole h (tenTo_pos _)
  rw [hd, Nat.mul_right_comm]

/-- A number without places denotes itself. -/
lemma denotes_whole (n : Nat) : Denotes ⟨n, 0⟩ n := by
  rw [Denotes, tenTo_zero, Nat.mul_one]

/-! ### The shortest decimal -/

/-- The first even number above the range is a multiple of its spacing. -/
lemma spacing_dvd_above : Binary64.spacing ((maxWhole + 2) * Binary64.one) ∣
    (maxWhole + 2) * Binary64.one := by
  have hshift : (maxWhole + 2) * Binary64.one = (twoTo 52 + 1) * twoTo 1075 := by
    rw [maxWhole, Binary64.one, twoTo_succ 52, twoTo_succ 1074, Nat.mul_comm (twoTo 1074),
      ← Nat.mul_assoc, Nat.add_mul _ 1 2]
  have hle : twoTo 52 + 1 ≤ twoTo 53 := twoTo_lt (by decide)
  rw [hshift]
  exact Binary64.spacing_dvd_mul_twoTo hle 1075

/-- Among even numbers, none but itself is read as a whole number in range. -/
lemma eq_of_nearest?_eq_whole {k n : Nat} (h : n ≤ maxWhole) (heven : 2 ∣ k)
    (hback : (Decimal.mk k 0).nearest? = some (Magnitude.whole n h)) :
    k = n := by
  by_cases hk : k ≤ maxWhole
  -- In range both numbers are read as themselves.
  · rw [(denotes_whole k).nearest?_eq hk] at hback
    have hunits : k * Binary64.one = n * Binary64.one :=
      congrArg Magnitude.units (Option.some.inj hback)
    exact Nat.eq_of_mul_eq_mul_right Binary64.one_pos hunits
  -- Above it an even number is at least `maxWhole + 2`, which is a magnitude and stays above.
  · have hwhole : 2 ∣ maxWhole := ⟨twoTo 52, by rw [maxWhole, twoTo_succ 52, Nat.mul_comm]⟩
    have hunits : n * Binary64.one = Binary64.roundUnits (k * Binary64.one) (tenTo 0) :=
      Magnitude.units_of_ofRatio? hback
    have hround := Binary64.roundUnits_self spacing_dvd_above
    have hmono : Binary64.roundUnits ((maxWhole + 2) * Binary64.one) 1 ≤
        Binary64.roundUnits (k * Binary64.one) (tenTo 0) := by
      apply Binary64.roundUnits_mono Nat.one_pos (tenTo_pos 0)
      rw [tenTo_zero]
      exact Nat.mul_le_mul_right 1 (Nat.mul_le_mul_right _ (by omega))
    rw [hround, ← hunits] at hmono
    have hle := Nat.le_of_mul_le_mul_right hmono Binary64.one_pos
    omega

section

variable {n : Nat} (h : n ≤ maxWhole)

/-- A whole number in the finest steps of decimals. -/
lemma finestSteps_whole : finestSteps (Magnitude.whole n h) = n * tenTo 1074 := by
  rw [finestSteps, Magnitude.units_whole, Binary64.one, Nat.mul_assoc, Nat.mul_comm (twoTo 1074),
    fiveTo_mul_twoTo]

/-- On the grid of whole numbers the number itself is taken. -/
lemma readingBackOn_whole : readingBackOn (Magnitude.whole n h) 1074 = some ⟨n, 0⟩ := by
  have hgrid : ofGrid 1074 n = ⟨n, 0⟩ := rfl
  have hback := (denotes_whole n).nearest?_eq h
  have hwidth : ¬tenTo 1074 ≤ 2 * 0 := Nat.not_le_of_lt (tenTo_pos 1074)
  simp only [readingBackOn, finestSteps_whole, Nat.mul_div_cancel _ (tenTo_pos 1074),
    Nat.mul_mod_left, hgrid, hback, if_true, hwidth, and_false, if_false]

/-- On coarser grids nothing else reads back. -/
lemma eq_of_readingBackOn_whole {grid : Nat} (hgrid : 1074 < grid) {d : Decimal}
    (hd : readingBackOn (Magnitude.whole n h) grid = some d) :
    d = ⟨n, 0⟩ := by
  obtain ⟨⟨k, rfl⟩, hback⟩ := readingBackOn_eq_some hd
  obtain ⟨j, rfl⟩ := Nat.exists_eq_add_of_lt hgrid
  rw [ofGrid, if_neg (by omega)] at hback ⊢
  have heven : 2 ∣ k * tenTo (1074 + j + 1 - 1074) := by
    apply Nat.dvd_mul_left_of_dvd
    rw [Nat.add_assoc, Nat.add_sub_cancel_left, tenTo_succ]
    exact Nat.dvd_mul_left_of_dvd ⟨5, rfl⟩ _
  rw [eq_of_nearest?_eq_whole h heven hback]

/-- The shortest decimal of a whole number has no places. -/
lemma shortestFrom_whole {grid : Nat} (hgrid : 1074 ≤ grid) :
    shortestFrom (Magnitude.whole n h) grid = ⟨n, 0⟩ := by
  -- The search comes down from a coarse grid and cannot pass the grid of whole numbers.
  induction grid, hgrid using Nat.le_induction with
  | base =>
    rw [show (1074 : Nat) = 1073 + 1 from rfl, shortestFrom, readingBackOn_whole]
    rfl
  | succ grid hgrid ih =>
    rw [shortestFrom]
    cases hd : readingBackOn (Magnitude.whole n h) (grid + 1) with
    | none => exact ih
    | some d => exact eq_of_readingBackOn_whole h (by omega) hd

/-- The shortest decimal of a whole number in range is the number itself. -/
theorem text_shortest_whole (hn : 0 < n) :
    (shortest (Magnitude.whole n h)).text = Nat.toDigits 10 n := by
  have hlength : 1074 ≤ (Nat.toDigits 10 (finestSteps (Magnitude.whole n h))).length := by
    rw [finestSteps_whole]
    exact le_length_toDigits hn 1074
  rw [shortest, shortestFrom_whole h hlength]
  rfl

end

end Decimal

/-! ### Arithmetic -/

/-- One, with the sign. -/
def Sign.factor : Sign → Int
  | positive => 1
  | negative => -1

/-- A sign does not change how large a number is. -/
lemma Sign.natAbs_factor_mul (s : Sign) (n : Nat) : (s.factor * n).natAbs = n := by
  cases s with
  | positive => simp [factor]
  | negative => simp [factor]

namespace Binary64

/-- The value of a number, if it is a whole number. -/
def toInt? : Binary64 → Option Int
  | finite s m => m.toNat?.map fun n : Nat => s.factor * n
  | _ => none

/-- A number is an integer if its magnitude is whole. -/
lemma toInt?_eq_some_iff {x : Binary64} {z : Int} :
    x.toInt? = some z ↔
      ∃ s m, x = finite s m ∧ ∃ n : Nat, m.units = n * one ∧ s.factor * n = z := by
  constructor
  · intro h
    cases x with
    | nan => cases h
    | infinite s => cases h
    | finite s m =>
      obtain ⟨n, hn, hz⟩ := Option.map_eq_some_iff.mp h
      exact ⟨s, m, rfl, n, Magnitude.toNat?_eq_some_iff.mp hn, hz⟩
  · rintro ⟨s, m, rfl, n, hn, rfl⟩
    rw [toInt?, Magnitude.toNat?_eq_some_iff.mpr hn]
    rfl

/-- An integer is finite. -/
lemma isFinite_of_toInt? {x : Binary64} {z : Int} (h : x.toInt? = some z) :
    x.isFinite = true := by
  obtain ⟨s, m, rfl, _⟩ := toInt?_eq_some_iff.mp h
  rfl

/-- No units are zero. -/
lemma mul_one_eq_zero_iff {n : Nat} : n * one = 0 ↔ n = 0 := by
  rw [Nat.mul_eq_zero, or_iff_left (Nat.pos_iff_ne_zero.mp one_pos)]

/-- An integer is zero as a number exactly if it is zero. -/
lemma isZero_of_toInt? {x : Binary64} {z : Int} (h : x.toInt? = some z) :
    x.isZero = true ↔ z = 0 := by
  obtain ⟨s, m, rfl, n, hunits, rfl⟩ := toInt?_eq_some_iff.mp h
  rw [← Int.natAbs_eq_zero, Sign.natAbs_factor_mul, isZero, beq_iff_eq, hunits,
    mul_one_eq_zero_iff]

/-- It is negative as a number exactly if it is negative. -/
lemma isNegative_of_toInt? {x : Binary64} {z : Int} (h : x.toInt? = some z) :
    x.isNegative = true ↔ z < 0 := by
  obtain ⟨s, m, rfl, n, hunits, rfl⟩ := toInt?_eq_some_iff.mp h
  have hzero : m.units = 0 ↔ n = 0 := by rw [hunits, mul_one_eq_zero_iff]
  cases s with
  | positive => simp [isNegative, Sign.factor]
  | negative =>
    simp only [isNegative, Sign.factor, beq_self_eq_true, Bool.true_and, bne_iff_ne, ne_eq, hzero]
    omega

/-- Whole numbers in range are not rounded. -/
lemma ofRatio_whole (s : Sign) {n : Nat} (h : n ≤ maxWhole) :
    ofRatio s (n * one) 1 = finite s (Magnitude.whole n h) :=
  ofRatio_of_some (Magnitude.ofRatio?_eq_whole h Nat.one_pos (Nat.mul_one _).symm) s

/-- A whole number with a sign is that integer. -/
lemma toInt?_ofRatio (s : Sign) {n : Nat} (h : n ≤ maxWhole) :
    (ofRatio s (n * one) 1).toInt? = some (s.factor * n) := by
  rw [ofRatio_whole s h]
  exact toInt?_eq_some_iff.mpr ⟨s, _, rfl, n, rfl, rfl⟩

/-- Products of whole numbers in range are exact. -/
theorem mul_whole (s : Sign) {a n : Nat} (ha : a ≤ maxWhole) (hn : n ≤ maxWhole)
    (h : a * n ≤ maxWhole) :
    (finite s (Magnitude.whole a ha) * ofNat n).toInt? = some (s.factor * (a * n : Nat)) := by
  have hnat : ofNat n = finite .positive (Magnitude.whole n hn) := ofRatio_whole .positive hn
  have hproduct : finite s (Magnitude.whole a ha) * finite .positive (Magnitude.whole n hn) =
      finite s (Magnitude.whole (a * n) h) := by
    show ofRatio (s.times .positive) (a * one * (n * one)) one = _
    rw [Sign.times_positive]
    apply ofRatio_of_some
    apply Magnitude.ofRatio?_eq_whole h one_pos
    rw [Nat.mul_mul_mul_comm, ← Nat.mul_assoc]
  rw [hnat, hproduct]
  exact toInt?_eq_some_iff.mpr ⟨s, _, rfl, a * n, rfl, rfl⟩

/-- The sum of whole numbers is not rounded. -/
lemma addFinite_whole (s t : Sign) {a b : Magnitude} {m n : Nat} (ha : a.units = m * one)
    (hb : b.units = n * one) (h : (s.factor * m + t.factor * n).natAbs ≤ maxWhole) :
    (addFinite s a t b).toInt? = some (s.factor * m + t.factor * n) := by
  have hone := one_pos
  rw [addFinite, ha, hb]
  -- Equal signs add the magnitudes; opposite ones subtract the smaller from the larger.
  by_cases hst : s = t
  · subst hst
    have hsum : s.factor * m + s.factor * n = s.factor * (m + n : Nat) := by
      rw [Int.natCast_add, Int.mul_add]
    rw [hsum, Sign.natAbs_factor_mul] at h
    rw [if_pos rfl, ← Nat.add_mul, toInt?_ofRatio s h, hsum]
  · have hfactor : t.factor = -s.factor := by
      cases s <;> cases t <;> first | rfl | exact absurd rfl hst
    have hdifference : s.factor * m + t.factor * n = s.factor * ((m : Int) - n) := by
      rw [hfactor, Int.mul_sub, Int.neg_mul, Int.sub_eq_add_neg]
    have hflip : s.factor * ((m : Int) - n) = t.factor * ((n : Int) - m) := by
      rw [hfactor, Int.neg_mul, ← Int.mul_neg, Int.neg_sub]
    rw [hdifference] at h ⊢
    rw [if_neg hst]
    rcases Nat.lt_trichotomy m n with hlt | rfl | hlt
    · have hunits := Nat.mul_lt_mul_of_pos_right hlt hone
      rw [hflip, ← Int.natCast_sub (Nat.le_of_lt hlt)] at h ⊢
      rw [Sign.natAbs_factor_mul] at h
      rw [if_neg (Nat.ne_of_lt hunits), if_neg (Nat.not_lt_of_lt hunits), ← Nat.sub_mul,
        toInt?_ofRatio t h]
    · rw [if_pos rfl, Int.sub_self, Int.mul_zero]
      exact toInt?_eq_some_iff.mpr ⟨.positive, .zero, rfl, 0, (Nat.zero_mul _).symm, rfl⟩
    · have hunits := Nat.mul_lt_mul_of_pos_right hlt hone
      rw [← Int.natCast_sub (Nat.le_of_lt hlt)] at h ⊢
      rw [Sign.natAbs_factor_mul] at h
      rw [if_neg (Nat.ne_of_gt hunits), if_pos hunits, ← Nat.sub_mul, toInt?_ofRatio s h]

/-- A sum of whole numbers is exact if it is in range. -/
theorem add_whole {x y : Binary64} {v w : Int} (hx : x.toInt? = some v) (hy : y.toInt? = some w)
    (h : (v + w).natAbs ≤ maxWhole) :
    (x + y).toInt? = some (v + w) := by
  obtain ⟨s, a, rfl, m, ha, rfl⟩ := toInt?_eq_some_iff.mp hx
  obtain ⟨t, b, rfl, n, hb, rfl⟩ := toInt?_eq_some_iff.mp hy
  exact addFinite_whole s t ha hb h

/-- The text of a whole number without its sign is its digits. -/
lemma formatNumber_abs_whole {x : Binary64} {z : Int} (hx : x.toInt? = some z) (hz : z ≠ 0)
    (h : z.natAbs ≤ maxWhole) :
    formatNumber none x.abs = Nat.toDigits 10 z.natAbs := by
  obtain ⟨s, m, rfl, n, hunits, rfl⟩ := toInt?_eq_some_iff.mp hx
  rw [Sign.natAbs_factor_mul] at h ⊢
  have hn : 0 < n := by
    rcases Nat.eq_zero_or_pos n with rfl | hn
    · simp at hz
    · exact hn
  have hm : m = Magnitude.whole n h := Magnitude.ext hunits
  rw [hm]
  exact (formatNumber_positive none _).trans (Decimal.text_shortest_whole h hn)

end Binary64

/-- Digits are read as the exponent that they are written for. -/
lemma exponentOfText_toDigits {n : Nat} (h : n ≤ maxExponent) :
    exponentOfText (Nat.toDigits 10 n) = .ok n := by
  have hmax : n ≤ maxWhole := Nat.le_trans h maxExponent_le_maxWhole
  have hn : Numeral (Nat.toDigits 10 n) := .whole Nat.toDigits_ne_nil (Digits.toDigits n)
  have hnearest := (Decimal.denotes_whole n).nearest?_eq hmax
  rw [exponentOfText_eq_ok_iff]
  refine ⟨hn, h, ?_⟩
  rw [Decimal.ofNumeral_toDigits, hnearest, Option.bind_some, Magnitude.toNat?_whole]

/-! ## Products with exponents

A coefficient times an exponent is rounded once (`Binary64.mul_ofNat`). A product with zero is zero
(`Binary64.mul_ofNat_of_isZero`) and does not overflow; any other coefficient is not lost by the
rounding (`Binary64.isZero_mul_ofNat`).
-/

namespace Binary64

/-- Quotients that are rounded alike are the same numbers. -/
lemma ofRatio_congr {a b c d : Nat} (h : Magnitude.ofRatio? a b = Magnitude.ofRatio? c d)
    (s : Sign) :
    ofRatio s a b = ofRatio s c d := by
  unfold ofRatio
  rw [h]

/-- Times a whole number, the units are multiplied and rounded. -/
lemma mul_ofNat (s : Sign) (a : Magnitude) {n : Nat} (h : n ≤ maxWhole) :
    finite s a * ofNat n = ofRatio s (a.units * n) 1 := by
  have hnat : ofNat n = finite .positive (Magnitude.whole n h) := ofRatio_whole .positive h
  rw [hnat]
  show ofRatio (s.times .positive) (a.units * (n * one)) one = _
  rw [Sign.times_positive]
  apply ofRatio_congr
  apply Magnitude.ofRatio?_congr one_pos Nat.one_pos
  rw [Nat.mul_one, Nat.mul_assoc]

/-- Zero times an exponent is zero. -/
lemma mul_ofNat_of_isZero {x : Binary64} (hx : x.isZero = true) {n : Nat} (h : n ≤ maxWhole) :
    ∃ s, x * ofNat n = finite s .zero := by
  cases x with
  | nan => cases hx
  | infinite s => cases hx
  | finite s a =>
    have hunits : a.units = 0 := beq_iff_eq.mp hx
    refine ⟨s, ?_⟩
    rw [mul_ofNat s a h, hunits, Nat.zero_mul]
    exact ofRatio_of_some (Magnitude.ofRatio?_self .zero) s

/-- A number is not lost when it is multiplied by an exponent. -/
lemma isZero_mul_ofNat {x : Binary64} (hfinite : x.isFinite = true) (hx : x.isZero = false)
    {n : Nat} (hpos : 0 < n) (h : n ≤ maxWhole) :
    (x * ofNat n).isZero = false := by
  cases x with
  | nan => cases hfinite
  | infinite s => cases hfinite
  | finite s a =>
    rw [← Bool.not_eq_true]
    intro hzero
    rw [mul_ofNat s a h] at hzero
    have hunits : a.units = 0 :=
      (Nat.mul_eq_zero.mp (eq_zero_of_isZero_ofRatio hzero)).resolve_right
        (Nat.pos_iff_ne_zero.mp hpos)
    have hne : a.units ≠ 0 := by simpa [isZero] using hx
    exact hne hunits

end Binary64

end PowerRule
