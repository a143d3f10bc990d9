import PowerRule.Proofs.Places

/-!
# Texts of numbers are stable

A number is written, read, and written again: the second text is the first one
(`formatNumber_reread`). With a precision the number that is read may be another one. But it is the
nearest one to the written decimal, so it is no further from it than the number that was rounded to
this decimal, and is rounded to it as well (`Decimal.fixed_of_roundsTo`).
-/

namespace PowerRule

attribute [local irreducible] twoTo fiveTo tenTo

/-! ## Rounding twice -/

namespace Decimal

/-- A distance from a decimal, in steps of its last place. -/
lemma abs_coefficient_sub (d : Decimal) (x : ℚ) :
    |(d.coefficient : ℚ) - x * 10 ^ d.places| = |x - d.value| * 10 ^ d.places := by
  have hscale : (0 : ℚ) < 10 ^ d.places := by positivity
  have hsteps : (d.coefficient : ℚ) - x * 10 ^ d.places = -((x - d.value) * 10 ^ d.places) := by
    rw [value, sub_mul, div_mul_cancel₀ _ (ne_of_gt hscale), neg_sub]
  rw [hsteps, abs_neg, abs_mul, abs_of_pos hscale]

/-- What the rounded decimal is read as is rounded to the same decimal. -/
theorem fixed_of_roundsTo {m r : Magnitude} {places : Nat}
    (hr : RoundsTo (fixed m places).value r) :
    fixed r places = fixed m places := by
  obtain ⟨herror, heven⟩ := fixed_error m places
  have hdistance (x : ℚ) : |((fixed m places).coefficient : ℚ) - x * 10 ^ places| =
      |x - (fixed m places).value| * 10 ^ places := abs_coefficient_sub (fixed m places) x
  have hcloser : |((fixed m places).coefficient : ℚ) - r.value * 10 ^ places| ≤
      |((fixed m places).coefficient : ℚ) - m.value * 10 ^ places| := by
    rw [hdistance, hdistance]
    exact mul_le_mul_of_nonneg_right (hr.nearest m) (by positivity)
  apply fixed_eq_of_nearest
  · exact le_trans hcloser herror
  · intro htie
    -- A tie of what is read is also one of the first number, which was rounded to even.
    exact heven (le_antisymm herror (htie ▸ hcloser))

/-- A rounded number has the value that is written to so many places. -/
lemma value_rounded (m : Magnitude) (places : Nat) :
    (rounded m places).value = (fixed m places).value := by
  have hrounded := (numeralValue_text (rounded m places)).value_eq
  have hfixed := (numeralValue_text (fixed m places)).value_eq
  rw [hrounded, hfixed, text_rounded]

/-- The text of a magnitude is also that of what the text is read as. -/
lemma text_ofMagnitude {precision : Option Nat} {m r : Magnitude}
    (h : (ofMagnitude precision m).nearest? = some r) :
    (ofMagnitude precision r).text = (ofMagnitude precision m).text := by
  cases precision with
  | none =>
    have hback : (ofMagnitude none m).nearest? = some m := nearest?_shortest m
    rw [hback] at h
    rw [Option.some.inj h]
  | some places =>
    have hround : RoundsTo (rounded m places).value r := roundsTo_of_nearest? h
    rw [value_rounded] at hround
    show (rounded r places).text = (rounded m places).text
    rw [text_rounded, text_rounded, fixed_of_roundsTo hround]

/-- Zero is read as zero. -/
lemma nearest?_of_isZero {d : Decimal} (h : d.isZero = true) : d.nearest? = some .zero := by
  apply Magnitude.ofRatio?_of_eq_mul (tenTo_pos _)
  rw [beq_iff_eq.mp h, Nat.zero_mul]
  exact (Nat.zero_mul _).symm

/-- The shortest decimal is zero exactly if the magnitude is. -/
lemma isZero_shortest_iff {m : Magnitude} : (shortest m).isZero = true ↔ m.units = 0 := by
  constructor
  · intro h
    have hzero := nearest?_of_isZero h
    rw [nearest?_shortest] at hzero
    exact congrArg Magnitude.units (Option.some.inj hzero)
  · intro h
    exact isZero_ofMagnitude h none

end Decimal

/-! ## Reading numbers -/

/-- The number that a numeral stands for, which may have a sign. No other text is read. -/
def Binary64.ofText? : List Char → Option Binary64
  | '-' :: digits => (Decimal.ofText? digits).map fun d => -d.toBinary64
  | '+' :: digits => (Decimal.ofText? digits).map Decimal.toBinary64
  | digits => (Decimal.ofText? digits).map Decimal.toBinary64

namespace Binary64

/-- A numeral is read as the number of its decimal. -/
lemma ofText?_of_numeral {text : List Char} (h : Numeral text) :
    ofText? text = (Decimal.ofText? text).map Decimal.toBinary64 := by
  unfold ofText?
  split
  · exact absurd (.inr rfl) (h.not_isSignMark List.mem_cons_self)
  · exact absurd (.inl rfl) (h.not_isSignMark List.mem_cons_self)
  · rfl

/-- A decimal with a sign is read as the nearest magnitude with this sign. -/
lemma ofText?_mark (s : Sign) {d : Decimal} {r : Magnitude} (h : d.nearest? = some r) :
    ofText? (s.mark ++ d.text) = some (.finite s r) := by
  have hnumeral := Decimal.numeral_text d
  have hread : Decimal.ofText? d.text = some (Decimal.trim d.coefficient d.places) := by
    rw [hnumeral.ofText?_eq, Decimal.ofNumeral_text]
  have hnumber : (Decimal.trim d.coefficient d.places).toBinary64 = .finite .positive r := by
    apply ofRatio_of_some
    show (Decimal.trim d.coefficient d.places).nearest? = some r
    rw [Decimal.nearest?_trim, h]
  cases s with
  | positive =>
    rw [Sign.mark, List.nil_append, ofText?_of_numeral hnumeral, hread, Option.map_some, hnumber]
  | negative =>
    show (Decimal.ofText? d.text).map _ = _
    rw [hread, Option.map_some, hnumber]
    rfl

end Binary64

/-! ## Writing what was read -/

/-- The sign that is written: zero has none. -/
def Decimal.writtenSign (s : Sign) (d : Decimal) : Sign := if d.isZero then .positive else s

/-- A number is written with its sign unless it is zero. -/
lemma withoutZeroSign_eq_mark (s : Sign) (d : Decimal) :
    withoutZeroSign (s.mark ++ d.text) = (d.writtenSign s).mark ++ d.text := by
  rw [withoutZeroSign_mark, Decimal.writtenSign]
  split
  · rename_i hzero
    exact (Decimal.text_of_isZero hzero).symm
  · rfl

/-- The sign of zero is left out once. -/
lemma withoutZeroSign_idem (text : List Char) :
    withoutZeroSign (withoutZeroSign text) = withoutZeroSign text :=
  if_neg (withoutZeroSign_ne text)

/-- The text of a finite number is read as a finite number with the same text. Without a precision
that is the number itself, but for the negative zero, which becomes the positive one. -/
theorem formatNumber_reread (precision : Option Nat) (s : Sign) (m : Magnitude) :
    ∃ t r, Binary64.ofText? (formatNumber precision (.finite s m)) = some (.finite t r) ∧
      formatNumber precision (.finite t r) = formatNumber precision (.finite s m) ∧
      (precision = none →
        Binary64.finite t r = if m.units = 0 then .zero else .finite s m) := by
  obtain ⟨r, hr⟩ := Option.isSome_iff_exists.mp (nearest?_ofMagnitude_isSome precision m)
  have htext : formatNumber precision (.finite s m) =
      ((Decimal.ofMagnitude precision m).writtenSign s).mark ++
        (Decimal.ofMagnitude precision m).text := by
    rw [formatNumber_finite, withoutZeroSign_eq_mark]
  refine ⟨(Decimal.ofMagnitude precision m).writtenSign s, r, ?_, ?_, ?_⟩
  · rw [htext]
    exact Binary64.ofText?_mark _ hr
  · rw [formatNumber_finite, Decimal.text_ofMagnitude hr, ← withoutZeroSign_eq_mark,
      withoutZeroSign_idem, formatNumber_finite]
  · rintro rfl
    have hback : (Decimal.ofMagnitude none m).nearest? = some m := Decimal.nearest?_shortest m
    rw [hback] at hr
    rw [← Option.some.inj hr, Decimal.writtenSign]
    show Binary64.finite (if (Decimal.shortest m).isZero then .positive else s) m = _
    simp only [Decimal.isZero_shortest_iff]
    split
    · rename_i hzero
      rw [Magnitude.ext (b := .zero) hzero]
      rfl
    · rfl

/-- The magnitude nearest to a third. -/
def third : Magnitude := (Magnitude.ofRatio? Binary64.one 3).getD .zero

/-- The negative zero is read without its sign. A third that was rounded to two places is read as
another number, which rounded to two places has the same text. -/
theorem formatNumber_reread_third :
    Binary64.ofText? (formatNumber none (.finite .negative .zero)) = some .zero ∧
    ∃ y, Binary64.ofText? (formatNumber (some 2) (.finite .negative third)) = some y ∧
      y ≠ .finite .negative third ∧ formatNumber (some 2) y = "-0.33".toList := by
  obtain ⟨t, r, hzero, _, hvalue⟩ := formatNumber_reread none .negative .zero
  obtain ⟨u, q, hread, hsame, _⟩ := formatNumber_reread (some 2) .negative third
  have hother : Binary64.ofText? (formatNumber (some 2) (.finite .negative third)) ≠
      some (.finite .negative third) := by
    decide +kernel
  refine ⟨?_, _, hread, ?_, ?_⟩
  · rw [hzero, hvalue rfl]
    rfl
  · rintro heq
    exact hother (heq ▸ hread)
  · rw [hsame]
    decide +kernel

end PowerRule
