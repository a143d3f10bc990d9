import PowerRule.Proofs.TermGrammar
import PowerRule.Proofs.Trimming

/-!
# Numbers rounded to places

What is written for a number with a precision, without digits being computed: a text without
superfluous zeros (`TrimmedText`), which stands for the number rounded to so many decimal places, a
tie going to the even last digit (`RoundedTo`). `formatNumber_places` says this of every number.
-/

namespace PowerRule

attribute [local irreducible] twoTo fiveTo tenTo

/-- The digits of a whole number: a single zero, or no zero in front. -/
structure WholeDigits (text : List Char) : Prop where
  digits : Digits text
  ne_nil : text ≠ []
  leading : text = ['0'] ∨ text.head? ≠ some '0'

/-- The digits of a fraction: at least one, at most so many, and no zero at the end. -/
structure FractionDigits (places : Nat) (text : List Char) : Prop where
  digits : Digits text
  ne_nil : text ≠ []
  length_le : text.length ≤ places
  last : text.getLast? ≠ some '0'

/-- The texts without superfluous zeros and of at most so many decimal places, and the numbers that
they stand for. -/
inductive TrimmedText (places : Nat) : List Char → ℚ → Prop where
  | whole {sign : Sign} {digits : List Char} {q : ℚ} :
    WholeDigits digits →
    NumeralValue digits q →
    TrimmedText places (sign.mark ++ digits) (sign.factor * q)
  | pointed {sign : Sign} {whole fraction : List Char} {q : ℚ} :
    WholeDigits whole →
    FractionDigits places fraction →
    NumeralValue (whole ++ '.' :: fraction) q →
    TrimmedText places (sign.mark ++ (whole ++ '.' :: fraction)) (sign.factor * q)

/-- The second number is the first one rounded to so many decimal places: a whole number of steps in
the last place, at most half a step away, and in a tie an even one. -/
def RoundedTo (places : Nat) (number rounded : ℚ) : Prop :=
  ∃ steps : ℤ, rounded = steps / 10 ^ places ∧ |steps - number * 10 ^ places| ≤ 1 / 2 ∧
    (|steps - number * 10 ^ places| = 1 / 2 → 2 ∣ steps)

/-! ## Digits -/

/-- A positive number is written without zeros at its start. -/
lemma head?_toDigits_ne_zero {n : Nat} (h : 0 < n) : (Nat.toDigits 10 n).head? ≠ some '0' := by
  induction n using Nat.strongRecOn with
  | ind n ih =>
    rw [Nat.toDigits_eq_if (by decide)]
    split
    · rename_i hlt
      intro hzero
      have hn := Nat.digitChar_eq_zero.mp (Option.some.inj hzero)
      omega
    · rename_i hge
      -- The first digit is that of the number without its last digit.
      rw [List.head?_append_of_ne_nil _ Nat.toDigits_ne_nil]
      exact ih (n / 10) (by omega) (by omega)

/-- Digits of a number are those of a whole part. -/
lemma wholeDigits_toDigits (n : Nat) : WholeDigits (Nat.toDigits 10 n) where
  digits := Digits.toDigits n
  ne_nil := Nat.toDigits_ne_nil
  leading := by
    rcases Nat.eq_zero_or_pos n with rfl | hpos
    · exact .inl (Nat.toDigits_zero 10)
    · exact .inr (head?_toDigits_ne_zero hpos)

namespace Decimal

/-- No places are added. -/
lemma trim_places_le (n places : Nat) : (trim n places).places ≤ places := by
  induction places generalizing n with
  | zero => exact Nat.le_refl 0
  | succ places ih =>
    rw [trim]
    split
    · exact Nat.le_succ_of_le (ih (n / 10))
    · exact Nat.le_refl _

/-- What is left of the places does not end in a zero. -/
lemma trim_last (n places : Nat) :
    (trim n places).places = 0 ∨ (trim n places).coefficient % 10 ≠ 0 := by
  induction places generalizing n with
  | zero => exact .inl rfl
  | succ places ih =>
    rw [trim]
    split
    · exact ih (n / 10)
    · rename_i hne
      exact .inr hne

/-- Zeros at the end do not change the value. -/
lemma value_trim (d : Decimal) : (trim d.coefficient d.places).value = d.value := by
  have htrim := trim_value d.coefficient d.places
  have hcast : ((trim d.coefficient d.places).coefficient : ℚ) * 10 ^ d.places =
      d.coefficient * 10 ^ (trim d.coefficient d.places).places := by
    rw [← cast_tenTo, ← cast_tenTo]
    exact_mod_cast htrim
  rw [value, value, div_eq_div_iff (by positivity) (by positivity)]
  exact hcast

/-- Without zeros at the end the places do not end in zero. -/
lemma fractionDigits_trimmed {d : Decimal} (hlast : d.coefficient % 10 ≠ 0) (hp : 0 < d.places) :
    FractionDigits d.places (fractionDigits d.places (d.coefficient % tenTo d.places)) where
  digits := digits_fractionDigits _ _
  ne_nil := by
    obtain ⟨leading, h⟩ := exists_fractionDigits d.places (d.coefficient % tenTo d.places)
    rw [h]
    exact List.concat_ne_nil _ _
  length_le := Nat.le_of_eq (length_fractionDigits hp (Nat.mod_lt _ (tenTo_pos _)))
  last := by
    obtain ⟨places, hplaces⟩ := Nat.exists_eq_add_one_of_ne_zero (Nat.pos_iff_ne_zero.mp hp)
    have hdigit : d.coefficient % tenTo d.places % 10 = d.coefficient % 10 := by
      rw [hplaces, tenTo_succ, Nat.mod_mod_of_dvd _ (Nat.dvd_mul_left 10 _)]
    obtain ⟨leading, h⟩ := exists_fractionDigits d.places (d.coefficient % tenTo d.places)
    rw [h, hdigit, List.getLast?_concat]
    exact fun hzero => hlast (Nat.digitChar_eq_zero.mp (Option.some.inj hzero))

/-! ## The text of a decimal -/

/-- The text of a decimal has its value. -/
lemma numeralValue_text (d : Decimal) : NumeralValue d.text d.value := by
  rw [numeralValue_iff, ofNumeral_text, value_trim]
  exact ⟨numeral_text d, rfl⟩

/-- With a sign, a decimal is written without superfluous zeros. -/
lemma trimmedText (s : Sign) (d : Decimal) :
    TrimmedText d.places (s.mark ++ d.text) (s.factor * d.value) := by
  have hvalue := numeralValue_text d
  have hle := trim_places_le d.coefficient d.places
  have hlast := trim_last d.coefficient d.places
  rw [text_eq_fullText, fullText] at hvalue ⊢
  generalize trim d.coefficient d.places = t at *
  split at hvalue
  · rename_i hzero
    rw [if_pos hzero]
    exact .whole (wholeDigits_toDigits _) hvalue
  · rename_i hne
    have hfraction := fractionDigits_trimmed (hlast.resolve_left hne) (Nat.pos_of_ne_zero hne)
    rw [if_neg hne]
    exact .pointed (wholeDigits_toDigits _)
      { hfraction with length_le := Nat.le_trans hfraction.length_le hle } hvalue

end Decimal

/-! ## Rounding -/

/-- A whole number is what a quotient is rounded to if it is at most a half away, and in a tie even.
-/
lemma roundDiv_eq_of_nearest {num den k : Nat} (hden : 0 < den)
    (hk : |(k : ℚ) - num / den| ≤ 1 / 2) (heven : |(k : ℚ) - num / den| = 1 / 2 → 2 ∣ k) :
    roundDiv num den = k := by
  by_contra hne
  obtain ⟨hr, hreven⟩ := roundDiv_error num hden
  -- Of two candidates each would be at a tie, and both would be even.
  have htie := heven (le_antisymm hk (half_le_of_ne hr (Ne.symm hne)))
  have hrtie := hreven (le_antisymm hr (half_le_of_ne hk hne))
  obtain ⟨hklow, hkhigh⟩ := abs_le.mp hk
  obtain ⟨hrlow, hrhigh⟩ := abs_le.mp hr
  have hle : (k : ℚ) ≤ (roundDiv num den + 1 : Nat) := by
    push_cast
    linarith
  have hge : (roundDiv num den : ℚ) ≤ (k + 1 : Nat) := by
    push_cast
    linarith
  have hle' := Nat.cast_le.mp hle
  have hge' := Nat.cast_le.mp hge
  omega

namespace Magnitude

/-- A magnitude in steps of a decimal place. -/
lemma steps_eq (m : Magnitude) (places : Nat) :
    ((m.units * tenTo places : Nat) : ℚ) / Binary64.one = m.value * 10 ^ places := by
  rw [Nat.cast_mul, cast_tenTo, Binary64.one, cast_twoTo, value, div_mul_eq_mul_div]

/-- The value of a magnitude is not negative. -/
lemma value_nonneg (m : Magnitude) : 0 ≤ m.value :=
  div_nonneg (Nat.cast_nonneg _) (by positivity)

end Magnitude

namespace Decimal

/-- A magnitude is rounded to the decimal that is at most half a step away, in a tie to the even
one. -/
lemma fixed_error (m : Magnitude) (places : Nat) :
    |((fixed m places).coefficient : ℚ) - m.value * 10 ^ places| ≤ 1 / 2 ∧
      (|((fixed m places).coefficient : ℚ) - m.value * 10 ^ places| = 1 / 2 →
        2 ∣ (fixed m places).coefficient) := by
  rw [← m.steps_eq places]
  exact roundDiv_error _ Binary64.one_pos

/-- A decimal that is at most half a step away, and even in a tie, is the one rounded to. -/
lemma fixed_eq_of_nearest {m : Magnitude} {places k : Nat}
    (hk : |(k : ℚ) - m.value * 10 ^ places| ≤ 1 / 2)
    (heven : |(k : ℚ) - m.value * 10 ^ places| = 1 / 2 → 2 ∣ k) :
    fixed m places = ⟨k, places⟩ := by
  rw [← m.steps_eq places] at hk heven
  rw [fixed, roundDiv_eq_of_nearest Binary64.one_pos hk heven]

/-- Zero is written for what is at most half a step. -/
lemma isZero_fixed_iff (m : Magnitude) (places : Nat) :
    (fixed m places).isZero = true ↔ m.value * 10 ^ places ≤ 1 / 2 := by
  have hnonneg : 0 ≤ m.value * 10 ^ places := mul_nonneg m.value_nonneg (by positivity)
  have habs : |((0 : Nat) : ℚ) - m.value * 10 ^ places| = m.value * 10 ^ places := by
    rw [Nat.cast_zero, zero_sub, abs_neg, abs_of_nonneg hnonneg]
  rw [isZero, beq_iff_eq]
  constructor
  · intro hzero
    have herror := (fixed_error m places).1
    rw [hzero, habs] at herror
    exact herror
  · intro hle
    rw [← habs] at hle
    rw [fixed_eq_of_nearest hle (fun _ => Nat.dvd_zero 2)]

/-- A number with a sign is rounded as the magnitude is. -/
lemma roundedTo_fixed (s : Sign) (m : Magnitude) (places : Nat) :
    RoundedTo places (s.factor * m.value) (s.factor * (fixed m places).value) := by
  obtain ⟨herror, heven⟩ := fixed_error m places
  have hfactor : |(s.factor : ℚ)| = 1 := by
    cases s with
    | positive => simp [Sign.factor]
    | negative => simp [Sign.factor]
  have hdistance :
      |((s.factor * (fixed m places).coefficient : ℤ) : ℚ) - s.factor * m.value * 10 ^ places| =
        |((fixed m places).coefficient : ℚ) - m.value * 10 ^ places| := by
    rw [Int.cast_mul, Int.cast_natCast, mul_assoc, ← mul_sub, abs_mul, hfactor, one_mul]
  refine ⟨s.factor * (fixed m places).coefficient, ?_, ?_, ?_⟩
  · rw [value, Int.cast_mul, Int.cast_natCast, mul_div_assoc]
    rfl
  · rw [hdistance]
    exact herror
  · rw [hdistance]
    intro htie
    exact Dvd.dvd.mul_left (Int.natCast_dvd_natCast.mpr (heven htie)) _

end Decimal

/-! ## Numbers -/

/-- A number is written with its sign and its magnitude to so many places. -/
lemma formatNumber_fixed (places : Nat) (s : Sign) (m : Magnitude) :
    formatNumber (some places) (.finite s m) =
      withoutZeroSign (s.mark ++ (Decimal.fixed m places).text) := by
  rw [formatNumber_finite, ← Decimal.text_rounded]
  rfl

/-- Zero is never written with a sign. -/
lemma withoutZeroSign_ne (text : List Char) : withoutZeroSign text ≠ ['-', '0'] := by
  unfold withoutZeroSign
  split
  · decide
  · rename_i hne
    exact hne

/-- A number is written as zero exactly if its decimal is. -/
lemma withoutZeroSign_mark_eq_zero_iff (s : Sign) (d : Decimal) :
    withoutZeroSign (s.mark ++ d.text) = ['0'] ↔ d.isZero = true := by
  rw [withoutZeroSign_mark]
  split
  · rename_i hzero
    exact iff_of_true rfl hzero
  · rename_i hne
    rw [← Decimal.text_eq_zero_iff] at hne ⊢
    cases s with
    | positive => exact Iff.rfl
    | negative => simp [Sign.mark, hne]

/-- A decimal that has lost the sign of zero still stands for the same number. -/
lemma trimmedText_withoutZeroSign (s : Sign) (d : Decimal) :
    TrimmedText d.places (withoutZeroSign (s.mark ++ d.text)) (s.factor * d.value) := by
  rw [withoutZeroSign_mark]
  split
  · rename_i hzero
    have hvalue : d.value = 0 := by
      rw [Decimal.value, beq_iff_eq.mp hzero, Nat.cast_zero, zero_div]
    have hpositive := d.trimmedText .positive
    rw [Decimal.text_of_isZero hzero, hvalue, mul_zero] at hpositive
    rw [hvalue, mul_zero]
    exact hpositive
  · exact d.trimmedText s

/-- With a precision a number is written as a text without superfluous zeros, which stands for the
number rounded to the places, a tie going to the even last digit. This text is never `-0`, and it is
`0` exactly for what is at most half a step in the last place. It is what is left of the text with
all the places when the zeros at the end, a point after which nothing is left, and the sign of zero
are taken away. -/
theorem formatNumber_places (places : Nat) (s : Sign) (m : Magnitude) :
    let text := formatNumber (some places) (.finite s m)
    (∃ q, TrimmedText places text q ∧ RoundedTo places (s.factor * m.value) q) ∧
    text ≠ ['-', '0'] ∧
    (text = ['0'] ↔ m.value * 10 ^ places ≤ 1 / 2) ∧
    text = withoutZeroSign (trimTrailing ((Binary64.finite s m).fixedText places)) := by
  intro text
  have htext : text = withoutZeroSign (s.mark ++ (Decimal.fixed m places).text) :=
    formatNumber_fixed places s m
  refine ⟨⟨_, ?_, Decimal.roundedTo_fixed s m places⟩, ?_, ?_,
    formatNumber_eq_trimmed (some places) _⟩
  · rw [htext]
    exact trimmedText_withoutZeroSign s (Decimal.fixed m places)
  · rw [htext]
    exact withoutZeroSign_ne _
  · rw [htext, withoutZeroSign_mark_eq_zero_iff, Decimal.isZero_fixed_iff]

/-- An eighth is at a tie of two places. -/
example : formatNumber (some 2) (.ofRatio .negative Binary64.one 8) = "-0.12".toList := by
  decide +kernel

end PowerRule
