import Mathlib.Tactic.Lemma
import PowerRule.Proofs.Neighbours
import PowerRule.Proofs.TermGrammar

/-!
# Whole numbers as exponents

An exponent goes through binary arithmetic: the numeral after the caret is rounded before it is
compared with the largest exponent. A whole number that is written with digits, and with a fraction
of zeros or none (`WholeNumeral`), is read exactly all the same, however many digits it has.

Up to `maxWhole`, which is far above the largest exponent, nothing is rounded
(`Decimal.Denotes.nearest?_eq`). From there on rounding gives a whole number that is not smaller
(`RoundsTo.exists_toNat?`) or, for hundreds of digits, infinity. Both are refused, the first as too
large and the second for a fraction (`readExponent_above_maxExponent`).
-/

namespace PowerRule

/-- All exponents that are allowed are written without rounding. -/
lemma maxExponent_lt_maxWhole : maxExponent < maxWhole := by decide

/-- Ten to the power of 308 lies below the limit. -/
lemma tenTo_308_add_le : tenTo 308 + twoTo 970 ≤ twoTo 1024 := by decide +kernel

/-- A one and zeros are a power of ten. -/
lemma ofDigitChars_one_zeros (k : Nat) :
    Nat.ofDigitChars 10 ('1' :: List.replicate k '0') 0 = tenTo k := by
  rw [Nat.ofDigitChars_cons, Nat.ofDigitChars_replicate_zero]
  exact Nat.mul_one _

/-- Ten to the power of 309 lies above it. -/
lemma twoTo_1024_le : twoTo 1024 ≤ tenTo 309 := by decide +kernel

attribute [local irreducible] twoTo tenTo

/-- The whole numbers, as they are written: digits, and perhaps a point with zeros after it. -/
inductive WholeNumeral : List Char → Nat → Prop where
  | digits {digits : List Char} :
    digits ≠ [] →
    Digits digits →
    WholeNumeral digits (Nat.ofDigitChars 10 digits 0)
  | pointed {digits : List Char} (zeros : Nat) :
    digits ≠ [] →
    Digits digits →
    WholeNumeral (digits ++ '.' :: List.replicate zeros '0') (Nat.ofDigitChars 10 digits 0)

/-- The number that such a numeral stands for is the one that its digits are the digits of. -/
lemma WholeNumeral.value {text : List Char} {v : Nat} (h : WholeNumeral text v) :
    NumeralValue text v := by
  cases h with
  | digits hne hd => exact .whole hne hd
  | @pointed digits zeros hne hd =>
    have hvalue := NumeralValue.pointed hne hd (Digits.replicate_zero zeros)
    rw [Nat.ofDigitChars_replicate_zero, Nat.mul_zero, Nat.cast_zero, zero_div, add_zero] at hvalue
    exact hvalue

namespace Decimal

/-- A decimal denotes a whole number exactly if it has its value. -/
lemma denotes_iff_value {d : Decimal} {n : Nat} : d.Denotes n ↔ d.value = n := by
  have hpos : (0 : ℚ) < 10 ^ d.places := by positivity
  rw [value, div_eq_iff (ne_of_gt hpos), ← cast_tenTo, ← Nat.cast_mul, Nat.cast_inj, Denotes]

end Decimal

namespace Magnitude

/-- The value of a whole number is that number. -/
lemma value_whole {n : Nat} (h : n ≤ maxWhole) : (whole n h).value = n :=
  toNat?_eq_some_iff_value.mp (toNat?_whole h)

/-- From two to the power of 52 on every magnitude is a whole number. -/
lemma exists_toNat? {m : Magnitude} {n : Nat} (hn : twoTo 52 ≤ n)
    (h : n * Binary64.one ≤ m.units) :
    ∃ k, n ≤ k ∧ m.toNat? = some k := by
  have hlarge : twoTo (52 + 1074) ≤ m.units := by
    rw [twoTo_add]
    exact Nat.le_trans (Nat.mul_le_mul_right _ hn) h
  have hpos : 0 < m.units := Nat.lt_of_lt_of_le (twoTo_pos _) hlarge
  have hlog := (le_log2_iff (Nat.pos_iff_ne_zero.mp hpos)).mpr hlarge
  -- The spacing is a multiple of one there.
  have hdvd : Binary64.one ∣ Binary64.spacing m.units := by
    apply twoTo_dvd
    unfold Binary64.spacingLog
    omega
  obtain ⟨k, hk⟩ := Nat.dvd_trans hdvd m.representable.spaced
  rw [Nat.mul_comm] at hk
  refine ⟨k, ?_, toNat?_eq_some_iff.mpr hk⟩
  rw [hk] at h
  exact Nat.le_of_mul_le_mul_right h Binary64.one_pos

end Magnitude

/-- A number from two to the power of 52 on is rounded to a whole number that is not below any
magnitude below it. -/
lemma RoundsTo.exists_toNat? {q : ℚ} {m : Magnitude} (hm : RoundsTo q m) {n : Nat}
    (hlow : twoTo 52 ≤ n) (hn : n ≤ maxWhole) (hq : n ≤ q) :
    ∃ k, n ≤ k ∧ m.toNat? = some k := by
  apply Magnitude.exists_toNat? hlow
  rw [← Magnitude.units_whole hn]
  apply hm.ge_of_value_le
  rw [Magnitude.value_whole hn]
  exact hq

/-- Two to the power of 52 is written without rounding. -/
lemma twoTo_52_le_maxWhole : twoTo 52 ≤ maxWhole := twoTo_le (by decide)

/-! ## How large a numeral is -/

/-- A digit is at most nine. -/
lemma digit_le_nine {c : Char} (h : c.isDigit = true) : c.toNat - '0'.toNat ≤ 9 := by
  simp only [Char.isDigit, Bool.and_eq_true, decide_eq_true_eq] at h
  have hle := UInt32.le_iff_toNat_le.mp h.2
  show c.val.toNat - 48 ≤ 9
  exact Nat.sub_le_of_le_add hle

/-- Digits stand for less than a one with as many zeros. -/
lemma Digits.ofDigitChars_lt {digits : List Char} (h : Digits digits) :
    Nat.ofDigitChars 10 digits 0 < 10 ^ digits.length := by
  induction digits with
  | nil => exact Nat.one_pos
  | cons c rest ih =>
    have hhead := digit_le_nine (h c List.mem_cons_self)
    have htail := ih fun d hd => h d (List.mem_cons_of_mem c hd)
    rw [Nat.ofDigitChars_cons, Nat.ofDigitChars_eq_ofDigitChars_zero, Nat.mul_zero, Nat.zero_add,
      List.length_cons, Nat.pow_succ]
    have hmul := Nat.mul_le_mul_left (10 ^ rest.length) hhead
    omega

/-- A decimal with a point is a quotient, with the digits on both sides in the numerator. -/
lemma exists_digits_pointed {whole fraction : List Char} (hw : Digits whole)
    (hf : Digits fraction) {k : Nat} (hk : (whole ++ '.' :: fraction).length ≤ k + 1) :
    ∃ c places, (Decimal.ofNumeral (whole ++ '.' :: fraction)).value = (c : Nat) / 10 ^ places ∧
      c < 10 ^ k ∧ places ≤ k := by
  rw [List.length_append, List.length_cons] at hk
  have hlt := (hw.append hf).ofDigitChars_lt
  rw [List.length_append] at hlt
  rw [Decimal.ofNumeral_pointed hw]
  refine ⟨_, _, rfl, ?_, ?_⟩
  · exact Nat.lt_of_lt_of_le hlt (Nat.pow_le_pow_right (by decide) (by omega))
  · dsimp only
    omega

/-- A numeral stands for less than a one with as many zeros. -/
lemma NumeralValue.lt_ten_pow {text : List Char} {q : ℚ} (h : NumeralValue text q) :
    q < 10 ^ text.length := by
  have hpointed {whole fraction : List Char} (hw : Digits whole) (hf : Digits fraction) :
      (Decimal.ofNumeral (whole ++ '.' :: fraction)).value <
        10 ^ (whole ++ '.' :: fraction).length := by
    obtain ⟨c, places, hvalue, hlt, _⟩ := exists_digits_pointed hw hf (Nat.le_succ _)
    have hcast : (c : ℚ) < 10 ^ (whole ++ '.' :: fraction).length := by exact_mod_cast hlt
    rw [hvalue]
    exact lt_of_le_of_lt (div_le_self (Nat.cast_nonneg c) (one_le_pow₀ (by norm_num))) hcast
  have hvalue := h.value_eq
  cases h with
  | whole _ hd => exact_mod_cast hd.ofDigitChars_lt
  | pointed _ hw hf =>
    rw [hvalue]
    exact hpointed hw hf
  | fraction _ hf =>
    have hlt := hpointed Digits.nil hf
    rw [List.nil_append, ← hvalue] at hlt
    exact hlt

/-- With 308 characters no numeral is too large for a magnitude. -/
lemma NumeralValue.lt_limit {text : List Char} {q : ℚ} (h : NumeralValue text q)
    (hlength : text.length ≤ 308) : q < 2 ^ 1024 - 2 ^ 970 := by
  have hlimit : (10 : ℚ) ^ 308 ≤ 2 ^ 1024 - 2 ^ 970 := by
    rw [le_sub_iff_add_le, ← cast_tenTo, ← cast_twoTo, ← cast_twoTo, ← Nat.cast_add]
    exact Nat.cast_le.mpr tenTo_308_add_le
  have hpow : (10 : ℚ) ^ text.length ≤ 10 ^ 308 := pow_le_pow_right₀ (by norm_num) hlength
  exact lt_of_lt_of_le h.lt_ten_pow (le_trans hpow hlimit)

/-! ## How it is read -/

section

variable {text : List Char} {v : Nat} (h : NumeralValue text v)

include h

/-- A numeral with a whole value denotes it. -/
lemma denotes_of_value : (Decimal.ofNumeral text).Denotes v :=
  Decimal.denotes_iff_value.mpr h.value_eq.symm

/-- In range the number is not rounded. -/
lemma exponentOfText_of_le_maxWhole (hle : v ≤ maxWhole) :
    exponentOfText text = exponentOfValue (some v) := by
  rw [exponentOfText_of_value h, (denotes_of_value h).nearest?_eq hle, Option.bind_some,
    Magnitude.toNat?_whole]

/-- Out of range the number may be rounded, but to one that is too large as well. -/
lemma exponentOfText_of_maxWhole_le (hle : maxWhole ≤ v) (hlt : (v : ℚ) < 2 ^ 1024 - 2 ^ 970) :
    exponentOfText text = .error .tooLarge := by
  have hvalue : (maxWhole : ℚ) ≤ (Decimal.ofNumeral text).value := by
    rw [← h.value_eq]
    exact Nat.cast_le.mpr hle
  rw [h.value_eq] at hlt
  obtain ⟨m, hm⟩ := Decimal.exists_nearest? hlt
  obtain ⟨k, hk, hwhole⟩ :=
    (Decimal.roundsTo_of_nearest? hm).exists_toNat? twoTo_52_le_maxWhole (Nat.le_refl _) hvalue
  have hlarge : maxExponent < k := Nat.lt_of_lt_of_le maxExponent_lt_maxWhole hk
  rw [exponentOfText_of_value h, hm, Option.bind_some, hwhole]
  exact exponentOfValue_eq_error_iff.mpr (.inr ⟨k, rfl, hlarge, rfl⟩)

/-- Past the limit an exponent is called fractional. -/
lemma exponentOfText_of_infinite (hle : 2 ^ 1024 - 2 ^ 970 ≤ (v : ℚ)) :
    exponentOfText text = .error .fractional :=
  (ExponentFault.infinite h hle).exponentOfText_eq

/-- Below it a larger one than allowed is called too large. -/
lemma exponentOfText_tooLarge (hlarge : maxExponent < v) (hlt : (v : ℚ) < 2 ^ 1024 - 2 ^ 970) :
    exponentOfText text = .error .tooLarge := by
  rcases Nat.le_total v maxWhole with hle | hle
  · rw [exponentOfText_of_le_maxWhole h hle]
    exact exponentOfValue_eq_error_iff.mpr (.inr ⟨v, rfl, hlarge, rfl⟩)
  · exact exponentOfText_of_maxWhole_le h hle hlt

/-- A whole number is read as itself or not at all. -/
lemma exponentOfText_eq_ok_iff_of_whole {n : Nat} :
    exponentOfText text = .ok n ↔ v = n ∧ n ≤ maxExponent := by
  rcases Nat.lt_or_ge maxExponent v with hlarge | hle
  · constructor
    · intro hok
      rcases lt_or_ge (v : ℚ) (2 ^ 1024 - 2 ^ 970) with hlt | hge
      · rw [exponentOfText_tooLarge h hlarge hlt] at hok
        cases hok
      · rw [exponentOfText_of_infinite h hge] at hok
        cases hok
    · rintro ⟨rfl, hle⟩
      exact absurd hle (Nat.not_le_of_lt hlarge)
  · rw [exponentOfText_of_le_maxWhole h (Nat.le_trans hle maxExponent_le_maxWhole),
      exponentOfValue_eq_ok_iff]
    constructor
    · rintro ⟨hn, hv⟩
      exact ⟨Option.some.inj hv, hn⟩
    · rintro ⟨rfl, hn⟩
      exact ⟨hn, rfl⟩

end

section

variable (start : Nat) {text : List Char}

/-- After a caret an exponent is read. -/
lemma readExponent_caret_eq_ok_iff {n : Nat} :
    readExponent start ('^' :: text) = .ok n ↔ exponentOfText text = .ok n := by
  rw [readExponent_eq_ok_iff]
  constructor
  · intro h
    cases h with
    | written hn => exact hn
  · exact .written

/-- What is wrong after the caret is reported, with the place from the caret on. -/
lemma readExponent_caret_eq_error_iff {issue : ExponentIssue} :
    readExponent start ('^' :: text) =
        .error ⟨.malformedExponent text issue, [Span.ofText start ('^' :: text)]⟩ ↔
      exponentOfText text = .error issue := by
  rw [readExponent_eq_error_iff]
  constructor
  · rintro ⟨_, _, h, heq⟩
    cases heq
    cases h with
    | afterCaret hissue => exact hissue
  · intro h
    exact ⟨text, issue, .afterCaret h, rfl⟩

end

/-- A whole number after the caret, of any length and with any number of zeros after a point, is
read as the exponent that it is, and refused exactly if it is above the largest one. -/
theorem readExponent_wholeNumeral {text : List Char} {v : Nat} (h : WholeNumeral text v)
    (start : Nat) :
    NumeralValue text v ∧
    (∀ n, readExponent start ('^' :: text) = .ok n ↔ v = n ∧ n ≤ maxExponent) ∧
    (maxExponent < v → (v : ℚ) < 2 ^ 1024 - 2 ^ 970 →
      readExponent start ('^' :: text) =
        .error ⟨.malformedExponent text .tooLarge, [Span.ofText start ('^' :: text)]⟩) ∧
    (2 ^ 1024 - 2 ^ 970 ≤ (v : ℚ) →
      readExponent start ('^' :: text) =
        .error ⟨.malformedExponent text .fractional, [Span.ofText start ('^' :: text)]⟩) := by
  refine ⟨h.value, ?_, ?_, ?_⟩
  · intro n
    rw [readExponent_caret_eq_ok_iff, exponentOfText_eq_ok_iff_of_whole h.value]
  · intro hlarge hlt
    rw [readExponent_caret_eq_error_iff]
    exact exponentOfText_tooLarge h.value hlarge hlt
  · intro hge
    rw [readExponent_caret_eq_error_iff]
    exact exponentOfText_of_infinite h.value hge

/-- The largest exponent, with zeros on both sides, and the next number. -/
theorem readExponent_bound :
    WholeNumeral "004294967295.00".toList 4294967295 ∧
    WholeNumeral "4294967296".toList 4294967296 ∧
    readExponent 5 "^004294967295.00".toList = .ok 4294967295 ∧
    ∀ n, readExponent 5 "^4294967296".toList ≠ .ok n := by
  have hlast : WholeNumeral "004294967295.00".toList 4294967295 :=
    @WholeNumeral.pointed "004294967295".toList 2 (by decide) (List.all_eq_true.mp (by decide))
  have hnext : WholeNumeral "4294967296".toList 4294967296 :=
    @WholeNumeral.digits "4294967296".toList (by decide) (List.all_eq_true.mp (by decide))
  refine ⟨hlast, hnext, ?_, ?_⟩
  · exact ((readExponent_wholeNumeral hlast 5).2.1 4294967295).mpr ⟨rfl, by decide +kernel⟩
  · intro n hn
    obtain ⟨rfl, hle⟩ := ((readExponent_wholeNumeral hnext 5).2.1 n).mp hn
    exact absurd hle (by decide +kernel)

/-- A whole number above the largest exponent is never read. It is refused as too large up to the
numbers that are rounded to infinity, so always if it has up to 308 digits; from there on it is
refused for a fraction, which it has not. -/
theorem readExponent_above_maxExponent {text : List Char} {v : Nat} (h : NumeralValue text v)
    (hv : maxExponent < v) (start : Nat) :
    (∀ n, readExponent start ('^' :: text) ≠ .ok n) ∧
    (readExponent start ('^' :: text) =
        .error ⟨.malformedExponent text .tooLarge, [Span.ofText start ('^' :: text)]⟩ ↔
      (v : ℚ) < 2 ^ 1024 - 2 ^ 970) ∧
    (readExponent start ('^' :: text) =
        .error ⟨.malformedExponent text .fractional, [Span.ofText start ('^' :: text)]⟩ ↔
      2 ^ 1024 - 2 ^ 970 ≤ (v : ℚ)) ∧
    (text.length ≤ 308 →
      readExponent start ('^' :: text) =
        .error ⟨.malformedExponent text .tooLarge, [Span.ofText start ('^' :: text)]⟩) := by
  simp only [readExponent_caret_eq_error_iff, ne_eq, readExponent_caret_eq_ok_iff]
  have hlarge := exponentOfText_tooLarge h hv
  have hinfinite := exponentOfText_of_infinite h
  refine ⟨?_, ⟨?_, hlarge⟩, ⟨?_, hinfinite⟩, ?_⟩
  · intro n hn
    obtain ⟨rfl, hle⟩ := (exponentOfText_eq_ok_iff_of_whole h).mp hn
    exact absurd hle (Nat.not_le_of_lt hv)
  · intro herror
    by_contra hge
    rw [hinfinite (le_of_not_gt hge)] at herror
    cases herror
  · intro herror
    by_contra hlt
    rw [hlarge (lt_of_not_ge hlt)] at herror
    cases herror
  · intro hlength
    exact hlarge (h.lt_limit hlength)

/-- Ten digits that are too large. -/
theorem readExponent_ten_digits :
    NumeralValue "5000000000".toList (5000000000 : Nat) ∧ maxExponent < 5000000000 ∧
    readExponent 1 "^5000000000".toList =
      .error ⟨.malformedExponent "5000000000".toList .tooLarge,
        [Span.ofText 1 "^5000000000".toList]⟩ := by
  have hvalue : NumeralValue "5000000000".toList (5000000000 : Nat) :=
    @NumeralValue.whole "5000000000".toList (by decide) (List.all_eq_true.mp (by decide))
  have hlarge : maxExponent < 5000000000 := by decide +kernel
  exact ⟨hvalue, hlarge, (readExponent_above_maxExponent hvalue hlarge 1).2.2.2 (by decide)⟩

/-- With 310 digits a whole number is refused for a fraction. -/
theorem readExponent_hundreds_of_digits :
    NumeralValue ('1' :: List.replicate 309 '0') (tenTo 309 : Nat) ∧ maxExponent < tenTo 309 ∧
    readExponent 1 ('^' :: '1' :: List.replicate 309 '0') =
      .error ⟨.malformedExponent ('1' :: List.replicate 309 '0') .fractional,
        [Span.ofText 1 ('^' :: '1' :: List.replicate 309 '0')]⟩ := by
  have hvalue : NumeralValue ('1' :: List.replicate 309 '0') (tenTo 309 : Nat) := by
    have hdigits : Digits ('1' :: List.replicate 309 '0') :=
      Digits.append (s := ['1']) (List.all_eq_true.mp (by decide)) (Digits.replicate_zero 309)
    rw [← ofDigitChars_one_zeros]
    exact .whole (List.cons_ne_nil _ _) hdigits
  have hinfinite : 2 ^ 1024 - 2 ^ 970 ≤ ((tenTo 309 : Nat) : ℚ) := by
    have hle : ((twoTo 1024 : Nat) : ℚ) ≤ (tenTo 309 : Nat) := Nat.cast_le.mpr twoTo_1024_le
    rw [cast_twoTo] at hle
    exact le_trans (sub_le_self _ (by positivity)) hle
  refine ⟨hvalue, ?_, ?_⟩
  · exact Nat.lt_of_lt_of_le (Nat.lt_trans maxExponent_lt_maxWhole (twoTo_lt (by decide)))
      twoTo_1024_le
  · rw [readExponent_caret_eq_error_iff]
    exact exponentOfText_of_infinite hvalue hinfinite

end PowerRule
