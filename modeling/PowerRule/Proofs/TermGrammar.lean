import PowerRule.Proofs.Misreading
import PowerRule.Proofs.Nearest
import PowerRule.Proofs.Whole

/-!
# The grammar of terms

The terms and the numbers in them, without a parser and without binary arithmetic: a numeral stands
for a rational number (`NumeralValue`), a coefficient is the magnitude that this is rounded to
(`CoefficientValue`), and an exponent a whole number in range (`ExponentValue`). `readTerm_grammar`
says that reading a term accepts exactly this grammar, and which error it reports for every other
text.
-/

namespace PowerRule

attribute [local irreducible] twoTo tenTo

/-! ## Numerals -/

/-- The numerals and the numbers that they stand for. -/
inductive NumeralValue : List Char → ℚ → Prop where
  | whole {digits : List Char} :
    digits ≠ [] →
    Digits digits →
    NumeralValue digits (Nat.ofDigitChars 10 digits 0)
  | pointed {whole fraction : List Char} :
    whole ≠ [] →
    Digits whole →
    Digits fraction →
    NumeralValue (whole ++ '.' :: fraction)
      (Nat.ofDigitChars 10 whole 0 + Nat.ofDigitChars 10 fraction 0 / 10 ^ fraction.length)
  | fraction {digits : List Char} :
    digits ≠ [] →
    Digits digits →
    NumeralValue ('.' :: digits) (Nat.ofDigitChars 10 digits 0 / 10 ^ digits.length)

/-- The numerals that do not round to infinity. -/
def FiniteNumeral (text : List Char) : Prop := ∃ q, NumeralValue text q ∧ q < 2 ^ 1024 - 2 ^ 970

/-- The value of digits is the number that they are. -/
lemma value_ofNumeral_digits {digits : List Char} (h : Digits digits) :
    (Decimal.ofNumeral digits).value = Nat.ofDigitChars 10 digits 0 := by
  rw [Decimal.ofNumeral_digits h, Decimal.value, pow_zero, div_one]

/-- The value of a numeral with a point is that of both parts. -/
lemma value_ofNumeral_pointed {whole : List Char} (h : Digits whole) (fraction : List Char) :
    (Decimal.ofNumeral (whole ++ '.' :: fraction)).value =
      Nat.ofDigitChars 10 whole 0 + Nat.ofDigitChars 10 fraction 0 / 10 ^ fraction.length := by
  have hpos : (0 : ℚ) < 10 ^ fraction.length := by positivity
  rw [Decimal.ofNumeral_pointed h, Decimal.value, Nat.ofDigitChars_append,
    Nat.ofDigitChars_eq_ofDigitChars_zero, Nat.cast_add, Nat.cast_mul, Nat.cast_pow, add_div,
    Nat.cast_ofNat, mul_div_cancel_left₀ _ (ne_of_gt hpos)]

namespace NumeralValue

variable {text : List Char} {q : ℚ}

/-- What has a value is a numeral. -/
lemma numeral (h : NumeralValue text q) : Numeral text := by
  cases h with
  | whole hne hd => exact .whole hne hd
  | pointed hne hw hf => exact .pointed hne hw hf
  | fraction hne hd => exact .fraction hne hd

/-- A numeral stands for the number that is read. -/
lemma value_eq (h : NumeralValue text q) : q = (Decimal.ofNumeral text).value := by
  cases h with
  | whole hne hd => exact (value_ofNumeral_digits hd).symm
  | pointed hne hw hf => exact (value_ofNumeral_pointed hw _).symm
  | @fraction digits hne hd =>
    rw [Decimal.ofNumeral_fraction, Decimal.value]

end NumeralValue

/-- Every numeral has a value. -/
lemma Numeral.exists_value {text : List Char} (h : Numeral text) : ∃ q, NumeralValue text q := by
  cases h with
  | whole hne hd => exact ⟨_, .whole hne hd⟩
  | pointed hne hw hf => exact ⟨_, .pointed hne hw hf⟩
  | fraction hne hd => exact ⟨_, .fraction hne hd⟩

/-- The value of a numeral is that of the decimal that it is read as. -/
lemma numeralValue_iff {text : List Char} {q : ℚ} :
    NumeralValue text q ↔ Numeral text ∧ q = (Decimal.ofNumeral text).value := by
  constructor
  · intro h
    exact ⟨h.numeral, h.value_eq⟩
  · rintro ⟨hn, rfl⟩
    obtain ⟨q, hq⟩ := hn.exists_value
    rw [← hq.value_eq]
    exact hq

/-! ## Coefficients -/

/-- What precedes the variable, and the coefficient. -/
inductive CoefficientValue : List Char → Magnitude → Prop where
  | missing :
    CoefficientValue [] .one
  | written {text : List Char} {q : ℚ} {m : Magnitude} :
    NumeralValue text q →
    RoundsTo q m →
    CoefficientValue text m

/-- A coefficient is the value of a numeral, rounded. -/
lemma coefficient?_eq_some_iff_value {text : List Char} {m : Magnitude} :
    coefficient? text = some m ↔ ∃ q, NumeralValue text q ∧ RoundsTo q m := by
  rw [coefficient?_eq_some_iff]
  constructor
  · rintro ⟨hn, hm⟩
    exact ⟨_, numeralValue_iff.mpr ⟨hn, rfl⟩, Decimal.nearest?_eq_some_iff.mp hm⟩
  · rintro ⟨q, hq, hm⟩
    obtain ⟨hn, rfl⟩ := numeralValue_iff.mp hq
    exact ⟨hn, Decimal.nearest?_eq_some_iff.mpr hm⟩

/-- A text is a coefficient exactly if it is a numeral below the limit. -/
lemma exists_coefficient?_iff {text : List Char} :
    (∃ m, coefficient? text = some m) ↔ FiniteNumeral text := by
  constructor
  · rintro ⟨m, hm⟩
    obtain ⟨q, hq, hround⟩ := coefficient?_eq_some_iff_value.mp hm
    exact ⟨q, hq, hround.below⟩
  · rintro ⟨q, hq, hlt⟩
    obtain ⟨hn, rfl⟩ := numeralValue_iff.mp hq
    obtain ⟨m, hm⟩ := Decimal.exists_nearest? hlt
    exact ⟨m, coefficient?_eq_some_iff.mpr ⟨hn, hm⟩⟩

/-- Other texts are none. -/
lemma coefficient?_eq_none_iff {text : List Char} :
    coefficient? text = none ↔ ¬FiniteNumeral text := by
  rw [← exists_coefficient?_iff, not_exists]
  exact Option.eq_none_iff_forall_ne_some

/-- What stands before the variable has the value of a coefficient. -/
lemma readsLeading_iff {text : List Char} {m : Magnitude} :
    ReadsLeading text m ↔ CoefficientValue text m := by
  constructor
  · intro h
    cases h with
    | missing => exact .missing
    | written hm =>
      obtain ⟨q, hq, hround⟩ := coefficient?_eq_some_iff_value.mp hm
      exact .written hq hround
  · intro h
    cases h with
    | missing => exact .missing
    | written hq hround => exact .written (coefficient?_eq_some_iff_value.mpr ⟨_, hq, hround⟩)

/-- It can be read if it is nothing or a numeral below the limit. -/
lemma exists_readsLeading_iff {text : List Char} :
    (∃ m, ReadsLeading text m) ↔ text = [] ∨ FiniteNumeral text := by
  constructor
  · rintro ⟨m, h⟩
    cases h with
    | missing => exact .inl rfl
    | written hm => exact .inr (exists_coefficient?_iff.mp ⟨m, hm⟩)
  · rintro (rfl | h)
    · exact ⟨.one, .missing⟩
    · obtain ⟨m, hm⟩ := exists_coefficient?_iff.mpr h
      exact ⟨m, .written hm⟩

/-! ## Exponents -/

/-- What follows the variable, and the exponent. -/
inductive ExponentValue : List Char → Nat → Prop where
  | missing :
    ExponentValue [] 1
  | written {text : List Char} {q : ℚ} {m : Magnitude} {n : Nat} :
    NumeralValue text q →
    RoundsTo q m →
    m.value = n →
    n ≤ maxExponent →
    ExponentValue ('^' :: text) n

/-- What follows the caret, if it is no exponent, and what is wrong with it. -/
inductive ExponentFault : List Char → ExponentIssue → Prop where
  | missing :
    ExponentFault [] .missing
  /-- Rounded to infinity, which is no whole number. -/
  | infinite {text : List Char} {q : ℚ} :
    NumeralValue text q →
    2 ^ 1024 - 2 ^ 970 ≤ q →
    ExponentFault text .fractional
  | fractional {text : List Char} {q : ℚ} {m : Magnitude} :
    NumeralValue text q →
    RoundsTo q m →
    (∀ n : Nat, m.value ≠ n) →
    ExponentFault text .fractional
  | tooLarge {text : List Char} {q : ℚ} {m : Magnitude} {n : Nat} :
    NumeralValue text q →
    RoundsTo q m →
    m.value = n →
    maxExponent < n →
    ExponentFault text .tooLarge
  | negative {digits : List Char} :
    Numeral digits →
    ExponentFault ('-' :: digits) .negative
  | notANumber {text : List Char} :
    text ≠ [] →
    ¬Numeral text →
    (∀ digits, text = '-' :: digits → ¬Numeral digits) →
    ExponentFault text .notANumber

/-- What follows the variable, if it is no exponent; the text reported; and what is wrong. -/
inductive TrailingFault : List Char → List Char → ExponentIssue → Prop where
  | noCaret {text : List Char} :
    text ≠ [] →
    text.head? ≠ some '^' →
    TrailingFault text text .notANumber
  | afterCaret {text : List Char} {issue : ExponentIssue} :
    ExponentFault text issue →
    TrailingFault ('^' :: text) text issue

/-- A magnitude is a whole number exactly if its value is. -/
lemma toNat?_eq_some_iff_value {m : Magnitude} {n : Nat} :
    m.toNat? = some n ↔ m.value = n := by
  have hpos : (0 : ℚ) < 2 ^ 1074 := by positivity
  rw [Magnitude.toNat?_eq_some_iff, Magnitude.value, div_eq_iff (ne_of_gt hpos), ← cast_twoTo,
    ← Nat.cast_mul, Nat.cast_inj]
  rfl

/-- It is none exactly if its value is none. -/
lemma toNat?_eq_none_iff_value {m : Magnitude} :
    m.toNat? = none ↔ ∀ n : Nat, m.value ≠ n := by
  rw [Option.eq_none_iff_forall_ne_some]
  exact forall_congr' fun n => not_congr toNat?_eq_some_iff_value

/-- An exponent is a numeral whose rounded value is whole and allowed. -/
lemma exponentOfText_eq_ok_iff_value {text : List Char} {n : Nat} :
    exponentOfText text = .ok n ↔
      ∃ q m, NumeralValue text q ∧ RoundsTo q m ∧ m.value = n ∧ n ≤ maxExponent := by
  rw [exponentOfText_eq_ok_iff]
  constructor
  · rintro ⟨hn, hle, hbind⟩
    obtain ⟨m, hm, hwhole⟩ := Option.bind_eq_some_iff.mp hbind
    exact ⟨_, m, numeralValue_iff.mpr ⟨hn, rfl⟩, Decimal.nearest?_eq_some_iff.mp hm,
      toNat?_eq_some_iff_value.mp hwhole, hle⟩
  · rintro ⟨q, m, hq, hround, hwhole, hle⟩
    obtain ⟨hn, rfl⟩ := numeralValue_iff.mp hq
    refine ⟨hn, hle, ?_⟩
    rw [Decimal.nearest?_eq_some_iff.mpr hround, Option.bind_some]
    exact toNat?_eq_some_iff_value.mpr hwhole

/-- A numeral is no exponent if it is fractional or too large. -/
lemma exponentFault_of_numeral {text : List Char} (hn : Numeral text) {issue : ExponentIssue}
    (h : exponentOf (Decimal.ofNumeral text) = .error issue) : ExponentFault text issue := by
  have hq : NumeralValue text (Decimal.ofNumeral text).value := numeralValue_iff.mpr ⟨hn, rfl⟩
  rcases exponentOfValue_eq_error_iff.mp h with ⟨hnone, rfl⟩ | ⟨n, hsome, hlt, rfl⟩
  · cases hm : (Decimal.ofNumeral text).nearest? with
    | none => exact .infinite hq (Decimal.nearest?_eq_none_iff.mp hm)
    | some m =>
      rw [hm, Option.bind_some] at hnone
      exact .fractional hq (Decimal.nearest?_eq_some_iff.mp hm)
        (toNat?_eq_none_iff_value.mp hnone)
  · obtain ⟨m, hm, hwhole⟩ := Option.bind_eq_some_iff.mp hsome
    exact .tooLarge hq (Decimal.nearest?_eq_some_iff.mp hm) (toNat?_eq_some_iff_value.mp hwhole)
      hlt

/-- What is no numeral is missing or not a number. -/
lemma exponentFault_of_not_numeral {text : List Char} (hn : ¬Numeral text)
    {issue : ExponentIssue} (h : exponentOfText text = .error issue) :
    ExponentFault text issue := by
  rw [exponentOfText_of_not_numeral hn] at h
  split at h
  · cases h
    exact .missing
  · rename_i digits
    split at h
    · rename_i hdigits
      cases h
      exact .negative (isNumeral_iff.mp hdigits)
    · rename_i hdigits
      cases h
      refine .notANumber (List.cons_ne_nil _ _) hn ?_
      rintro _ ⟨⟩ hnumeral
      exact hdigits (isNumeral_iff.mpr hnumeral)
  · rename_i hne hminus
    cases h
    exact .notANumber hne hn fun digits htext => absurd htext (hminus digits)

/-- A numeral has no sign. -/
lemma not_numeral_minus (text : List Char) : ¬Numeral ('-' :: text) := by
  intro h
  rcases h.mem List.mem_cons_self with hdigit | hpoint
  · exact absurd hdigit (by decide)
  · exact absurd hpoint (by decide)

/-- An exponent is read from the rounded value of its numeral. -/
lemma exponentOfText_of_value {text : List Char} {q : ℚ} (hq : NumeralValue text q) :
    exponentOfText text =
      exponentOfValue ((Decimal.ofNumeral text).nearest?.bind Magnitude.toNat?) := by
  rw [exponentOfText_of_numeral hq.numeral, exponentOf]

/-- An exponent with a fault is refused for it. -/
lemma ExponentFault.exponentOfText_eq {text : List Char} {issue : ExponentIssue}
    (h : ExponentFault text issue) : exponentOfText text = .error issue := by
  cases h with
  | missing => exact exponentOfText_eq_missing_iff.mpr rfl
  | infinite hq hle =>
    rw [hq.value_eq] at hle
    rw [exponentOfText_of_value hq, Decimal.nearest?_eq_none_iff.mpr hle]
    rfl
  | fractional hq hround hwhole =>
    rw [hq.value_eq] at hround
    rw [exponentOfText_of_value hq, Decimal.nearest?_eq_some_iff.mpr hround, Option.bind_some,
      toNat?_eq_none_iff_value.mpr hwhole]
    rfl
  | tooLarge hq hround hwhole hlt =>
    rw [hq.value_eq] at hround
    rw [exponentOfText_of_value hq, Decimal.nearest?_eq_some_iff.mpr hround, Option.bind_some,
      toNat?_eq_some_iff_value.mpr hwhole]
    exact exponentOfValue_eq_error_iff.mpr (.inr ⟨_, rfl, hlt, rfl⟩)
  | @negative digits hdigits =>
    rw [exponentOfText_of_not_numeral (not_numeral_minus digits)]
    show Except.error (if isNumeral digits then ExponentIssue.negative else .notANumber) = _
    rw [if_pos (isNumeral_iff.mpr hdigits)]
  | notANumber hne hn hminus =>
    rw [exponentOfText_of_not_numeral hn]
    split
    · exact absurd rfl hne
    · rename_i digits
      rw [if_neg fun hdigits => hminus digits rfl (isNumeral_iff.mp hdigits)]
    · rfl

/-- An exponent is refused exactly for its fault. -/
lemma exponentOfText_eq_error_iff {text : List Char} {issue : ExponentIssue} :
    exponentOfText text = .error issue ↔ ExponentFault text issue := by
  constructor
  · intro h
    by_cases hn : Numeral text
    · rw [exponentOfText_of_numeral hn] at h
      exact exponentFault_of_numeral hn h
    · exact exponentFault_of_not_numeral hn h
  · exact ExponentFault.exponentOfText_eq

/-- What stands after the variable has the value of an exponent. -/
lemma readsTrailing_iff {text : List Char} {n : Nat} :
    ReadsTrailing text n ↔ ExponentValue text n := by
  constructor
  · intro h
    cases h with
    | missing => exact .missing
    | written hn =>
      obtain ⟨q, m, hq, hround, hwhole, hle⟩ := exponentOfText_eq_ok_iff_value.mp hn
      exact .written hq hround hwhole hle
  · intro h
    cases h with
    | missing => exact .missing
    | written hq hround hwhole hle =>
      exact .written (exponentOfText_eq_ok_iff_value.mpr ⟨_, _, hq, hround, hwhole, hle⟩)

/-- If it cannot be read, it has a fault. -/
lemma misreadsTrailing_iff {trailing text : List Char} {issue : ExponentIssue} :
    MisreadsTrailing trailing text issue ↔ TrailingFault trailing text issue := by
  constructor
  · intro h
    cases h with
    | noCaret hne hhead => exact .noCaret hne hhead
    | afterCaret hissue => exact .afterCaret (exponentOfText_eq_error_iff.mp hissue)
  · intro h
    cases h with
    | noCaret hne hhead => exact .noCaret hne hhead
    | afterCaret hfault => exact .afterCaret (exponentOfText_eq_error_iff.mpr hfault)

/-! ## Terms -/

/-- The body of a term of the given sign, and the term. -/
inductive TermValue (var : Char) (sign : Sign) : List Char → Term → Prop where
  | constant {body : List Char} {q : ℚ} {m : Magnitude} :
    var ∉ body →
    NumeralValue body q →
    RoundsTo q m →
    TermValue var sign body (.constant sign m)
  | power {leading trailing : List Char} {m : Magnitude} {n : Nat} :
    var ∉ leading →
    CoefficientValue leading m →
    ExponentValue trailing n →
    TermValue var sign (leading ++ var :: trailing) (.power sign m n)

/-- A term is read as what its text is worth. -/
lemma reads_iff {var : Char} {sign : Sign} {body : List Char} {t : Term} :
    Reads var sign body t ↔ TermValue var sign body t := by
  constructor
  · intro h
    cases h with
    | constant hnot hm =>
      obtain ⟨q, hq, hround⟩ := coefficient?_eq_some_iff_value.mp hm
      exact .constant hnot hq hround
    | power hnot hm hn => exact .power hnot (readsLeading_iff.mp hm) (readsTrailing_iff.mp hn)
  · intro h
    cases h with
    | constant hnot hq hround =>
      exact .constant hnot (coefficient?_eq_some_iff_value.mpr ⟨_, hq, hround⟩)
    | power hnot hm hn => exact .power hnot (readsLeading_iff.mpr hm) (readsTrailing_iff.mpr hn)

section

variable {var : Char} {raw : RawTerm}

/-- A term can be read exactly if its parts are numerals below the limit and an exponent. -/
lemma exists_readTerm_iff :
    (∃ t, readTerm var raw = .ok t) ↔
      var ∉ raw.body ∧ FiniteNumeral raw.body ∨
        ∃ leading trailing, raw.body = leading ++ var :: trailing ∧ var ∉ leading ∧
          (leading = [] ∨ FiniteNumeral leading) ∧ ∃ n, ExponentValue trailing n := by
  constructor
  · rintro ⟨t, ht⟩
    have h := readTerm_eq_ok_iff.mp ht
    generalize raw.body = body at h
    cases h with
    | constant hnot hm => exact .inl ⟨hnot, exists_coefficient?_iff.mp ⟨_, hm⟩⟩
    | power hnot hm hn =>
      exact .inr ⟨_, _, rfl, hnot, exists_readsLeading_iff.mp ⟨_, hm⟩, _,
        readsTrailing_iff.mp hn⟩
  · rintro (⟨hnot, hfinite⟩ | ⟨leading, trailing, hbody, hnot, hleading, n, hn⟩)
    · obtain ⟨m, hm⟩ := exists_coefficient?_iff.mpr hfinite
      exact ⟨_, readTerm_eq_ok_iff.mpr (.constant hnot hm)⟩
    · obtain ⟨m, hm⟩ := exists_readsLeading_iff.mpr hleading
      refine ⟨.power raw.sign m n, readTerm_eq_ok_iff.mpr ?_⟩
      rw [hbody]
      exact .power hnot hm (readsTrailing_iff.mpr hn)

/-- A term is refused as empty exactly if it is. -/
lemma emptyTerm_iff :
    (∃ spans, readTerm var raw = .error ⟨.emptyTerm, spans⟩) ↔ raw.body = [] := by
  constructor
  · rintro ⟨spans, h⟩
    cases readTerm_eq_error_iff.mp h with
    | empty hnil => exact hnil
  · intro h
    exact ⟨_, readTerm_of_nil h⟩

/-- What precedes the variable is reported if it is neither missing nor a numeral; what follows it
does not matter. -/
lemma malformedCoefficient_iff {text : List Char} :
    (∃ spans, readTerm var raw = .error ⟨.malformedCoefficient text, spans⟩) ↔
      text ≠ [] ∧ text = raw.body.takeWhile (· != var) ∧ ¬FiniteNumeral text := by
  constructor
  · rintro ⟨spans, h⟩
    cases readTerm_eq_error_iff.mp h with
    | constant hne hnot hnone =>
      refine ⟨hne, ?_, coefficient?_eq_none_iff.mp hnone⟩
      exact (List.takeWhile_eq_self_iff.mpr (bne_var_of_notMem hnot)).symm
    | coefficient hbody hnot hne hnone =>
      refine ⟨hne, ?_, coefficient?_eq_none_iff.mp hnone⟩
      rw [hbody, takeWhile_ne_var hnot]
  · rintro ⟨hne, htext, hfinite⟩
    have hnone := coefficient?_eq_none_iff.mpr hfinite
    rcases notMem_or_divided var raw.body with hnot | ⟨leading, trailing, hbody, hnot⟩
    · rw [List.takeWhile_eq_self_iff.mpr (bne_var_of_notMem hnot)] at htext
      rw [htext] at hne hnone ⊢
      exact ⟨_, readTerm_eq_error_iff.mpr (.constant hne hnot hnone)⟩
    · rw [hbody, takeWhile_ne_var hnot] at htext
      rw [htext] at hne hnone ⊢
      exact ⟨_, readTerm_eq_error_iff.mpr (.coefficient hbody hnot hne hnone)⟩

/-- A term is refused for its exponent exactly if all before it can be read. -/
lemma malformedExponent_iff {text : List Char} {issue : ExponentIssue} :
    (∃ spans, readTerm var raw = .error ⟨.malformedExponent text issue, spans⟩) ↔
      ∃ leading trailing, raw.body = leading ++ var :: trailing ∧ var ∉ leading ∧
        (leading = [] ∨ FiniteNumeral leading) ∧ TrailingFault trailing text issue := by
  constructor
  · rintro ⟨spans, h⟩
    cases readTerm_eq_error_iff.mp h with
    | exponent hbody hnot hm htrailing =>
      exact ⟨_, _, hbody, hnot, exists_readsLeading_iff.mp ⟨_, hm⟩,
        misreadsTrailing_iff.mp htrailing⟩
  · rintro ⟨leading, trailing, hbody, hnot, hleading, hfault⟩
    obtain ⟨m, hm⟩ := exists_readsLeading_iff.mpr hleading
    exact ⟨_, readTerm_eq_error_iff.mpr
      (.exponent hbody hnot hm (misreadsTrailing_iff.mpr hfault))⟩

end

/-- A term is negative exactly if it starts with a minus sign. -/
lemma sign_eq_negative_iff (raw : RawTerm) :
    raw.sign = .negative ↔ raw.text.head? = some '-' := by
  unfold RawTerm.sign
  split
  · rename_i rest htext
    simp [htext]
  · rename_i hminus
    constructor
    · intro h
      cases h
    · intro h
      obtain ⟨rest, hrest⟩ := List.head?_eq_some_iff.mp h
      exact absurd hrest (hminus rest)

/-- A term is read exactly if it is a numeral that is not too large, or a coefficient, the variable
and an exponent, and then it has their values. Otherwise the error is, in this order, that of an
empty body, of a coefficient, of an exponent. -/
theorem readTerm_grammar (var : Char) (raw : RawTerm) :
    ((∃ t, readTerm var raw = .ok t) ↔
      var ∉ raw.body ∧ FiniteNumeral raw.body ∨
        ∃ leading trailing, raw.body = leading ++ var :: trailing ∧ var ∉ leading ∧
          (leading = [] ∨ FiniteNumeral leading) ∧ ∃ n, ExponentValue trailing n) ∧
    (∀ t, readTerm var raw = .ok t ↔ TermValue var raw.sign raw.body t) ∧
    (raw.sign = .negative ↔ raw.text.head? = some '-') ∧
    ((∃ spans, readTerm var raw = .error ⟨.emptyTerm, spans⟩) ↔ raw.body = []) ∧
    (∀ text, (∃ spans, readTerm var raw = .error ⟨.malformedCoefficient text, spans⟩) ↔
      text ≠ [] ∧ text = raw.body.takeWhile (· != var) ∧ ¬FiniteNumeral text) ∧
    (∀ text issue, (∃ spans, readTerm var raw = .error ⟨.malformedExponent text issue, spans⟩) ↔
      ∃ leading trailing, raw.body = leading ++ var :: trailing ∧ var ∉ leading ∧
        (leading = [] ∨ FiniteNumeral leading) ∧ TrailingFault trailing text issue) ∧
    ∀ spans, readTerm var raw ≠ .error ⟨.coefficientOverflow, spans⟩ := by
  refine ⟨exists_readTerm_iff, ?_, sign_eq_negative_iff raw, emptyTerm_iff, ?_, ?_, ?_⟩
  · intro t
    exact readTerm_eq_ok_iff.trans reads_iff
  · intro text
    exact malformedCoefficient_iff
  · intro text issue
    exact malformedExponent_iff
  · intro spans h
    cases readTerm_eq_error_iff.mp h

/-- The caret may be the variable: it stands where it occurs first, and the next one is a caret. -/
example : (readTerm '^' ⟨0, "-2^^3".toList⟩).map Term.exponent = .ok 3 := by decide +kernel

end PowerRule
