import Mathlib.Data.List.TFAE
import Mathlib.Tactic.Lemma
import Mathlib.Tactic.TFAE
import PowerRule.Proofs.LongestMatch
import PowerRule.Proofs.StableText
import PowerRule.Proofs.Sum

/-!
# Texts of binary64 numbers

All the texts that a binary64 number can be written as (`Binary64.parse?`): digits with a point or
without one, and after them a power of ten if there is one; or the name of an infinity or of NaN; in
front of both a sign. Of these the numerals are a part, and they are read as what they stand for
(`Binary64.parse?_of_ofText?`). `isNumeral_grammar` says which texts are numerals, in the grammar,
for a scan and for the tokens, and that every one of them is read as a number.
-/

namespace PowerRule

attribute [local irreducible] twoTo tenTo

namespace Binary64

/-! ## Reading a number -/

/-- The sign in front of a text, which is positive if none is written, and what follows it. -/
def splitSign : List Char → Sign × List Char
  | '-' :: rest => (.negative, rest)
  | '+' :: rest => (.positive, rest)
  | text => (.positive, text)

/-- The power of ten that is written after digits: an `e` of either case, a sign or none, and
digits. If nothing is written the power is zero. -/
def powerOfTen? : List Char → Option ℤ
  | [] => some 0
  | e :: rest =>
    let (sign, digits) := splitSign rest
    if e.toLower = 'e' ∧ digits ≠ [] ∧ digits.all Char.isDigit then
      some (sign.factor * Nat.ofDigitChars 10 digits 0)
    else
      none

/-- A whole number times a power of ten, rounded once. -/
def ofPowerOfTen (sign : Sign) (coefficient : Nat) (power : ℤ) : Binary64 :=
  ofRatio sign (coefficient * tenTo power.toNat * one) (tenTo (-power).toNat)

/-- The number that is written with digits: before a point, after it, or both, and then a power of
ten. -/
def decimal? (sign : Sign) (text : List Char) : Option Binary64 :=
  let whole := text.takeWhile Char.isDigit
  let (fraction, rest) :=
    match text.dropWhile Char.isDigit with
    | '.' :: more => (more.takeWhile Char.isDigit, more.dropWhile Char.isDigit)
    | more => ([], more)
  if whole ++ fraction = [] then
    none
  else
    (powerOfTen? rest).map fun power =>
      ofPowerOfTen sign (Nat.ofDigitChars 10 (whole ++ fraction) 0) (power - fraction.length)

/-- The number that a name stands for, in letters of either case. -/
def named? (sign : Sign) (text : List Char) : Option Binary64 :=
  let name := text.map Char.toLower
  if name = "inf".toList ∨ name = "infinity".toList then some (infinite sign)
  else if name = "nan".toList then some nan
  else none

/-- The number that a text stands for. -/
def parse? (text : List Char) : Option Binary64 :=
  let (sign, rest) := splitSign text
  (decimal? sign rest).or (named? sign rest)

/-! ## Numerals -/

/-- Digits alone are scaled by a negative power of ten, one for each place after the point. -/
lemma ofPowerOfTen_places (sign : Sign) (coefficient places : Nat) :
    ofPowerOfTen sign coefficient (0 - places) =
      ofRatio sign (coefficient * one) (tenTo places) := by
  have hup : (0 - (places : ℤ)).toNat = 0 := by omega
  have hdown : (-(0 - (places : ℤ))).toNat = places := by omega
  rw [ofPowerOfTen, hup, hdown, tenTo_zero, Nat.mul_one]

/-- Digits around a point are read as the decimal that they stand for. -/
lemma decimal?_pointed (sign : Sign) {whole fraction : List Char} (hw : Digits whole)
    (hf : Digits fraction) (hne : whole ++ fraction ≠ []) :
    decimal? sign (whole ++ '.' :: fraction) =
      some (ofRatio sign (Nat.ofDigitChars 10 (whole ++ fraction) 0 * one)
        (tenTo fraction.length)) := by
  have htake : (whole ++ '.' :: fraction).takeWhile Char.isDigit = whole := by
    rw [hw.takeWhile_append]
    simp
  have hdrop : (whole ++ '.' :: fraction).dropWhile Char.isDigit = '.' :: fraction := by
    rw [hw.dropWhile_append]
    simp
  simp only [decimal?, htake, hdrop, hf.takeWhile_eq, hf.dropWhile_eq, if_neg hne, powerOfTen?,
    Option.map_some, ofPowerOfTen_places]

/-- A numeral is read as the decimal that it stands for. -/
lemma decimal?_of_numeral (sign : Sign) {text : List Char} (h : Numeral text) :
    decimal? sign text =
      some (ofRatio sign ((Decimal.ofNumeral text).coefficient * one)
        (tenTo (Decimal.ofNumeral text).places)) := by
  cases h with
  | whole hne hd =>
    simp only [decimal?, hd.takeWhile_eq, hd.dropWhile_eq, List.append_nil, if_neg hne,
      powerOfTen?, Option.map_some, List.length_nil, ofPowerOfTen_places,
      Decimal.ofNumeral_digits hd]
  | @pointed whole fraction hne hw hf =>
    rw [Decimal.ofNumeral_pointed hw]
    apply decimal?_pointed sign hw hf
    exact List.append_ne_nil_of_left_ne_nil hne fraction
  | @fraction digits hne hd =>
    rw [Decimal.ofNumeral_fraction]
    exact decimal?_pointed sign .nil hd hne

/-- What follows a sign is read with it. -/
lemma parse?_of_decimal? {sign : Sign} {text rest : List Char} {x : Binary64}
    (hsplit : splitSign text = (sign, rest)) (h : decimal? sign rest = some x) :
    parse? text = some x := by
  rw [parse?, hsplit]
  show (decimal? sign rest).or _ = some x
  rw [h, Option.some_or]

/-- What is read as a numeral with a sign is read so among all texts of numbers. -/
theorem parse?_of_ofText? {text : List Char} {x : Binary64} (h : ofText? text = some x) :
    parse? text = some x := by
  unfold ofText? at h
  split at h
  · rename_i digits
    obtain ⟨d, hd, rfl⟩ := Option.map_eq_some_iff.mp h
    obtain ⟨hn, rfl⟩ := Decimal.ofText?_eq_some hd
    have hsplit : splitSign ('-' :: digits) = (.negative, digits) := rfl
    apply parse?_of_decimal? hsplit
    rw [decimal?_of_numeral .negative hn, Decimal.toBinary64, neg_ofRatio]
    rfl
  · rename_i digits
    obtain ⟨d, hd, rfl⟩ := Option.map_eq_some_iff.mp h
    obtain ⟨hn, rfl⟩ := Decimal.ofText?_eq_some hd
    have hsplit : splitSign ('+' :: digits) = (.positive, digits) := rfl
    exact parse?_of_decimal? hsplit (decimal?_of_numeral .positive hn)
  · rename_i hminus hplus
    obtain ⟨d, hd, rfl⟩ := Option.map_eq_some_iff.mp h
    obtain ⟨hn, rfl⟩ := Decimal.ofText?_eq_some hd
    have hsplit : splitSign text = (.positive, text) := by
      unfold splitSign
      split
      · exact absurd rfl (hminus _)
      · exact absurd rfl (hplus _)
      · rfl
    exact parse?_of_decimal? hsplit (decimal?_of_numeral .positive hn)

/-- Names and powers of ten are read, and a rest is not. -/
example : parse? "-2.5e+1".toList = some (-.ofNat 25) ∧
    parse? "+Inf".toList = some (.infinite .positive) ∧
    parse? "1e".toList = none ∧ parse? ".".toList = none := by decide +kernel

end Binary64

/-! ## The numbers of decimals -/

namespace Decimal

/-- A decimal is read as a magnitude or, if it is too large for one, as infinity. -/
lemma toBinary64_cases (d : Decimal) :
    (∃ m, d.nearest? = some m ∧ d.toBinary64 = .finite .positive m) ∨
      d.nearest? = none ∧ d.toBinary64 = .infinite .positive := by
  cases h : d.nearest? with
  | none => exact .inr ⟨rfl, Binary64.ofRatio_of_none h .positive⟩
  | some m => exact .inl ⟨m, rfl, Binary64.ofRatio_of_some h .positive⟩

/-- A decimal is a finite number if its value is rounded to one. -/
lemma toBinary64_eq_finite_iff {d : Decimal} {m : Magnitude} :
    d.toBinary64 = .finite .positive m ↔ RoundsTo d.value m := by
  rw [← nearest?_eq_some_iff]
  rcases d.toBinary64_cases with ⟨n, hn, hx⟩ | ⟨hn, hx⟩
  · rw [hn, hx]
    simp
  · rw [hn, hx]
    simp

/-- It is infinite from the limit on. -/
lemma toBinary64_eq_infinite_iff {d : Decimal} :
    d.toBinary64 = .infinite .positive ↔ 2 ^ 1024 - 2 ^ 970 ≤ d.value := by
  rw [← nearest?_eq_none_iff]
  rcases d.toBinary64_cases with ⟨n, hn, hx⟩ | ⟨hn, hx⟩
  · rw [hn, hx]
    simp
  · rw [hn, hx]
    simp

/-- What is read is neither NaN nor below zero. -/
lemma toBinary64_nonneg (d : Decimal) : d.toBinary64 ≠ .nan ∧ d.toBinary64.isNegative = false := by
  rcases d.toBinary64_cases with ⟨n, _, hx⟩ | ⟨_, hx⟩
  · rw [hx]
    exact ⟨nofun, rfl⟩
  · rw [hx]
    exact ⟨nofun, rfl⟩

end Decimal

/-! ## Texts that are numerals -/

/-- A text that is a token of kind numeral to its end is scanned as this one token. -/
lemma Begins.scans {text : List Char} {kind : TokenKind} (h : Begins text kind text) :
    Scans 0 text [⟨some kind, 0, text⟩] :=
  .token h (List.append_nil text) .done

/-- A numeral begins with itself. -/
lemma Numeral.begins {text : List Char} (h : Numeral text) : Begins text .numeral text := by
  have hlongest := h.longestNumeral_eq
  have hne : longestNumeral text ≠ [] := hlongest.symm ▸ h.ne_nil
  have hbegins := begins_numeral hne
  rwa [hlongest] at hbegins

/-- The texts that are numerals: those of the grammar, digits with a point among them or without
one; those at whose start the longest token is a numeral that leaves nothing; those that a scan
finds one numeral in and nothing else; those that have one token, a numeral. Each of them is read as
a number that is neither NaN nor below zero: as the magnitude that the written number is rounded to,
or as infinity from halfway between the largest magnitude and the bound on. -/
theorem isNumeral_grammar (text : List Char) :
    [isNumeral text = true,
      Numeral text,
      Begins text .numeral text,
      ∃ m, Scans 0 text [m] ∧ m.kind = some .numeral,
      ∃ t, tokens text = [t] ∧ t.kind = .numeral].TFAE ∧
    (isNumeral text = true →
      ∃ q x, NumeralValue text q ∧ Binary64.parse? text = some x ∧
        x ≠ .nan ∧ x.isNegative = false ∧
        (∀ m, x = .finite .positive m ↔ RoundsTo q m) ∧
        (x = .infinite .positive ↔ 2 ^ 1024 - 2 ^ 970 ≤ q)) := by
  constructor
  · tfae_have 1 ↔ 2 := isNumeral_iff
    tfae_have 2 → 3 := Numeral.begins
    tfae_have 3 → 4 := by
      intro hbegins
      exact ⟨_, hbegins.scans, rfl⟩
    tfae_have 4 → 5 := by
      rintro ⟨m, hscan, hkind⟩
      obtain ⟨found, hfound, htokens⟩ := Scans.exists_tokensFrom 0 text
      rw [← hscan.unique hfound] at htokens
      refine ⟨m.token, htokens, ?_⟩
      rw [Match.token, hkind, Option.getD_some]
    tfae_have 5 → 1 := by
      rintro ⟨t, htokens, hkind⟩
      rw [isNumeral, htokens]
      exact beq_iff_eq.mpr hkind
    tfae_finish
  · intro h
    have hn := isNumeral_iff.mp h
    obtain ⟨q, hq⟩ := hn.exists_value
    have hparse : Binary64.parse? text = some (Decimal.ofNumeral text).toBinary64 := by
      apply Binary64.parse?_of_ofText?
      rw [Binary64.ofText?_of_numeral hn, hn.ofText?_eq, Option.map_some]
    have hvalue := hq.value_eq
    obtain ⟨hnan, hnegative⟩ := (Decimal.ofNumeral text).toBinary64_nonneg
    refine ⟨q, _, hq, hparse, hnan, hnegative, ?_, ?_⟩
    · intro m
      rw [hvalue]
      exact Decimal.toBinary64_eq_finite_iff
    · rw [hvalue]
      exact Decimal.toBinary64_eq_infinite_iff

/-- Zeros at either end belong to a numeral; a power of ten does not. -/
theorem isNumeral_grammar_zeros :
    isNumeral "00.50".toList = true ∧
    Scans 0 "00.50".toList [⟨some .numeral, 0, "00.50".toList⟩] ∧
    (∃ x, Binary64.parse? "00.50".toList = some x ∧ x ≠ .nan ∧ x.isNegative = false) ∧
    ¬Numeral "1e5".toList ∧ (Binary64.parse? "1e5".toList).isSome = true := by
  have hnumeral : isNumeral "00.50".toList = true := by decide +kernel
  obtain ⟨hequivalent, hparse⟩ := isNumeral_grammar "00.50".toList
  obtain ⟨q, x, _, hx, hnan, hnegative, _⟩ := hparse hnumeral
  have hbegins : Begins "00.50".toList .numeral "00.50".toList :=
    (hequivalent.out 0 2).mp hnumeral
  obtain ⟨hother, _⟩ := isNumeral_grammar "1e5".toList
  refine ⟨hnumeral, hbegins.scans, ⟨x, hx, hnan, hnegative⟩, ?_, by decide +kernel⟩
  intro h
  exact absurd ((hother.out 0 1).mpr h) (by decide +kernel)

end PowerRule
