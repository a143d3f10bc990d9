import Mathlib.Tactic.Lemma
import PowerRule.Proofs.LongestMatch
import PowerRule.Proofs.MonomialText
import PowerRule.Proofs.StableText

/-!
# Negative zeros in texts

A text writes a negative zero where a minus stands before a numeral that has no digits but zeros
(`WritesNegativeZero`). A zero is written without a sign, and what follows the minus of another
number is not zero, so no monomial is written with one (`Monomial.writesNegativeZero_format`). This
holds in every variable but `0`: in that one minus one times the variable is written `-0`.
-/

namespace PowerRule

attribute [local irreducible] twoTo fiveTo tenTo

/-! ## Negative zeros in a text -/

/-- The number at the start of the text has no digits but zeros. -/
def StartsWithZero (text : List Char) : Prop :=
  ∃ numeral, LongestNumeral text numeral ∧ ∀ c ∈ numeral, c = '0' ∨ c = '.'

/-- Somewhere in the text a minus stands before a zero. -/
def WritesNegativeZero (text : List Char) : Prop :=
  ∃ before after, text = before ++ '-' :: after ∧ StartsWithZero after

/-- A numeral that ends where the text begins does not go on in the text. -/
def EndsNumeral (text : List Char) : Prop := ∀ c ∈ text.head?, c.isDigit = false ∧ c ≠ '.'

namespace EndsNumeral

/-- A numeral ends at the end. -/
lemma nil : EndsNumeral [] := nofun

/-- It ends before a character that is neither a digit nor a point. -/
lemma cons {c : Char} (hdigit : c.isDigit = false) (hpoint : c ≠ '.') (rest : List Char) :
    EndsNumeral (c :: rest) := by
  intro d hd
  cases hd
  exact ⟨hdigit, hpoint⟩

/-- The first character of such a text is in no numeral. -/
lemma notMem {c : Char} {rest numeral : List Char} (h : EndsNumeral (c :: rest))
    (hn : Numeral numeral) : c ∉ numeral := by
  intro hc
  obtain ⟨hdigit, hpoint⟩ := h c rfl
  rcases hn.mem hc with hc | hc
  · rw [hdigit] at hc
    cases hc
  · exact hpoint hc

/-- What ends a numeral does not start with zero. -/
lemma not_startsWithZero {text : List Char} (h : EndsNumeral text) : ¬StartsWithZero text := by
  rintro ⟨numeral, hlongest, _⟩
  have hnumeral := hlongest.isNumeral
  obtain ⟨c, more, rfl⟩ := List.exists_cons_of_ne_nil hnumeral.ne_nil
  obtain ⟨after, rfl⟩ := hlongest.initial
  exact h.notMem hnumeral List.mem_cons_self

/-- Before such a text there is room for a numeral of one character only. -/
lemma eq_singleton {rest : List Char} (h : EndsNumeral rest) {c : Char} {numeral : List Char}
    (hn : Numeral numeral) (hinitial : numeral <+: c :: rest) : numeral = [c] := by
  obtain ⟨d, more, rfl⟩ := List.exists_cons_of_ne_nil hn.ne_nil
  obtain ⟨rfl, hmore⟩ := List.cons_prefix_cons.mp hinitial
  cases more with
  | nil => rfl
  | cons e more =>
    obtain ⟨after, rfl⟩ := hmore
    have he : e ∈ d :: e :: more := List.mem_cons_of_mem d List.mem_cons_self
    exact absurd he (h.notMem hn)

/-- One character before it starts with zero exactly if it is a zero. -/
lemma startsWithZero_cons_iff {rest : List Char} (h : EndsNumeral rest) (c : Char) :
    StartsWithZero (c :: rest) ↔ c = '0' := by
  constructor
  · rintro ⟨numeral, hlongest, hzeros⟩
    have hnumeral := hlongest.isNumeral
    obtain rfl := h.eq_singleton hnumeral hlongest.initial
    apply (hzeros c List.mem_cons_self).resolve_right
    rintro rfl
    -- A point is no numeral.
    exact absurd (isNumeral_iff.mpr hnumeral) (by decide +kernel)
  · rintro rfl
    have hnumeral : Numeral ['0'] := isNumeral_iff.mp (by decide +kernel)
    refine ⟨['0'], ⟨hnumeral, ⟨rest, rfl⟩, ?_⟩, ?_⟩
    · intro n hn hinitial
      rw [h.eq_singleton hn hinitial]
    · intro c hc
      exact .inl (List.mem_singleton.mp hc)

end EndsNumeral

/-- A digit that is not zero stays in the longest numeral. -/
lemma not_startsWithZero_append {numeral : List Char} (hn : Numeral numeral) {c : Char}
    (hc : c ∈ numeral) (hzero : c ≠ '0') (hpoint : c ≠ '.') (rest : List Char) :
    ¬StartsWithZero (numeral ++ rest) := by
  rintro ⟨longest, hlongest, hzeros⟩
  have hinitial : numeral <+: numeral ++ rest := ⟨rest, rfl⟩
  have hpart : numeral <+: longest :=
    List.prefix_of_prefix_length_le hinitial hlongest.initial (hlongest.longest _ hn hinitial)
  rcases hzeros c (hpart.subset hc) with h | h
  · exact hzero h
  · exact hpoint h

namespace WritesNegativeZero

/-- Nothing is written without characters. -/
lemma not_nil : ¬WritesNegativeZero [] := by
  rintro ⟨before, after, h, _⟩
  simp at h

/-- Negative zero is written at the start or later. -/
lemma cons_iff {c : Char} {text : List Char} :
    WritesNegativeZero (c :: text) ↔ c = '-' ∧ StartsWithZero text ∨ WritesNegativeZero text := by
  constructor
  · rintro ⟨before, after, h, hzero⟩
    cases before with
    | nil =>
      obtain ⟨rfl, rfl⟩ := List.cons.inj h
      exact .inl ⟨rfl, hzero⟩
    | cons d before =>
      obtain ⟨rfl, rfl⟩ := List.cons.inj h
      exact .inr ⟨before, after, rfl, hzero⟩
  · rintro (⟨rfl, hzero⟩ | ⟨before, after, rfl, hzero⟩)
    · exact ⟨[], text, rfl, hzero⟩
    · exact ⟨c :: before, after, rfl, hzero⟩

/-- A part without a minus sign may be left out. -/
lemma append_iff {part : List Char} (h : '-' ∉ part) (text : List Char) :
    WritesNegativeZero (part ++ text) ↔ WritesNegativeZero text := by
  induction part with
  | nil => rfl
  | cons c part ih =>
    obtain ⟨hc, hpart⟩ := List.ne_and_not_mem_of_not_mem_cons h
    rw [List.cons_append, cons_iff, ih hpart]
    exact or_iff_right fun hminus => hc hminus.1.symm

/-- Without a minus sign negative zero is not written. -/
lemma not_of_notMem {text : List Char} (h : '-' ∉ text) : ¬WritesNegativeZero text := by
  rw [← List.append_nil text, append_iff h]
  exact not_nil

end WritesNegativeZero

/-! ## Monomials -/

/-- Digits have no minus sign. -/
lemma minus_notMem_toDigits (n : Nat) : '-' ∉ Nat.toDigits 10 n := by
  intro h
  exact absurd (Digits.toDigits n _ h) (by decide)

/-- Neither has an exponent. -/
lemma minus_notMem_power (style : ExponentStyle) (n : Nat) : '-' ∉ style.power n := by
  have hdigits := minus_notMem_toDigits n
  unfold ExponentStyle.power
  split
  · exact List.not_mem_nil
  · cases style with
    | plain => simp [hdigits]
    | latex => simp [hdigits]

/-- Zeros as digits are zero. -/
lemma ofDigitChars_zeros {digits : List Char} (h : ∀ c ∈ digits, c = '0') :
    Nat.ofDigitChars 10 digits 0 = 0 := by
  rw [List.eq_replicate_of_mem h, Nat.ofDigitChars_replicate_zero, Nat.mul_zero]

/-- A numeral that has no digits but zeros stands for zero. -/
lemma Decimal.isZero_ofNumeral {text : List Char} (hn : Numeral text)
    (h : ∀ c ∈ text, c = '0' ∨ c = '.') : (ofNumeral text).isZero = true := by
  have hzeros {digits : List Char} (hd : Digits digits) (hsub : ∀ c ∈ digits, c ∈ text) :
      Nat.ofDigitChars 10 digits 0 = 0 := by
    apply ofDigitChars_zeros
    intro c hc
    apply (h c (hsub c hc)).resolve_right
    rintro rfl
    exact absurd (hd _ hc) (by decide)
  rw [isZero, beq_iff_eq]
  cases hn with
  | whole _ hd =>
    rw [ofNumeral_digits hd]
    exact hzeros hd fun c hc => hc
  | @pointed whole fraction _ hw hf =>
    rw [ofNumeral_pointed hw]
    apply hzeros (hw.append hf)
    intro c hc
    simp only [List.mem_append, List.mem_cons] at hc ⊢
    tauto
  | @fraction digits _ hd =>
    rw [ofNumeral_fraction]
    exact hzeros hd fun c hc => List.mem_cons_of_mem _ hc

/-- A magnitude that is not zero has a digit that is not zero. -/
lemma Decimal.exists_digit_shortest {a : Magnitude} (h : a.units ≠ 0) :
    ∃ c ∈ (shortest a).text, c ≠ '0' ∧ c ≠ '.' := by
  by_contra hnone
  have hzeros : ∀ c ∈ (shortest a).text, c = '0' ∨ c = '.' := by
    intro c hc
    by_contra hneither
    rw [not_or] at hneither
    exact hnone ⟨c, hc, hneither⟩
  have hzero := nearest?_of_isZero (isZero_ofNumeral (numeral_text _) hzeros)
  rw [ofNumeral_text, nearest?_trim, nearest?_shortest] at hzero
  exact h (congrArg Magnitude.units (Option.some.inj hzero))

namespace Monomial

/-- What is written for a magnitude that is not zero: a numeral with a digit that is not zero, or a
name. -/
lemma magnitudeText_cases {m : Monomial} (h : m.coefficient.isZero = false) :
    (Numeral (m.magnitudeText .canonical) ∧
      ∃ c ∈ m.magnitudeText .canonical, c ≠ '0' ∧ c ≠ '.') ∨
    m.magnitudeText .canonical = Binary64.infinityText ∨
    m.magnitudeText .canonical = Binary64.nanText := by
  obtain ⟨coefficient, n⟩ := m
  cases coefficient with
  | nan => exact .inr (.inr rfl)
  | infinite s => exact .inr (.inl rfl)
  | finite s a =>
    have hunits : a.units ≠ 0 := by simpa [Binary64.isZero] using h
    have htext : magnitudeText .canonical ⟨.finite s a, n⟩ = (Decimal.shortest a).text :=
      formatNumber_positive none a
    rw [htext]
    exact .inl ⟨Decimal.numeral_text _, Decimal.exists_digit_shortest hunits⟩

/-- A magnitude is written without a minus sign. -/
lemma minus_notMem_magnitudeText {m : Monomial} (h : m.coefficient.isZero = false) :
    '-' ∉ m.magnitudeText .canonical := by
  intro hminus
  rcases magnitudeText_cases h with ⟨hn, _⟩ | htext | htext
  · exact hn.not_isSignMark hminus (.inr rfl)
  · rw [htext] at hminus
    exact absurd hminus (by decide)
  · rw [htext] at hminus
    exact absurd hminus (by decide)

/-- A magnitude that is not zero is not written as zero. -/
lemma not_startsWithZero_magnitudeText {m : Monomial} (h : m.coefficient.isZero = false)
    (rest : List Char) : ¬StartsWithZero (m.magnitudeText .canonical ++ rest) := by
  rcases magnitudeText_cases h with ⟨hn, c, hc, hzero, hpoint⟩ | htext | htext
  · exact not_startsWithZero_append hn hc hzero hpoint rest
  · rw [htext]
    exact (EndsNumeral.cons rfl (by decide) _).not_startsWithZero
  · rw [htext]
    exact (EndsNumeral.cons rfl (by decide) _).not_startsWithZero

/-- Only one is written as `1`. -/
lemma magnitudeText_eq_one_iff (m : Monomial) :
    m.magnitudeText .canonical = ['1'] ↔ m.coefficient.abs = .finite .positive .one := by
  constructor
  · obtain ⟨coefficient, n⟩ := m
    intro htext
    cases coefficient with
    | nan => exact absurd (show Binary64.nanText = ['1'] from htext) (by decide)
    | infinite s => exact absurd (show Binary64.infinityText = ['1'] from htext) (by decide)
    | finite s a =>
      have ha := coefficient?_magnitudeText_canonical s a n
      rw [htext, coefficient?_one] at ha
      rw [← Option.some.inj ha]
      rfl
  · intro habs
    rw [magnitudeText, habs, formatNumber_positive, Magnitude.one_eq_whole]
    exact Decimal.text_shortest_whole (twoTo_pos 53) Nat.one_pos

/-- A zero is written without a sign, an exponent or the variable. -/
lemma format_of_isZero {m : Monomial} (h : m.coefficient.isZero = true) (style : Style)
    (var : Char) : m.format style var = ['0'] := by
  apply format_of_not_survives
  simp [survives, h]

/-- Any other number is written with its sign and its magnitude. -/
lemma format_of_not_isZero {m : Monomial} (h : m.coefficient.isZero = false) (var : Char) :
    m.format .canonical var =
      m.signText true ++
        unsignedText .canonical var (m.magnitudeText .canonical) m.exponent := by
  have hsurvives : m.survives .canonical = true := by
    rw [survives_of_no_precision rfl, h]
    rfl
  exact (termText_eq_format hsurvives var true).symm

/-- What follows the variable ends a numeral. -/
lemma endsNumeral_power {rest : List Char} (hrest : EndsNumeral rest) (style : ExponentStyle)
    (n : Nat) : EndsNumeral (style.power n ++ rest) := by
  unfold ExponentStyle.power
  split
  · exact hrest
  · cases style with
    | plain => exact .cons rfl (by decide) _
    | latex => exact .cons rfl (by decide) _

section

variable {m : Monomial} (h : m.coefficient.isZero = false) {rest : List Char}
  (hrest : EndsNumeral rest) (var : Char)

include h hrest

/-- Without its sign a monomial looks like a zero only if it is the variable and that is a `0`. -/
lemma startsWithZero_unsignedText :
    StartsWithZero (unsignedText .canonical var (m.magnitudeText .canonical) m.exponent ++ rest) ↔
      var = '0' ∧ m.coefficient.abs = .finite .positive .one ∧ 0 < m.exponent := by
  have hpower := endsNumeral_power hrest Style.canonical.exponents m.exponent
  rw [← magnitudeText_eq_one_iff m, unsignedText]
  split_ifs with hexponent hone
  · simp [not_startsWithZero_magnitudeText h, hexponent]
  · have hzero := hpower.startsWithZero_cons_iff var
    simpa [hone, Nat.pos_iff_ne_zero.mpr hexponent] using hzero
  · have hzero := not_startsWithZero_magnitudeText h
      (var :: (Style.canonical.exponents.power m.exponent ++ rest))
    simpa [hone] using hzero

/-- A minus within a monomial is the variable, and no zero follows it. -/
lemma writesNegativeZero_unsignedText :
    WritesNegativeZero
        (unsignedText .canonical var (m.magnitudeText .canonical) m.exponent ++ rest) ↔
      WritesNegativeZero rest := by
  have hminus := minus_notMem_magnitudeText h
  have hpower := endsNumeral_power hrest Style.canonical.exponents m.exponent
  have hvariable :
      WritesNegativeZero (var :: (Style.canonical.exponents.power m.exponent ++ rest)) ↔
        WritesNegativeZero rest := by
    rw [WritesNegativeZero.cons_iff, WritesNegativeZero.append_iff (minus_notMem_power _ _)]
    exact or_iff_right fun hzero => hpower.not_startsWithZero hzero.2
  unfold unsignedText
  split_ifs
  · exact WritesNegativeZero.append_iff hminus rest
  · exact hvariable
  · rw [List.append_assoc, WritesNegativeZero.append_iff hminus]
    exact hvariable

end

/-- A number is minus one if it is below zero and its magnitude is one. -/
lemma isNegative_and_abs_iff (x : Binary64) :
    x.isNegative = true ∧ x.abs = .finite .positive .one ↔ x = .finite .negative .one := by
  constructor
  · rintro ⟨hnegative, habs⟩
    cases x with
    | nan => cases hnegative
    | infinite s => cases habs
    | finite s a =>
      cases habs
      cases s with
      | positive => cases hnegative
      | negative => rfl
  · rintro rfl
    exact ⟨by decide +kernel, rfl⟩

/-- A monomial is written without a negative zero, unless the variable is a `0` and follows the
minus. -/
theorem writesNegativeZero_format (var : Char) (m : Monomial) {rest : List Char}
    (hrest : EndsNumeral rest) :
    WritesNegativeZero (m.format .canonical var ++ rest) ↔
      (var = '0' ∧ m.coefficient = .finite .negative .one ∧ 0 < m.exponent) ∨
        WritesNegativeZero rest := by
  cases hzero : m.coefficient.isZero with
  | true =>
    have hone : m.coefficient ≠ .finite .negative .one := by
      intro hone
      rw [hone] at hzero
      exact absurd hzero (by decide +kernel)
    rw [format_of_isZero hzero, WritesNegativeZero.append_iff (by decide)]
    simp [hone]
  | false =>
    have hstarts := startsWithZero_unsignedText hzero hrest var
    have hwrites := writesNegativeZero_unsignedText hzero hrest var
    have hone := isNegative_and_abs_iff m.coefficient
    -- The sign is the only minus that a numeral can follow.
    rw [format_of_not_isZero hzero, ← hone, signText]
    split
    · rename_i hnegative
      rw [List.append_assoc, List.singleton_append, WritesNegativeZero.cons_iff, hstarts, hwrites]
      simp [hnegative]
    · rename_i hnegative
      rw [if_pos rfl, List.nil_append, hwrites]
      simp [hnegative]

end Monomial

end PowerRule
