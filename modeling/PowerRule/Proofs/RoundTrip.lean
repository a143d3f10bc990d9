import Mathlib.Tactic.Lemma
import PowerRule.Format
import PowerRule.Proofs.Joining
import PowerRule.Proofs.Whole

/-!
# Reading back a written polynomial

A polynomial that was written is read term by term: the text is put together from terms
(`Polynomial.formatTerms_eq_flatten`), it is cut into the same terms again, and each of them is read
as the monomial that it was written for. Without a precision that is the stored monomial, with one
it is the monomial of the rounded coefficient (`Monomial.reread`). `Polynomial.readTerms_format` is
the result for the whole polynomial.
-/

namespace PowerRule

attribute [local irreducible] twoTo tenTo

namespace Binary64

/-- The sign of a number below zero, and the positive sign of all others. -/
def termSign (x : Binary64) : Sign := if x.isNegative then .negative else .positive

end Binary64

/-- The binary64 number that a numeral stands for. -/
def Binary64.ofNumeral (text : List Char) : Binary64 := (Decimal.ofNumeral text).toBinary64

namespace Monomial

/-- The term is written in a polynomial. -/
def survives (style : Style) (m : Monomial) : Bool :=
  !(m.coefficient.isZero || m.magnitudeText style == ['0'])

/-- The monomial that the written one stands for: the number that its magnitude reads as, with the
sign that is written. -/
def reread (style : Style) (m : Monomial) : Monomial :=
  ⟨m.coefficient.termSign.apply (.ofNumeral (m.magnitudeText style)), m.exponent⟩

/-- The sign as it is written; `first` says that nothing precedes it. -/
def signText (first : Bool) (m : Monomial) : List Char :=
  if m.coefficient.isNegative then ['-'] else if first then [] else ['+']

/-- The term as it is written in a polynomial. -/
def termText (style : Style) (var : Char) (first : Bool) (m : Monomial) : List Char :=
  m.signText first ++ unsignedText style var (m.magnitudeText style) m.exponent

end Monomial

namespace Polynomial

/-- The terms that are written, in order. -/
def termTexts (style : Style) (var : Char) (first : Bool) : List Monomial → List (List Char)
  | [] => []
  | m :: rest => m.termText style var first :: termTexts style var false rest

/-- A polynomial is written as the terms that survive, one after the other. -/
lemma formatTerms_eq_flatten (style : Style) (var : Char) (first : Bool) (terms : List Monomial) :
    formatTerms style var first terms =
      (termTexts style var first (terms.filter (Monomial.survives style))).flatten := by
  induction terms generalizing first with
  | nil => rfl
  | cons m rest ih =>
    rw [formatTerms]
    cases hs : m.coefficient.isZero || m.magnitudeText style == ['0'] with
    | true =>
      have hsurvives : m.survives style = false := by simp [Monomial.survives, hs]
      rw [List.filter_cons_of_neg (by simp [hsurvives])]
      simpa [hs] using ih first
    | false =>
      have hsurvives : m.survives style = true := by simp [Monomial.survives, hs]
      rw [List.filter_cons_of_pos hsurvives, termTexts, List.flatten_cons, ← ih false]
      rfl

end Polynomial

/-! ## One term -/

/-- The magnitude that a finite coefficient is read as. -/
lemma Monomial.coefficient?_magnitudeText (style : Style) {m : Monomial}
    (h : m.coefficient.isFinite = true) :
    ∃ c, coefficient? (m.magnitudeText style) = some c ∧
      Binary64.ofNumeral (m.magnitudeText style) = .finite .positive c := by
  obtain ⟨coefficient, n⟩ := m
  cases coefficient with
  | nan => cases h
  | infinite s => cases h
  | finite s a =>
    have htext : magnitudeText style ⟨.finite s a, n⟩ =
        (Decimal.ofMagnitude style.precision a).text := formatNumber_positive style.precision a
    obtain ⟨c, hc⟩ := Option.isSome_iff_exists.mp (nearest?_ofMagnitude_isSome style.precision a)
    refine ⟨c, ?_, ?_⟩
    · rw [htext, Decimal.coefficient?_text, hc]
    · rw [htext, Binary64.ofNumeral, Decimal.toBinary64, Decimal.ofNumeral_text]
      apply Binary64.ofRatio_of_some
      show (Decimal.trim _ _).nearest? = some c
      rw [Decimal.nearest?_trim, hc]

/-! ## Characters -/

section

variable {c : Char} (hc : PlainVariable c)

include hc

/-- A plain variable is in no sign. -/
lemma notMem_signText (first : Bool) (m : Monomial) : c ∉ m.signText first := by
  intro hmem
  unfold Monomial.signText at hmem
  split_ifs at hmem
  · exact hc.not_sign (.inr (List.mem_singleton.mp hmem))
  · cases hmem
  · exact hc.not_sign (.inl (List.mem_singleton.mp hmem))

variable (hbraces : c ≠ '\x7b' ∧ c ≠ '\x7d')

include hbraces

/-- Nor is it in an exponent. -/
lemma notMem_power (style : ExponentStyle) (n : Nat) : c ∉ style.power n := by
  have hdigits : c ∉ Nat.toDigits 10 n := by
    intro hmem
    have hdigit := Digits.toDigits n c hmem
    rw [hc.not_digit] at hdigit
    cases hdigit
  unfold ExponentStyle.power
  split
  · exact List.not_mem_nil
  · cases style with
    | plain => simp [hdigits, hc.not_caret]
    | latex => simp [hdigits, hc.not_caret, hbraces]

variable {var : Char} (hvar : c ≠ var)

include hvar

end

/-! ## One term read back -/

/-- The numeral that is not written reads as one. -/
lemma coefficient?_one : coefficient? ['1'] = some .one := by
  have hnumeral : Numeral ['1'] := .whole (by simp) (by simp [Digits])
  rw [coefficient?_eq_some_iff]
  refine ⟨hnumeral, ?_⟩
  have hone : Decimal.ofNumeral ['1'] = ⟨1, 0⟩ := by decide
  rw [hone, (Decimal.denotes_whole 1).nearest?_eq (twoTo_pos 53), Magnitude.one_eq_whole]

/-- The term that is read where a magnitude and an exponent are written. -/
def Term.written (sign : Sign) (c : Magnitude) (exponent : Nat) : Term :=
  if exponent = 0 then .constant sign c else .power sign c exponent

/-- A written term is the monomial that it was written for. -/
lemma Term.toMonomial_written (sign : Sign) (c : Magnitude) (exponent : Nat) :
    (Term.written sign c exponent).toMonomial = ⟨.finite sign c, exponent⟩ := by
  unfold Term.written
  split
  · rename_i hz
    rw [hz]
    rfl
  · rfl

/-- A written exponent is read back. -/
lemma readsTrailing_power {n : Nat} (hmax : n ≤ maxExponent) :
    ReadsTrailing (ExponentStyle.power .plain n) n := by
  unfold ExponentStyle.power
  split
  · rename_i hone
    rw [hone]
    exact .missing
  · exact .written (exponentOfText_toDigits hmax)

/-- A written term is in the grammar of terms. -/
lemma reads_unsignedText {style : Style} (hplain : style.exponents = .plain) {var : Char}
    (hvar : PlainVariable var) (sign : Sign) {magnitude : List Char} {c : Magnitude}
    (hc : coefficient? magnitude = some c) {n : Nat} (hmax : n ≤ maxExponent) :
    Reads var sign (Monomial.unsignedText style var magnitude n) (Term.written sign c n) := by
  have hnumeral := (coefficient?_eq_some_iff.mp hc).1
  unfold Monomial.unsignedText Term.written
  split
  · exact .constant (hvar.notMem_numeral hnumeral) hc
  · rw [hplain]
    split
    · rename_i hone
      rw [hone, coefficient?_one] at hc
      rw [← Option.some.inj hc]
      exact .power (by simp) .missing (readsTrailing_power hmax)
    · exact .power (hvar.notMem_numeral hnumeral) (.written hc) (readsTrailing_power hmax)

/-! ## Terms with their signs -/

/-- A sign is given to a positive number. -/
lemma Sign.apply_finite_positive (s : Sign) (c : Magnitude) :
    s.apply (.finite .positive c) = .finite s c := by
  cases s with
  | positive => rfl
  | negative => rfl

namespace Monomial

/-- A sign in front of a body is read with it. -/
lemma readTerm_signText {var : Char} {body : List Char} {t : Term} (m : Monomial) (first : Bool)
    (hbody : TermBody body) (h : Reads var m.coefficient.termSign body t) (start : Nat) :
    readTerm var ⟨start, m.signText first ++ body⟩ = .ok t := by
  apply readTerm_eq_ok_iff.mpr
  unfold signText
  cases hneg : m.coefficient.isNegative with
  | true =>
    rw [Binary64.termSign, if_pos hneg] at h
    exact h
  | false =>
    rw [Binary64.termSign, if_neg (by simp [hneg])] at h
    cases first with
    | true =>
      have hfree : ∀ c ∈ (RawTerm.mk start body).text, ¬IsSignMark c := hbody.signFree
      have hsign := RawTerm.sign_eq_positive hfree
      have htext := RawTerm.body_eq_text hfree
      show Reads var (RawTerm.mk start body).sign (RawTerm.mk start body).body t
      rw [hsign, htext]
      exact h
    | false => exact h

/-- Every written term but the first has its sign before it. -/
lemma signedTerm_signText {body : List Char} (m : Monomial) (hbody : TermBody body) :
    SignedTerm (m.signText false ++ body) := by
  unfold signText
  split
  · exact .mk (.inr rfl) hbody
  · exact .mk (.inl rfl) hbody

/-- A term is written with a sign or without. -/
lemma termBody_or_signedTerm_signText {body : List Char} (m : Monomial) (first : Bool)
    (hbody : TermBody body) :
    TermBody (m.signText first ++ body) ∨ SignedTerm (m.signText first ++ body) := by
  cases first with
  | false => exact .inr (signedTerm_signText m hbody)
  | true =>
    unfold signText
    split
    · exact .inr (.mk (.inr rfl) hbody)
    · exact .inl hbody

end Monomial

section

variable {style : Style} (hplain : style.exponents = .plain) {var : Char}
  (hvar : PlainVariable var)

include hplain hvar

/-- The term that a finite monomial is written for. -/
lemma Monomial.exists_reads {m : Monomial} (hfinite : m.coefficient.isFinite = true)
    (hmax : m.exponent ≤ maxExponent) :
    ∃ t, Reads var m.coefficient.termSign
        (unsignedText style var (m.magnitudeText style) m.exponent) t ∧
      t.toMonomial = m.reread style := by
  obtain ⟨c, hc, hnumber⟩ := m.coefficient?_magnitudeText style hfinite
  refine ⟨_, reads_unsignedText hplain hvar _ hc hmax, ?_⟩
  rw [Term.toMonomial_written, reread, hnumber, Sign.apply_finite_positive]

namespace Polynomial

/-- All terms but the first are written with signs. -/
lemma signedTerm_of_mem_termTexts {ms : List Monomial}
    (hfinite : ∀ m ∈ ms, m.coefficient.isFinite = true)
    (hmax : ∀ m ∈ ms, m.exponent ≤ maxExponent) :
    ∀ t ∈ termTexts style var false ms, SignedTerm t := by
  induction ms with
  | nil => simp [termTexts]
  | cons m rest ih =>
    intro t ht
    rcases List.mem_cons.mp ht with rfl | ht
    · obtain ⟨_, hreads, _⟩ := Monomial.exists_reads hplain hvar (hfinite m List.mem_cons_self)
        (hmax m List.mem_cons_self)
      exact Monomial.signedTerm_signText m (hreads.termBody hvar)
    · exact ih (fun m hm => hfinite m (List.mem_cons_of_mem _ hm))
        (fun m hm => hmax m (List.mem_cons_of_mem _ hm)) t ht

/-- The written terms are read as the monomials that they stand for. -/
lemma exists_terms_termTexts {ms : List Monomial}
    (hfinite : ∀ m ∈ ms, m.coefficient.isFinite = true) (hmax : ∀ m ∈ ms, m.exponent ≤ maxExponent)
    (first : Bool) :
    ∃ terms : List Term,
      List.Forall₂ (fun text t => ∀ start, readTerm var ⟨start, text⟩ = .ok t)
        (termTexts style var first ms) terms ∧
      terms.map Term.toMonomial = ms.map (Monomial.reread style) := by
  induction ms generalizing first with
  | nil => exact ⟨[], .nil, rfl⟩
  | cons m rest ih =>
    obtain ⟨t, hreads, ht⟩ := Monomial.exists_reads hplain hvar (hfinite m List.mem_cons_self)
      (hmax m List.mem_cons_self)
    obtain ⟨terms, hall, hterms⟩ := ih (fun m hm => hfinite m (List.mem_cons_of_mem _ hm))
      (fun m hm => hmax m (List.mem_cons_of_mem _ hm)) false
    refine ⟨t :: terms, .cons ?_ hall, ?_⟩
    · exact Monomial.readTerm_signText m first (hreads.termBody hvar) hreads
    · rw [List.map_cons, List.map_cons, ht, hterms]

/-- A polynomial of which some term is written is read back term by term. -/
theorem readTerms_format_of_survivors {p : Polynomial}
    (hfinite : ∀ m ∈ p.terms, m.coefficient.isFinite = true)
    (hmax : ∀ m ∈ p.terms, m.exponent ≤ maxExponent)
    (hne : p.terms.filter (Monomial.survives style) ≠ []) :
    ∃ read, readTerms var (p.format style var) = .ok read ∧
      read.map (fun r => r.2.toMonomial) =
        (p.terms.filter (Monomial.survives style)).map (Monomial.reread style) := by
  obtain ⟨m, rest, hcons⟩ := List.exists_cons_of_ne_nil hne
  have hmem : ∀ n ∈ m :: rest, n ∈ p.terms := by
    intro n hn
    rw [← hcons] at hn
    exact List.mem_of_mem_filter hn
  have hfinite' : ∀ n ∈ m :: rest, n.coefficient.isFinite = true :=
    fun n hn => hfinite n (hmem n hn)
  have hmax' : ∀ n ∈ m :: rest, n.exponent ≤ maxExponent := fun n hn => hmax n (hmem n hn)
  obtain ⟨terms, hall, hterms⟩ := exists_terms_termTexts hplain hvar hfinite' hmax' true
  obtain ⟨_, hreads, _⟩ := Monomial.exists_reads hplain hvar (hfinite' m List.mem_cons_self)
    (hmax' m List.mem_cons_self)
  obtain ⟨read, hread, hsnd⟩ := readTerms_flatten
    (Monomial.termBody_or_signedTerm_signText m true (hreads.termBody hvar))
    (signedTerm_of_mem_termTexts hplain hvar (fun n hn => hfinite' n (List.mem_cons_of_mem _ hn))
      (fun n hn => hmax' n (List.mem_cons_of_mem _ hn)))
    hall
  refine ⟨read, ?_, ?_⟩
  · rw [format, formatTerms_eq_flatten, hcons]
    exact hread
  · rw [hcons, ← hterms, ← hsnd, List.map_map]
    rfl

end Polynomial

end

/-! ## Which terms are written -/

namespace Monomial

/-- Rounded to places, a term is written unless its magnitude is written as zero. -/
lemma survives_places (places : Nat) {m : Monomial} (h : m.coefficient.isFinite = true) :
    m.survives ⟨some places, .plain⟩ = (m.magnitudeText ⟨some places, .plain⟩ != ['0']) := by
  obtain ⟨coefficient, n⟩ := m
  cases coefficient with
  | nan => cases h
  | infinite s => cases h
  | finite s a =>
    cases hz : (Binary64.finite s a).isZero with
    | false => simp [survives, hz, bne]
    | true =>
      have hunits : a.units = 0 := beq_iff_eq.mp hz
      have htext : magnitudeText ⟨some places, .plain⟩ ⟨.finite s a, n⟩ =
          (Decimal.rounded a places).text := formatNumber_positive _ a
      have hzero : (Decimal.rounded a places).isZero = true := by
        simp [Decimal.rounded, Decimal.isZero, hunits, roundDiv]
      simp [survives, hz, htext, Decimal.text_of_isZero hzero]

/-- The shortest text of a magnitude reads as the magnitude. -/
lemma coefficient?_magnitudeText_canonical (s : Sign) (a : Magnitude) (n : Nat) :
    coefficient? (magnitudeText .canonical ⟨.finite s a, n⟩) = some a := by
  have htext : magnitudeText .canonical ⟨.finite s a, n⟩ = (Decimal.shortest a).text :=
    formatNumber_positive none a
  rw [htext, Decimal.coefficient?_text, Decimal.nearest?_shortest]

/-- Zero is a coefficient. -/
lemma coefficient?_zero : coefficient? ['0'] = some (Magnitude.whole 0 (Nat.zero_le _)) := by
  rw [coefficient?_eq_some_iff]
  refine ⟨.whole (by simp) (by simp [Digits]), ?_⟩
  have hzero : Decimal.ofNumeral ['0'] = ⟨0, 0⟩ := by decide
  rw [hzero, (Decimal.denotes_whole 0).nearest?_eq]

/-- In canonical form a term is written unless it is zero. -/
lemma survives_canonical {m : Monomial} (h : m.coefficient.isFinite = true) :
    m.survives .canonical = !m.coefficient.isZero := by
  obtain ⟨coefficient, n⟩ := m
  cases coefficient with
  | nan => cases h
  | infinite s => cases h
  | finite s a =>
    cases hz : (Binary64.finite s a).isZero with
    | true => simp [survives, hz]
    | false =>
      have hne : magnitudeText .canonical ⟨.finite s a, n⟩ ≠ ['0'] := by
        -- The text of zero reads as zero, and that of a magnitude as the magnitude.
        intro htext
        have ha := coefficient?_magnitudeText_canonical s a n
        rw [htext, coefficient?_zero] at ha
        have hunits : a.units = 0 := by
          rw [← Option.some.inj ha]
          exact Nat.zero_mul _
        have hnz : a.units ≠ 0 := by simpa [Binary64.isZero] using hz
        exact hnz hunits
      simp [survives, hz, hne]

/-- In canonical form a term that is not zero stands for itself. -/
lemma reread_canonical {m : Monomial} (h : m.coefficient.isFinite = true)
    (hnz : m.coefficient.isZero = false) :
    m.reread .canonical = m := by
  have hcanonical := m.coefficient?_magnitudeText .canonical h
  obtain ⟨coefficient, n⟩ := m
  cases coefficient with
  | nan => cases h
  | infinite s => cases h
  | finite s a =>
    obtain ⟨c, hc, hnumber⟩ := hcanonical
    rw [coefficient?_magnitudeText_canonical] at hc
    have hsign : (Binary64.finite s a).termSign = s := by
      have hunits : a.units ≠ 0 := by simpa [Binary64.isZero] using hnz
      cases s <;> simp [Binary64.termSign, Binary64.isNegative, hunits]
    rw [reread, hnumber, hsign, Sign.apply_finite_positive, Option.some.inj hc]

end Monomial

namespace Polynomial

/-- Reading back what was written gives the polynomial. In canonical form the terms that are read
are the stored ones without the zeros. Rounded to places they are the terms whose magnitude is not
written as zero, each with the number that its text stands for. -/
theorem readTerms_format {var : Char} (hvar : PlainVariable var) (p : Polynomial)
    (hfinite : ∀ m ∈ p.terms, m.coefficient.isFinite = true)
    (hmax : ∀ m ∈ p.terms, m.exponent ≤ maxExponent) :
    ((∃ m ∈ p.terms, m.coefficient.isZero = false) →
      ∃ read, readTerms var (p.format .canonical var) = .ok read ∧
        read.map (fun r => r.2.toMonomial) = p.terms.filter (!·.coefficient.isZero)) ∧
    ∀ places,
      let style : Style := ⟨some places, .plain⟩
      let written := p.terms.filter fun m => m.magnitudeText style != ['0']
      written ≠ [] →
        ∃ read, readTerms var (p.format style var) = .ok read ∧
          read.map (fun r => r.2.toMonomial) = written.map (Monomial.reread style) ∧
          Descending (read.map fun r => r.2.toMonomial) := by
  constructor
  · rintro ⟨m, hm, hnz⟩
    have hwritten : p.terms.filter (Monomial.survives .canonical) =
        p.terms.filter (!·.coefficient.isZero) :=
      List.filter_congr fun m hm => Monomial.survives_canonical (hfinite m hm)
    have hne : p.terms.filter (Monomial.survives .canonical) ≠ [] := by
      rw [hwritten]
      exact List.ne_nil_of_mem (List.mem_filter.mpr ⟨hm, by simp [hnz]⟩)
    obtain ⟨read, hread, hmap⟩ := readTerms_format_of_survivors rfl hvar hfinite hmax hne
    refine ⟨read, hread, ?_⟩
    have hself : ∀ n ∈ p.terms.filter (!·.coefficient.isZero), n.reread .canonical = id n := by
      intro n hn
      obtain ⟨hmem, hn⟩ := List.mem_filter.mp hn
      exact Monomial.reread_canonical (hfinite n hmem) (by simpa using hn)
    rw [hmap, hwritten, List.map_congr_left hself, List.map_id]
  · intro places style written hne
    have hwritten : p.terms.filter (Monomial.survives style) = written :=
      List.filter_congr fun m hm => Monomial.survives_places places (hfinite m hm)
    rw [← hwritten] at hne
    obtain ⟨read, hread, hmap⟩ := readTerms_format_of_survivors rfl hvar hfinite hmax hne
    refine ⟨read, hread, ?_, ?_⟩
    · rw [hmap, hwritten]
    · rw [hmap]
      exact List.pairwise_map.mpr (p.descending.filter _)

/-- The polynomial `1 - x ^ 4294967295`, which also stores a zero. -/
def binomial : Polynomial where
  terms := [⟨.finite .negative .one, maxExponent⟩, ⟨.finite .negative .zero, 3⟩,
    ⟨.finite .positive .one, 0⟩]
  descending := by simp [Descending, maxExponent]

/-- A binomial with the largest exponent, in a variable that is a line feed. -/
theorem readTerms_format_binomial :
    (∀ m ∈ binomial.terms, m.coefficient.isFinite = true) ∧
    (∀ m ∈ binomial.terms, m.exponent ≤ maxExponent) ∧
    (∃ read, readTerms '\n' (binomial.format .canonical '\n') = .ok read ∧
      read.map (fun r => r.2.toMonomial) =
        [⟨.finite .negative .one, maxExponent⟩, ⟨.finite .positive .one, 0⟩]) ∧
    ∃ read, readTerms '\n' (binomial.format ⟨some 2, .plain⟩ '\n') = .ok read ∧
      read.map (fun r => r.2.toMonomial.exponent) = [maxExponent, 0] := by
  have hvar : PlainVariable '\n' := ⟨rfl, by decide, by decide, by decide⟩
  have hfinite : ∀ m ∈ binomial.terms, m.coefficient.isFinite = true := by decide
  have hmax : ∀ m ∈ binomial.terms, m.exponent ≤ maxExponent := by decide
  have hone : ∀ s, (Binary64.finite s .one).isZero = false := by
    intro s
    have hpos : 0 < Magnitude.one.units := Nat.mul_pos Nat.one_pos (twoTo_pos 1074)
    simp [Binary64.isZero, Nat.pos_iff_ne_zero.mp hpos]
  have hzero : (Binary64.finite .negative .zero).isZero = true := rfl
  obtain ⟨hcanonical, hplaces⟩ := readTerms_format hvar binomial hfinite hmax
  refine ⟨hfinite, hmax, ?_, ?_⟩
  · simpa [binomial, hone, hzero] using hcanonical ⟨_, List.mem_cons_self, hone .negative⟩
  · have hwritten : (binomial.terms.filter fun m =>
        m.magnitudeText ⟨some 2, .plain⟩ != ['0']).map Monomial.exponent = [maxExponent, 0] := by
      decide +kernel
    obtain ⟨read, hread, hmap, _⟩ := hplaces 2 (by
      intro hnil
      rw [hnil] at hwritten
      cases hwritten)
    refine ⟨read, hread, ?_⟩
    rw [← hwritten]
    simpa [Function.comp_def, Monomial.reread] using congrArg (List.map Monomial.exponent) hmap

end Polynomial

end PowerRule
