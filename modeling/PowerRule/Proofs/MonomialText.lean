import Mathlib.Tactic.Lemma
import PowerRule.Proofs.RoundTrip

/-!
# Polynomials written as monomials

A term is written in one way on its own and in another within a polynomial: on its own a zero is
`0`, within a polynomial it is left out. Otherwise the two agree: a polynomial is written as the
monomials that survive, one after the other, with a plus between two of them unless the second
brings a minus (`Polynomial.format_eq_monomials`). This holds of numbers of all kinds.
-/

namespace PowerRule

attribute [local irreducible] twoTo tenTo

/-! ## Which terms survive -/

namespace Monomial

/-- The magnitude of zero is written as `0` in every style. -/
lemma magnitudeText_of_isZero (style : Style) {m : Monomial} (h : m.coefficient.isZero = true) :
    m.magnitudeText style = ['0'] := by
  obtain ⟨coefficient, n⟩ := m
  cases coefficient with
  | nan => cases h
  | infinite s => cases h
  | finite s a =>
    have hzero := Decimal.isZero_ofMagnitude (beq_iff_eq.mp h) style.precision
    exact (formatNumber_positive style.precision a).trans (Decimal.text_of_isZero hzero)

/-- A term survives unless its magnitude is written as zero; that it is zero need not be asked. -/
lemma survives_eq (style : Style) (m : Monomial) :
    m.survives style = (m.magnitudeText style != ['0']) := by
  unfold survives
  cases hzero : m.coefficient.isZero with
  | true => simp [magnitudeText_of_isZero style hzero]
  | false => simp [bne]

/-- Without a precision exactly the terms that are not zero survive. -/
lemma survives_of_no_precision {style : Style} (hstyle : style.precision = none) (m : Monomial) :
    m.survives style = !m.coefficient.isZero := by
  have hcanonical : m.survives style = m.survives .canonical := by
    unfold survives magnitudeText
    rw [hstyle]
    rfl
  rw [hcanonical]
  cases hfinite : m.coefficient.isFinite with
  | true => exact survives_canonical hfinite
  | false =>
    obtain ⟨coefficient, n⟩ := m
    cases coefficient with
    | nan => rfl
    | infinite s => rfl
    | finite s a => cases hfinite

/-! ## One term -/

/-- In a polynomial a plus is written before a term that follows another one, unless the term is
below zero and brings a minus. -/
lemma termText_eq_format {style : Style} {m : Monomial} (h : m.survives style = true)
    (var : Char) (first : Bool) :
    m.termText style var first =
      (if first = false ∧ m.coefficient.isNegative = false then ['+'] else []) ++
        m.format style var := by
  have hmagnitude : m.magnitudeText style ≠ ['0'] := by simpa [survives_eq] using h
  unfold termText signText format
  dsimp only
  rw [if_neg hmagnitude]
  cases hnegative : m.coefficient.isNegative with
  | true => simp
  | false =>
    cases first with
    | true => rfl
    | false => rfl

/-- On its own a term that does not survive is written as zero. -/
lemma format_of_not_survives {style : Style} {m : Monomial} (h : m.survives style = false)
    (var : Char) :
    m.format style var = ['0'] := by
  have hmagnitude : m.magnitudeText style = ['0'] := by simpa [survives_eq] using h
  unfold format
  dsimp only
  rw [if_pos hmagnitude]

end Monomial

/-! ## All terms -/

namespace Polynomial

/-- Terms that survive are written as their monomials. Only the first one of all has nothing before
it. -/
lemma termTexts_eq_formats {style : Style} {terms : List Monomial}
    (h : ∀ m ∈ terms, m.survives style = true) (var : Char) (first : Bool) :
    termTexts style var first terms =
      terms.mapIdx fun i m =>
        (if (first && i == 0) = false ∧ m.coefficient.isNegative = false then ['+'] else []) ++
          m.format style var := by
  induction terms generalizing first with
  | nil => rfl
  | cons m rest ih =>
    have hm := h m List.mem_cons_self
    have hrest := ih (fun t ht => h t (List.mem_cons_of_mem _ ht)) false
    rw [termTexts, hrest, Monomial.termText_eq_format hm, List.mapIdx_cons]
    simp

/-- A polynomial is written as those of its monomials whose magnitude is not written as `0`, in
descending order of the exponents. Between two of them stands a plus, unless the second is below
zero and brings a minus. On its own each of the other monomials is written as `0`; without a
precision these are the zeros. -/
theorem format_eq_monomials (style : Style) (var : Char) (p : Polynomial) :
    let survivors := p.terms.filter fun m => m.magnitudeText style != ['0']
    Descending survivors ∧
    p.format style var =
      (survivors.mapIdx fun i m =>
        (if i ≠ 0 ∧ m.coefficient.isNegative = false then ['+'] else []) ++
          m.format style var).flatten ∧
    (∀ m ∈ p.terms, m ∉ survivors → m.format style var = ['0']) ∧
    (style.precision = none → ∀ m ∈ p.terms, m ∈ survivors ↔ m.coefficient.isZero = false) := by
  intro survivors
  have hsurvives : p.terms.filter (Monomial.survives style) = survivors :=
    List.filter_congr fun m _ => Monomial.survives_eq style m
  have hmem {m : Monomial} (hm : m ∈ p.terms) : m ∈ survivors ↔ m.survives style = true := by
    rw [← hsurvives, List.mem_filter]
    exact and_iff_right hm
  refine ⟨p.descending.filter _, ?_, ?_, ?_⟩
  · have hall : ∀ m ∈ survivors, m.survives style = true :=
      fun m hm => (hmem (List.mem_of_mem_filter hm)).mp hm
    rw [format, formatTerms_eq_flatten, hsurvives, termTexts_eq_formats hall]
    simp
  · intro m hm hnot
    apply Monomial.format_of_not_survives
    rw [← Bool.not_eq_true]
    exact mt (hmem hm).mpr hnot
  · intro hprecision m hm
    rw [hmem hm, Monomial.survives_of_no_precision hprecision]
    simp

/-- The polynomial `0.001x ^ 9 + NaN x ^ 7 - inf x ^ 5 + 1.001x ^ 3 - 0x - 0.5`. -/
def irregular : Polynomial where
  terms := [⟨.ofRatio .positive Binary64.one 1000, 9⟩, ⟨.nan, 7⟩, ⟨.infinite .negative, 5⟩,
    ⟨.ofRatio .positive (1001 * Binary64.one) 1000, 3⟩, ⟨.finite .negative .zero, 1⟩,
    ⟨.ofRatio .negative Binary64.one 2, 0⟩]
  descending := by simp [Descending]

/-- Rounded to two places the first term is left out, and the next one is written without a plus. -/
theorem format_eq_monomials_irregular :
    irregular.format ⟨some 2, .plain⟩ 'x' = "NaNx^7-infx^5+x^3-0.5".toList ∧
    (⟨.ofRatio .positive Binary64.one 1000, 9⟩ : Monomial).format ⟨some 2, .plain⟩ 'x' = ['0'] ∧
    (⟨.ofRatio .positive Binary64.one 1000, 9⟩ : Monomial) ∈ irregular.terms.filter
      (fun m => m.magnitudeText .canonical != ['0']) ∧
    (⟨.finite .negative .zero, 1⟩ : Monomial) ∉ irregular.terms.filter
      (fun m => m.magnitudeText .canonical != ['0']) := by
  obtain ⟨_, htext, hzero, _⟩ := format_eq_monomials ⟨some 2, .plain⟩ 'x' irregular
  obtain ⟨_, _, _, hsurvivors⟩ := format_eq_monomials .canonical 'x' irregular
  refine ⟨?_, hzero _ List.mem_cons_self ?_, ?_, ?_⟩
  · rw [htext]
    decide +kernel
  · decide +kernel
  · exact (hsurvivors rfl _ List.mem_cons_self).mpr (by decide +kernel)
  · rw [hsurvivors rfl _ (by decide +kernel)]
    decide +kernel

end Polynomial

end PowerRule
