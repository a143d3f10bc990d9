import Mathlib.Data.List.Nodup
import Mathlib.Tactic.Lemma
import PowerRule.Proofs.Derivative
import PowerRule.Proofs.Whole
import PowerRule.Proofs.RoundTrip

/-!
# The derivative of a written polynomial

A polynomial that was written is read as its terms that are not zero, from the highest exponent on.
So no two of the terms are like terms, and the power rule is applied to each stored coefficient: the
derivative holds the products (`Polynomial.productAt`), each rounded once, or it overflows at the
highest exponent whose product does. `Polynomial.derivative_format` puts this together.
-/

namespace PowerRule

attribute [local irreducible] twoTo tenTo

/-- The products of an exponent are those of the coefficients one above it. -/
lemma productsAt_eq_coefficientsAt (terms : List (RawTerm × Term)) (k : Nat) :
    productsAt terms k =
      (coefficientsAt (terms.map (·.2.toMonomial)) (k + 1)).map (· * .ofNat (k + 1)) := by
  rw [productsAt, sourcesAt, coefficientsAt, List.filter_map, List.map_map, List.map_map]
  apply List.map_congr_left
  intro r hr
  have hexponent : r.2.exponent = k + 1 := beq_iff_eq.mp (List.mem_filter.mp hr).2
  show r.2.product = r.2.signedCoefficient * .ofNat (k + 1)
  rw [Term.product, hexponent]

namespace Polynomial

/-- What the power rule makes of the coefficient of an exponent. -/
def productAt (p : Polynomial) (n : Nat) : Binary64 := p.coefficient n * .ofNat n

/-! ## Stored coefficients -/

section

variable {p : Polynomial}

/-- A coefficient that is not zero is stored, and pruning keeps it. -/
lemma mem_of_coefficient {n : Nat} (h : (p.coefficient n).isZero = false) :
    ⟨p.coefficient n, n⟩ ∈ p.prune.terms :=
  mem_prune_iff.mpr ⟨mem_terms_of_coefficient h, h⟩

/-- All coefficients are finite if those of the terms are. -/
lemma isFinite_coefficient (h : ∀ m ∈ p.terms, m.coefficient.isFinite = true) (n : Nat) :
    (p.coefficient n).isFinite = true := by
  unfold coefficient
  split
  · rename_i m hm
    exact h m (List.mem_of_find?_eq_some hm)
  · rfl

/-- Only a product of a coefficient that is not zero overflows. -/
lemma isZero_of_productAt {n : Nat} (hmax : n ≤ maxExponent)
    (h : (p.productAt n).isFinite = false) :
    (p.coefficient n).isZero = false := by
  rw [← Bool.not_eq_true]
  intro hzero
  obtain ⟨s, hs⟩ :=
    Binary64.mul_ofNat_of_isZero hzero (Nat.le_trans hmax maxExponent_le_maxWhole)
  rw [productAt, hs] at h
  cases h

end

/-! ## The terms that are read -/

/-- In canonical form, what is written are the terms that are not zero. -/
lemma filter_survives {p : Polynomial} (hfinite : ∀ m ∈ p.terms, m.coefficient.isFinite = true) :
    p.terms.filter (Monomial.survives .canonical) = p.prune.terms :=
  List.filter_congr fun m hm => Monomial.survives_canonical (hfinite m hm)

/-- So these are the terms that are read. -/
lemma readTerms_prune {var : Char} (hvar : PlainVariable var) {p : Polynomial}
    (hfinite : ∀ m ∈ p.terms, m.coefficient.isFinite = true)
    (hmax : ∀ m ∈ p.terms, m.exponent ≤ maxExponent) (hne : p.prune.terms ≠ []) :
    ∃ read, ReadsAll var (splitTerms (p.format .canonical var)) read ∧
      read.map (·.2.toMonomial) = p.prune.terms := by
  have hwritten := filter_survives hfinite
  obtain ⟨read, hread, hmap⟩ :=
    readTerms_format_of_survivors rfl hvar hfinite hmax (hwritten ▸ hne)
  refine ⟨read, readTerms_eq_ok_iff.mp hread, ?_⟩
  rw [hmap, hwritten]
  conv => rhs; rw [← List.map_id p.prune.terms]
  apply List.map_congr_left
  intro m hm
  obtain ⟨hmem, hnz⟩ := List.mem_filter.mp hm
  exact Monomial.reread_canonical (hfinite m hmem) (by simpa using hnz)

section

variable {p : Polynomial} {read : List (RawTerm × Term)}
  (hread : read.map (·.2.toMonomial) = p.prune.terms)

include hread

/-- Each exponent has one product, or none where the coefficient is zero. -/
lemma productsAt_of_read (k : Nat) :
    productsAt read k =
      if (p.coefficient (k + 1)).isZero = true then [] else [p.productAt (k + 1)] := by
  rw [productsAt_eq_coefficientsAt, hread, coefficientsAt_of_descending p.prune.descending]
  show (p.prune.stored? (k + 1)).toList.map _ = _
  rw [stored?_prune_eq]
  split
  · rfl
  · rfl

/-- A term that is read has the coefficient of its exponent. -/
lemma toMonomial_of_mem {r : RawTerm × Term} (hr : r ∈ read) :
    r.2.toMonomial = ⟨p.coefficient r.2.exponent, r.2.exponent⟩ := by
  have hmem : r.2.toMonomial ∈ p.prune.terms := hread ▸ List.mem_map_of_mem hr
  have hcoefficient : p.coefficient r.2.exponent = r.2.signedCoefficient :=
    coefficient_of_mem (List.mem_of_mem_filter hmem)
  rw [hcoefficient]
  rfl

/-- Its product is that of the coefficient. -/
lemma product_of_mem {r : RawTerm × Term} (hr : r ∈ read) :
    r.2.product = p.productAt r.2.exponent := by
  have hcoefficient : r.2.signedCoefficient = p.coefficient r.2.exponent :=
    congrArg Monomial.coefficient (toMonomial_of_mem hread hr)
  rw [Term.product, productAt, hcoefficient]

/-- A term is read for every coefficient that is not zero. -/
lemma exists_mem_read {n : Nat} (h : (p.coefficient n).isZero = false) :
    ∃ r ∈ read, r.2.exponent = n := by
  have hmem := mem_of_coefficient h
  rw [← hread] at hmem
  obtain ⟨r, hr, hmonomial⟩ := List.mem_map.mp hmem
  exact ⟨r, hr, congrArg Monomial.exponent hmonomial⟩

/-- The exponents that are read fall. -/
lemma exponents_read : (read.map (·.2.exponent)).Pairwise (· > ·) := by
  have hdescending := p.prune.exponents_descending
  rw [← hread, List.map_map] at hdescending
  exact hdescending

/-- Terms of the same exponent are the same. -/
lemma eq_of_exponent_eq {r s : RawTerm × Term} (hr : r ∈ read) (hs : s ∈ read)
    (h : r.2.exponent = s.2.exponent) : r = s := by
  have hnodup : (read.map (·.2.exponent)).Nodup := (exponents_read hread).imp Nat.ne_of_gt
  exact List.inj_on_of_nodup_map hnodup hr hs h

/-- If the product of a coefficient is not finite, that of its term overflows. -/
lemma overflows_of_mem {r : RawTerm × Term} (hr : r ∈ read) (hpos : 0 < r.2.exponent)
    (h : (p.productAt r.2.exponent).isFinite = false) : r.2.Overflows := by
  refine ⟨hpos, ?_⟩
  rw [product_of_mem hread hr]
  exact h

/-- The terms come from the highest exponent on, so the first overflow is the highest. -/
lemma isFinite_of_before {before after : List (RawTerm × Term)} {r : RawTerm × Term}
    (hsplit : read = before ++ r :: after) (hbefore : FiniteProducts before) {j : Nat}
    (hj : r.2.exponent < j) (hmax : j ≤ maxExponent) :
    (p.productAt j).isFinite = true := by
  rw [← Bool.not_eq_false]
  intro hover
  obtain ⟨s, hs, rfl⟩ := exists_mem_read hread (isZero_of_productAt hmax hover)
  have hoverflows := overflows_of_mem hread hs (Nat.zero_lt_of_lt hj) hover
  have hdescending := exponents_read hread
  rw [hsplit, List.map_append, List.map_cons] at hdescending
  rw [hsplit] at hs
  rcases List.mem_append.mp hs with hs | hs
  · exact hbefore s hs hoverflows
  · rcases List.mem_cons.mp hs with rfl | hs
    · exact Nat.lt_irrefl _ hj
    · have hafter := (List.pairwise_cons.mp (List.pairwise_append.mp hdescending).2.1).1
      have := hafter _ (List.mem_map_of_mem hs)
      omega

section

variable (hfinite : ∀ m ∈ p.terms, m.coefficient.isFinite = true)
  (hmax : ∀ m ∈ p.terms, m.exponent ≤ maxExponent)

include hfinite hmax

/-- Each sum is the product of one coefficient, whose value is not changed by summing it. -/
lemma sumAt_of_read {k : Nat} (h : (p.coefficient (k + 1)).isZero = false) :
    sumAt read k = p.productAt (k + 1) ∧ (p.productAt (k + 1)).isZero = false := by
  have hle : k + 1 ≤ maxExponent := hmax _ (mem_terms_of_coefficient h)
  have hproduct : (p.productAt (k + 1)).isZero = false :=
    Binary64.isZero_mul_ofNat (isFinite_coefficient hfinite _) h (Nat.succ_pos k)
      (Nat.le_trans hle maxExponent_le_maxWhole)
  refine ⟨?_, hproduct⟩
  rw [sumAt, productsAt_of_read hread, h]
  exact Binary64.zero_add_of_nonzero rfl hproduct

/-- What the sum of the contributions stores. -/
lemma mem_formalSum_of_read {m : Monomial} :
    m ∈ (formalSum read).terms ↔ (p.coefficient (m.exponent + 1)).isZero = false ∧
      m.coefficient = p.productAt (m.exponent + 1) := by
  rw [mem_formalSum_iff, productsAt_of_read hread]
  cases hz : (p.coefficient (m.exponent + 1)).isZero with
  | true => simp
  | false =>
    obtain ⟨hsum, hproduct⟩ := sumAt_of_read hread hfinite hmax hz
    rw [hsum]
    constructor
    · rintro ⟨_, heq, _⟩
      exact ⟨rfl, heq.symm⟩
    · rintro ⟨_, heq⟩
      rw [heq]
      exact ⟨List.cons_ne_nil _ _, rfl, hproduct⟩

/-- If no product of a coefficient overflows, no sum does. -/
lemma finiteSums_of_read
    (h : ∀ n, 1 ≤ n → n ≤ maxExponent → (p.productAt n).isFinite = true) : FiniteSums read := by
  intro k
  cases hz : (p.coefficient (k + 1)).isZero with
  | true =>
    rw [sumAt, productsAt_of_read hread, hz]
    rfl
  | false =>
    rw [(sumAt_of_read hread hfinite hmax hz).1]
    exact h _ (Nat.succ_pos k) (hmax _ (mem_terms_of_coefficient hz))

end

end

/-- The derivative of a polynomial that was written in canonical form. If no product overflows, it
stores the product of each coefficient that is not zero, rounded once, and nothing else. Otherwise
the error points at the term of the highest exponent whose product overflows. -/
theorem derivative_format {var : Char} (hvar : PlainVariable var) (p : Polynomial)
    (hfinite : ∀ m ∈ p.terms, m.coefficient.isFinite = true)
    (hmax : ∀ m ∈ p.terms, m.exponent ≤ maxExponent)
    (hnz : ∃ m ∈ p.terms, m.coefficient.isZero = false) :
    ((∀ n, 1 ≤ n → n ≤ maxExponent → (p.productAt n).isFinite = true) →
      ∃ q, derivative var (p.format .canonical var) = .ok q ∧
        ∀ m, m ∈ q.terms ↔ (p.coefficient (m.exponent + 1)).isZero = false ∧
          m.coefficient = p.productAt (m.exponent + 1)) ∧
    ((∃ n, 1 ≤ n ∧ n ≤ maxExponent ∧ (p.productAt n).isFinite = false) →
      ∃ n, 1 ≤ n ∧ n ≤ maxExponent ∧ (p.productAt n).isFinite = false ∧
        (∀ j, n < j → j ≤ maxExponent → (p.productAt j).isFinite = true) ∧
        ∃ raw ∈ splitTerms (p.format .canonical var), ∃ t, readTerm var raw = .ok t ∧
          t.toMonomial = ⟨p.coefficient n, n⟩ ∧
          (∀ raw' ∈ splitTerms (p.format .canonical var), ∀ t', readTerm var raw' = .ok t' →
            t'.exponent = n → raw' = raw) ∧
          derivative var (p.format .canonical var) =
            .error ⟨.coefficientOverflow, [raw.span]⟩) := by
  obtain ⟨m, hm, hmnz⟩ := hnz
  have hne : p.prune.terms ≠ [] :=
    List.ne_nil_of_mem (List.mem_filter.mpr ⟨hm, by simp [hmnz]⟩)
  obtain ⟨read, hall, hread⟩ := readTerms_prune hvar hfinite hmax hne
  have hexponent : ∀ r ∈ read, r.2.exponent ≤ maxExponent :=
    fun r hr => (readTerm_eq_ok_iff.mp (hall.2 r hr)).exponent_le
  constructor
  · intro hproducts
    have hterms : FiniteProducts read := by
      rintro r hr ⟨hpos, hover⟩
      rw [product_of_mem hread hr, hproducts _ hpos (hexponent r hr)] at hover
      cases hover
    have hsums := finiteSums_of_read hread hfinite hmax hproducts
    exact ⟨formalSum read, (derivative_eq_ok_iff hall).mpr ⟨hterms, hsums, rfl⟩,
      fun m => mem_formalSum_of_read hread hfinite hmax⟩
  · rintro ⟨n, hpos, hle, hover⟩
    obtain ⟨s, hs, rfl⟩ := exists_mem_read hread (isZero_of_productAt hle hover)
    rcases finiteProducts_or_first read with hterms | ⟨before, r, after, hsplit, hbefore, hr⟩
    · exact absurd (overflows_of_mem hread hs hpos hover) (hterms s hs)
    have hmem : r ∈ read := by simp [hsplit]
    have hrover : (p.productAt r.2.exponent).isFinite = false := by
      rw [← product_of_mem hread hmem]
      exact hr.2
    refine ⟨r.2.exponent, hr.1, hexponent r hmem, hrover,
      fun j => isFinite_of_before hread hsplit hbefore, r.1, ?_, r.2, hall.2 r hmem, ?_, ?_, ?_⟩
    · rw [← hall.1]
      exact List.mem_map_of_mem hmem
    · exact toMonomial_of_mem hread hmem
    · intro raw' hraw' t' ht' hexp
      rw [← hall.1] at hraw'
      obtain ⟨s', hs', rfl⟩ := List.mem_map.mp hraw'
      have hs'2 := hall.2 s' hs'
      rw [hs'2] at ht'
      cases ht'
      rw [eq_of_exponent_eq hread hs' hmem hexp]
    · rw [hsplit] at hall
      exact derivative_of_overflow hall hbefore hr

/-- The polynomial `x - 10 ^ 308 * x ^ 3`. -/
def hugeCubic : Polynomial where
  terms := [⟨.finite .negative ((coefficient? huge).getD .zero), 3⟩, ⟨.finite .positive .one, 1⟩]
  descending := by simp [Descending]

/-- A derivative that is stored, and one that overflows. -/
theorem derivative_format_huge :
    (∀ p ∈ [binomial, hugeCubic],
      (∀ m ∈ p.terms, m.coefficient.isFinite = true) ∧
      (∀ m ∈ p.terms, m.exponent ≤ maxExponent) ∧
      ∃ m ∈ p.terms, m.coefficient.isZero = false) ∧
    (∃ q, derivative 'é' (binomial.format .canonical 'é') = .ok q ∧
      ⟨binomial.productAt maxExponent, maxExponent - 1⟩ ∈ q.terms) ∧
    ∃ raw ∈ splitTerms (hugeCubic.format .canonical 'x'),
      derivative 'x' (hugeCubic.format .canonical 'x') =
        .error ⟨.coefficientOverflow, [raw.span]⟩ := by
  have hhypotheses : ∀ p ∈ [binomial, hugeCubic],
      (∀ m ∈ p.terms, m.coefficient.isFinite = true) ∧
      (∀ m ∈ p.terms, m.exponent ≤ maxExponent) ∧
      ∃ m ∈ p.terms, m.coefficient.isZero = false := by decide +kernel
  refine ⟨hhypotheses, ?_, ?_⟩
  · obtain ⟨hfinite, hmax, hnz⟩ := hhypotheses binomial (by simp)
    have hvar : PlainVariable 'é' := ⟨rfl, by decide, by decide, by decide⟩
    obtain ⟨q, hq, hmem⟩ := (derivative_format hvar binomial hfinite hmax hnz).1 (by
      intro n _ hle
      rw [← Bool.not_eq_false]
      intro hover
      -- Only two coefficients are not zero, and their products are finite.
      have hn := List.mem_map_of_mem (f := Monomial.exponent)
        (mem_of_coefficient (isZero_of_productAt hle hover))
      have hexponents : binomial.prune.terms.map Monomial.exponent = [maxExponent, 0] := by
        decide +kernel
      have hproducts : ∀ n ∈ [maxExponent, 0], (binomial.productAt n).isFinite = true := by
        decide +kernel
      rw [hproducts n (hexponents ▸ hn)] at hover
      cases hover)
    exact ⟨q, hq, (hmem _).mpr ⟨by decide +kernel, rfl⟩⟩
  · obtain ⟨hfinite, hmax, hnz⟩ := hhypotheses hugeCubic (by simp)
    have hvar : PlainVariable 'x' := .of_isAlpha rfl
    obtain ⟨_, _, _, _, _, raw, hraw, _, _, _, _, herror⟩ :=
      (derivative_format hvar hugeCubic hfinite hmax hnz).2
        ⟨3, by decide, by decide, by decide +kernel⟩
    exact ⟨raw, hraw, herror⟩

end Polynomial

end PowerRule
