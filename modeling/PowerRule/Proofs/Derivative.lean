import Mathlib.Tactic.Lemma
import PowerRule.Proofs.Differentiation

/-!
# The derivative of an expression

`derivative_stores_sums` says which polynomial the derivative of an expression is: it holds the sums
of the products that are not zero, and it exists if no product and no sum overflows.
`derivative_outcome` says what is reported otherwise: the first term that cannot be read, else the
first that overflows, else the terms of the highest exponent whose sum overflows.
-/

namespace PowerRule

attribute [local irreducible] twoTo tenTo

/-! ## The sum -/

/-- The checked sum is the formal sum, or the error at the sources of its first overflow. -/
lemma sumContributions_eq (terms : List (RawTerm × Term)) :
    sumContributions (terms.filterMap contribution?) =
      match (formalSum terms).terms.find? (!·.coefficient.isFinite) with
      | none => .ok (formalSum terms)
      | some m => .error ⟨.coefficientOverflow, (sourcesAt terms m.exponent).map (·.1.span)⟩ := by
  unfold sumContributions
  simp only [spans_contributions]
  rfl

/-- If no sum overflows, the sums are stored. -/
lemma sumContributions_of_finite {terms : List (RawTerm × Term)} (h : FiniteSums terms) :
    sumContributions (terms.filterMap contribution?) = .ok (formalSum terms) := by
  have hnone : (formalSum terms).terms.find? (!·.coefficient.isFinite) = none := by
    rw [List.find?_eq_none]
    intro m hm
    obtain ⟨_, hsum, _⟩ := mem_formalSum_iff.mp hm
    rw [← hsum, h]
    decide
  rw [sumContributions_eq, hnone]

/-- The highest exponent whose sum overflows is reported. -/
lemma sumContributions_of_overflow {terms : List (RawTerm × Term)} {k : Nat}
    (h : (sumAt terms k).isFinite = false) :
    ∃ K, (sumAt terms K).isFinite = false ∧ (∀ j, K < j → (sumAt terms j).isFinite = true) ∧
      sumContributions (terms.filterMap contribution?) =
        .error ⟨.coefficientOverflow, (sourcesAt terms K).map (·.1.span)⟩ := by
  cases hfind : (formalSum terms).terms.find? (!·.coefficient.isFinite) with
  | none =>
    rw [List.find?_eq_none] at hfind
    have := hfind _ (mem_formalSum_of_overflow h)
    simp [h] at this
  | some m =>
    obtain ⟨hm, before, after, hterms, hbefore⟩ := List.find?_eq_some_iff_append.mp hfind
    have hstored : m ∈ (formalSum terms).terms := by simp [hterms]
    obtain ⟨_, hsum, _⟩ := mem_formalSum_iff.mp hstored
    refine ⟨m.exponent, ?_, ?_, ?_⟩
    · rw [hsum]
      simpa using hm
    · intro j hj
      rw [← Bool.not_eq_false]
      intro hover
      -- An overflowing sum above the reported one would be stored, hence found, before it.
      have hmem := mem_formalSum_of_overflow hover
      have hdescending := (formalSum terms).descending
      rw [hterms] at hmem hdescending
      obtain ⟨_, hafter, _⟩ := List.pairwise_append.mp hdescending
      rcases List.mem_append.mp hmem with hmem | hmem
      · have := hbefore _ hmem
        simp [hover] at this
      · rcases List.mem_cons.mp hmem with heq | hmem
        · rw [← heq] at hj
          exact absurd hj (Nat.lt_irrefl j)
        · have := (List.pairwise_cons.mp hafter).1 _ hmem
          dsimp only at this
          omega
    · rw [sumContributions_eq, hfind]

/-! ## The derivative -/

section

variable {var : Char} {expression : List Char} {terms : List (RawTerm × Term)}

/-- A derivation is that of the terms that are read. -/
lemma derive_of_readsAll (h : ReadsAll var (splitTerms expression) terms) :
    derive var expression = deriveTerms terms := by
  rw [derive, readTerms_eq_ok_iff.mpr h]

/-- So is its result. -/
lemma derivative_of_readsAll (h : ReadsAll var (splitTerms expression) terms) :
    derivative var expression = (deriveTerms terms).result := by
  rw [derivative, derive_of_readsAll h]

/-- If no product overflows, the products are summed. -/
lemma derivative_of_finite (h : ReadsAll var (splitTerms expression) terms)
    (hfinite : FiniteProducts terms) :
    derivative var expression = sumContributions (terms.filterMap contribution?) := by
  rw [derivative_of_readsAll h, deriveTerms, differentiateTerms_of_finite hfinite]

/-- The first product that overflows is the error. -/
lemma derivative_of_overflow {before after : List (RawTerm × Term)} {r : RawTerm × Term}
    (h : ReadsAll var (splitTerms expression) (before ++ r :: after))
    (hbefore : FiniteProducts before) (hr : r.2.Overflows) :
    derivative var expression = .error ⟨.coefficientOverflow, [r.1.span]⟩ := by
  rw [derivative_of_readsAll h, deriveTerms, differentiateTerms_of_overflow hbefore hr]

/-- The derivative is the formal sum, unless something overflows. -/
lemma derivative_eq_ok_iff (h : ReadsAll var (splitTerms expression) terms) {p : Polynomial} :
    derivative var expression = .ok p ↔
      FiniteProducts terms ∧ FiniteSums terms ∧ p = formalSum terms := by
  constructor
  · intro hok
    have hfinite : FiniteProducts terms := by
      rcases finiteProducts_or_first terms with hfinite | ⟨before, r, after, rfl, hbefore, hr⟩
      · exact hfinite
      · rw [derivative_of_overflow h hbefore hr] at hok
        cases hok
    rw [derivative_of_finite h hfinite] at hok
    have hsums : FiniteSums terms := by
      intro k
      rw [← Bool.not_eq_false]
      intro hover
      obtain ⟨K, _, _, herror⟩ := sumContributions_of_overflow hover
      rw [herror] at hok
      cases hok
    rw [sumContributions_of_finite hsums] at hok
    exact ⟨hfinite, hsums, (Except.ok.inj hok).symm⟩
  · rintro ⟨hfinite, hsums, rfl⟩
    rw [derivative_of_finite h hfinite, sumContributions_of_finite hsums]

/-- A derivative that exists has finite coefficients. -/
lemma isFinite_of_derivative {p : Polynomial} (h : derivative var expression = .ok p) :
    ∀ m ∈ p.terms, m.coefficient.isFinite = true := by
  intro m hm
  cases hread : readTerms var expression with
  | error e =>
    rw [derivative, derive, hread] at h
    cases h
  | ok terms =>
    obtain ⟨_, hsums, rfl⟩ := (derivative_eq_ok_iff (readTerms_eq_ok_iff.mp hread)).mp h
    obtain ⟨_, hsum, _⟩ := mem_formalSum_iff.mp hm
    rw [← hsum]
    exact hsums m.exponent

/-- There are products under an exponent exactly if a term has the next one. -/
lemma productsAt_ne_nil {k : Nat} :
    productsAt terms k ≠ [] ↔ ∃ r ∈ terms, r.2.exponent = k + 1 := by
  simp [productsAt, sourcesAt]

/-- The derivative of an expression whose terms can be read: it exists if no product and no sum is
too large. Then it stores, for each exponent that some term contributes to, the sum of the products
in the order of the terms, unless that is zero. -/
theorem derivative_stores_sums (h : ReadsAll var (splitTerms expression) terms) :
    ((∃ p, derivative var expression = .ok p) ↔
      (∀ r ∈ terms, 0 < r.2.exponent → r.2.product.isFinite = true) ∧
        ∀ k, (sumAt terms k).isFinite = true) ∧
    ∀ p, derivative var expression = .ok p →
      (∀ m, m ∈ p.terms ↔
        (∃ r ∈ terms, r.2.exponent = m.exponent + 1) ∧ m.coefficient = sumAt terms m.exponent ∧
          m.coefficient.isZero = false) ∧
      (∀ m ∈ p.terms, m.coefficient.isFinite = true ∧ m.exponent < maxExponent) ∧
      ∀ k, p.coefficient k = sumAt terms k := by
  have hproducts : FiniteProducts terms ↔
      ∀ r ∈ terms, 0 < r.2.exponent → r.2.product.isFinite = true := by
    simp [FiniteProducts, Term.Overflows]
  constructor
  · rw [← hproducts]
    constructor
    · rintro ⟨p, hp⟩
      obtain ⟨hfinite, hsums, _⟩ := (derivative_eq_ok_iff h).mp hp
      exact ⟨hfinite, hsums⟩
    · rintro ⟨hfinite, hsums⟩
      exact ⟨formalSum terms, (derivative_eq_ok_iff h).mpr ⟨hfinite, hsums, rfl⟩⟩
  · intro p hp
    obtain ⟨_, hsums, rfl⟩ := (derivative_eq_ok_iff h).mp hp
    have hmem : ∀ m, m ∈ (formalSum terms).terms ↔
        (∃ r ∈ terms, r.2.exponent = m.exponent + 1) ∧ m.coefficient = sumAt terms m.exponent ∧
          m.coefficient.isZero = false := by
      intro m
      rw [mem_formalSum_iff, productsAt_ne_nil, eq_comm (a := m.coefficient)]
    refine ⟨hmem, ?_, coefficient_formalSum terms⟩
    intro m hm
    obtain ⟨⟨r, hr, hexponent⟩, hsum, _⟩ := (hmem m).mp hm
    have hle := (readTerm_eq_ok_iff.mp (h.2 r hr)).exponent_le
    refine ⟨?_, by omega⟩
    rw [hsum]
    exact hsums m.exponent

end

/-- The terms of `x^2-x^2+x`, of which the first two cancel. -/
def cancelling : List (RawTerm × Term) :=
  [(⟨0, ['x', '^', '2']⟩, .power .positive .one 2),
    (⟨3, ['-', 'x', '^', '2']⟩, .power .negative .one 2),
    (⟨7, ['+', 'x']⟩, .power .positive .one 1)]

/-- Terms that cancel out are not stored. -/
theorem derivative_stores_sums_cancelling :
    ReadsAll 'x' (splitTerms "x^2-x^2+x".toList) cancelling ∧
    ∃ p, derivative 'x' "x^2-x^2+x".toList = .ok p ∧
      (∀ m ∈ p.terms, m.exponent ≠ 1) ∧ p.coefficient 0 = .finite .positive .one := by
  have h : ReadsAll 'x' (splitTerms "x^2-x^2+x".toList) cancelling := by decide +kernel
  obtain ⟨hok, hstored⟩ := derivative_stores_sums h
  obtain ⟨p, hp⟩ := hok.mpr ⟨by decide +kernel, by
    intro k
    rcases k with _ | _ | k
    · decide +kernel
    · decide +kernel
    · have hnone : sourcesAt cancelling (k + 2) = [] := by
        simp [sourcesAt, cancelling, Term.exponent]
      rw [sumAt, productsAt, hnone]
      rfl⟩
  obtain ⟨hmem, _, hcoefficient⟩ := hstored p hp
  refine ⟨h, p, hp, ?_, ?_⟩
  · intro m hm hone
    obtain ⟨_, hsum, hnz⟩ := (hmem m).mp hm
    have hzero : (sumAt cancelling 1).isZero = true := by decide +kernel
    rw [hsum, hone, hzero] at hnz
    cases hnz
  · rw [hcoefficient]
    decide +kernel

/-- What is returned, in this order: the error of the first term that cannot be read; the overflow
of the first product; the overflow of the sum of the highest exponent, at all of its sources, of
which there are at least two; the derivative. -/
theorem derivative_outcome (var : Char) (expression : List Char) :
    ((∃ raw ∈ splitTerms expression, ∀ t, readTerm var raw ≠ .ok t) →
      ∃ before raw after e, splitTerms expression = before ++ raw :: after ∧
        (∀ r ∈ before, ∃ t, readTerm var r = .ok t) ∧ readTerm var raw = .error e ∧
        derivative var expression = .error e) ∧
    ∀ terms, ReadsAll var (splitTerms expression) terms →
      ((∃ r ∈ terms, r.2.Overflows) →
        ∃ before r after, terms = before ++ r :: after ∧
          (∀ b ∈ before, ¬b.2.Overflows) ∧ r.2.Overflows ∧
          derivative var expression = .error ⟨.coefficientOverflow, [r.1.span]⟩) ∧
      ((∀ r ∈ terms, ¬r.2.Overflows) →
        ((∃ k, (sumAt terms k).isFinite = false) →
          ∃ K, (sumAt terms K).isFinite = false ∧
            (∀ j, K < j → (sumAt terms j).isFinite = true) ∧
            derivative var expression =
              .error ⟨.coefficientOverflow, (sourcesAt terms K).map (·.1.span)⟩ ∧
            2 ≤ (sourcesAt terms K).length) ∧
        ((∀ k, (sumAt terms k).isFinite = true) →
          ∃ p, derivative var expression = .ok p)) := by
  constructor
  · rintro ⟨raw, hraw, hfails⟩
    cases hread : readTerms var expression with
    | ok terms =>
      obtain ⟨hmap, hall⟩ := readTerms_eq_ok_iff.mp hread
      rw [← hmap] at hraw
      obtain ⟨r, hr, rfl⟩ := List.mem_map.mp hraw
      exact absurd (hall r hr) (hfails r.2)
    | error e =>
      obtain ⟨before, raw, after, hsplit, hbefore, herror⟩ := readTerms_eq_error_iff.mp hread
      refine ⟨before, raw, after, e, hsplit, hbefore, herror, ?_⟩
      rw [derivative, derive, hread]
  · intro terms h
    refine ⟨?_, ?_⟩
    · rintro ⟨r, hr, hover⟩
      rcases finiteProducts_or_first terms with hfinite | ⟨before, s, after, rfl, hbefore, hs⟩
      · exact absurd hover (hfinite r hr)
      · exact ⟨before, s, after, rfl, hbefore, hs, derivative_of_overflow h hbefore hs⟩
    · intro hfinite
      constructor
      · rintro ⟨k, hk⟩
        obtain ⟨K, hK, habove, herror⟩ := sumContributions_of_overflow hk
        refine ⟨K, hK, habove, ?_, two_le_sources hfinite hK⟩
        rw [derivative_of_finite h hfinite, herror]
      · intro hsums
        exact ⟨formalSum terms, (derivative_eq_ok_iff h).mpr ⟨hfinite, hsums, rfl⟩⟩

/-- The numeral of `10 ^ 308`, which is not too large. Twice that is. -/
def huge : List Char := '1' :: List.replicate 308 '0'

/-- Two terms of which each has a finite product. -/
def hugeSum : List Char := huge ++ "x+".toList ++ huge ++ "x".toList

/-- An error in a later term, one product, and a sum that overflow, and a constant. -/
theorem derivative_outcome_huge :
    (∃ raw e, readTerm 'x' raw = .error e ∧
      derivative 'x' (huge ++ "x^2+y".toList) = .error e) ∧
    (∃ span, derivative 'x' (huge ++ "x^2".toList) = .error ⟨.coefficientOverflow, [span]⟩) ∧
    (∃ spans, derivative 'x' hugeSum = .error ⟨.coefficientOverflow, spans⟩ ∧ 2 ≤ spans.length) ∧
    ∃ p, derivative 'x' "7".toList = .ok p := by
  refine ⟨?_, ?_, ?_, ?_⟩
  · have hlast : ⟨312, ['+', 'y']⟩ ∈ splitTerms (huge ++ "x^2+y".toList) := by decide +kernel
    have hfails : readTerm 'x' ⟨312, ['+', 'y']⟩ =
        .error ⟨.malformedCoefficient ['y'], [⟨313, 314⟩]⟩ := by decide +kernel
    obtain ⟨_, raw, _, e, _, _, herror, hderivative⟩ :=
      (derivative_outcome 'x' (huge ++ "x^2+y".toList)).1 ⟨_, hlast, by simp [hfails]⟩
    exact ⟨raw, e, herror, hderivative⟩
  · have hread : ReadsAll 'x' (splitTerms (huge ++ "x^2".toList))
        (termsOf 'x' (huge ++ "x^2".toList)) := by decide +kernel
    have hover : ∃ r ∈ termsOf 'x' (huge ++ "x^2".toList), r.2.Overflows := by decide +kernel
    obtain ⟨_, r, _, _, _, _, hderivative⟩ :=
      ((derivative_outcome 'x' (huge ++ "x^2".toList)).2 _ hread).1 hover
    exact ⟨r.1.span, hderivative⟩
  · have hread : ReadsAll 'x' (splitTerms hugeSum) (termsOf 'x' hugeSum) := by decide +kernel
    have hover : (∀ r ∈ termsOf 'x' hugeSum, ¬r.2.Overflows) ∧
        (sumAt (termsOf 'x' hugeSum) 0).isFinite = false := by
      decide +kernel
    obtain ⟨K, _, _, hderivative, htwo⟩ :=
      (((derivative_outcome 'x' _).2 _ hread).2 hover.1).1 ⟨0, hover.2⟩
    exact ⟨_, hderivative, by rwa [List.length_map]⟩
  · have hread : ReadsAll 'x' (splitTerms "7".toList) (termsOf 'x' "7".toList) := by
      decide +kernel
    have hconstant : ∀ r ∈ termsOf 'x' "7".toList, r.2.exponent = 0 := by decide +kernel
    refine (((derivative_outcome 'x' "7".toList).2 _ hread).2 ?_).2 ?_
    · intro r hr hover
      have := hover.1
      rw [hconstant r hr] at this
      cases this
    · intro k
      have hnone : sourcesAt (termsOf 'x' "7".toList) k = [] := by
        rw [sourcesAt, List.filter_eq_nil_iff]
        intro r hr
        simp [hconstant r hr]
      rw [sumAt, productsAt, hnone]
      rfl

end PowerRule
