import Mathlib.Tactic.Lemma
import PowerRule.Proofs.KeyedSum
import PowerRule.Proofs.Reading

/-!
# What a derivative is

The power rule turns every term with the variable into a product, and the products of like terms are
summed in the order in which they are written (`sumAt`). The terms are differentiated up to the
first product that is not finite (`differentiateTerms_of_finite`, `differentiateTerms_of_overflow`).
`mem_formalSum_iff` says which sums the polynomial of all contributions stores; a sum that overflows
is among them (`mem_formalSum_of_overflow`) and has at least two sources (`two_le_sources`).
-/

namespace PowerRule

attribute [local irreducible] twoTo tenTo

namespace Term

/-- The signed coefficient times the exponent. -/
def product (t : Term) : Binary64 := t.signedCoefficient * .ofNat t.exponent

/-- The power rule gives a coefficient that is not finite. -/
def Overflows (t : Term) : Prop := 0 < t.exponent ∧ t.product.isFinite = false

/-- Whether a product overflows can be decided. -/
instance (t : Term) : Decidable t.Overflows := inferInstanceAs (Decidable (_ ∧ _))

/-- A product that does not overflow is finite. -/
lemma isFinite_product {t : Term} (h : ¬t.Overflows) {n : Nat} (hn : t.exponent = n + 1) :
    t.product.isFinite = true := by
  rw [← Bool.not_eq_false]
  intro hf
  exact h ⟨by omega, hf⟩

/-- A term without the variable vanishes. -/
lemma derivative?_of_zero {t : Term} (h : t.exponent = 0) : t.derivative? = none := by
  rw [derivative?, h]

/-- The derivative of a term is its product with an exponent less by one. -/
lemma derivative?_of_succ {t : Term} {n : Nat} (h : t.exponent = n + 1) :
    t.derivative? = some ⟨t.product, n⟩ := by
  rw [derivative?, product, h]

end Term

/-- The terms whose derivative has this exponent, in order. -/
def sourcesAt (terms : List (RawTerm × Term)) (k : Nat) : List (RawTerm × Term) :=
  terms.filter (·.2.exponent == k + 1)

/-- The products of these terms. -/
def productsAt (terms : List (RawTerm × Term)) (k : Nat) : List Binary64 :=
  (sourcesAt terms k).map (·.2.product)

/-- The coefficient of this exponent in the derivative: the sum of the products, from left to right.
-/
def sumAt (terms : List (RawTerm × Term)) (k : Nat) : Binary64 := leftSum (productsAt terms k)

/-- No product overflows. -/
def FiniteProducts (terms : List (RawTerm × Term)) : Prop := ∀ r ∈ terms, ¬r.2.Overflows

/-- No sum of products overflows. -/
def FiniteSums (terms : List (RawTerm × Term)) : Prop := ∀ k, (sumAt terms k).isFinite = true

/-- The derivative of a term that was read. -/
def contribution? (r : RawTerm × Term) : Option Contribution :=
  r.2.derivative?.map (⟨r.1.span, ·⟩)

/-! ## Term by term -/

/-- One term is differentiated: it contributes what it contributes, unless it overflows. -/
lemma differentiateTerms_cons {r : RawTerm × Term} (h : ¬r.2.Overflows)
    (rest : List (RawTerm × Term)) :
    differentiateTerms (r :: rest) =
      (r.2.step :: (differentiateTerms rest).1,
        (differentiateTerms rest).2.map ((contribution? r).toList ++ ·)) := by
  obtain ⟨raw, t⟩ := r
  rw [differentiateTerms, contribution?]
  obtain ⟨steps, result⟩ := differentiateTerms rest
  cases hn : t.exponent with
  | zero =>
    rw [Term.derivative?_of_zero hn]
    cases result with
    | error e => rfl
    | ok contributions => rfl
  | succ n =>
    rw [Term.derivative?_of_succ hn]
    dsimp only
    rw [if_pos (Term.isFinite_product h hn)]
    rfl

/-- A product that overflows ends the differentiation. -/
lemma differentiateTerms_cons_of_overflow {r : RawTerm × Term} (h : r.2.Overflows)
    (rest : List (RawTerm × Term)) :
    differentiateTerms (r :: rest) =
      ([r.2.step], .error ⟨.coefficientOverflow, [r.1.span]⟩) := by
  obtain ⟨raw, t⟩ := r
  obtain ⟨hpos, hfinite⟩ := h
  obtain ⟨n, hn⟩ := Nat.exists_eq_add_one_of_ne_zero (Nat.pos_iff_ne_zero.mp hpos)
  rw [differentiateTerms, Term.derivative?_of_succ hn]
  dsimp only
  rw [if_neg (by simp [hfinite])]

/-- Without an overflow all terms are differentiated. -/
lemma differentiateTerms_of_finite {terms : List (RawTerm × Term)} (h : FiniteProducts terms) :
    differentiateTerms terms =
      (terms.map (·.2.step), .ok (terms.filterMap contribution?)) := by
  induction terms with
  | nil => rfl
  | cons r rest ih =>
    rw [differentiateTerms_cons (h r List.mem_cons_self),
      ih fun s hs => h s (List.mem_cons_of_mem _ hs)]
    cases hr : contribution? r with
    | none =>
      rw [List.filterMap_cons_none hr]
      rfl
    | some c =>
      rw [List.filterMap_cons_some hr]
      rfl

/-- The first term that overflows ends the differentiation. -/
lemma differentiateTerms_of_overflow {before : List (RawTerm × Term)} {r : RawTerm × Term}
    (hbefore : FiniteProducts before) (hr : r.2.Overflows) (after : List (RawTerm × Term)) :
    differentiateTerms (before ++ r :: after) =
      (before.map (·.2.step) ++ [r.2.step], .error ⟨.coefficientOverflow, [r.1.span]⟩) := by
  induction before with
  | nil => exact differentiateTerms_cons_of_overflow hr after
  | cons b rest ih =>
    rw [List.cons_append, differentiateTerms_cons (hbefore b List.mem_cons_self),
      ih fun s hs => hbefore s (List.mem_cons_of_mem _ hs)]
    rfl

/-- Either nothing overflows, or there is a first term that does. -/
lemma finiteProducts_or_first (terms : List (RawTerm × Term)) :
    FiniteProducts terms ∨
      ∃ before r after, terms = before ++ r :: after ∧ FiniteProducts before ∧ r.2.Overflows := by
  induction terms with
  | nil => exact .inl (by simp [FiniteProducts])
  | cons t rest ih =>
    by_cases ht : t.2.Overflows
    · exact .inr ⟨[], t, rest, rfl, by simp [FiniteProducts], ht⟩
    · have hcons : ∀ {l}, FiniteProducts l → FiniteProducts (t :: l) := by
        intro l hl r hr
        rcases List.mem_cons.mp hr with rfl | hr
        · exact ht
        · exact hl r hr
      rcases ih with hfinite | ⟨before, r, after, rfl, hbefore, hr⟩
      · exact .inl (hcons hfinite)
      · exact .inr ⟨t :: before, r, after, rfl, hcons hbefore, hr⟩

/-! ## Like terms -/

/-- The contributions of an exponent come from its sources. -/
lemma filter_contributions (terms : List (RawTerm × Term)) (k : Nat) :
    (terms.filterMap contribution?).filter (·.monomial.exponent == k) =
      (sourcesAt terms k).map fun r => ⟨r.1.span, ⟨r.2.product, k⟩⟩ := by
  induction terms with
  | nil => rfl
  | cons r rest ih =>
    unfold sourcesAt at ih ⊢
    -- A term contributes to one exponent at most: the one below its own.
    cases hn : r.2.exponent with
    | zero =>
      have hr : contribution? r = none := by rw [contribution?, Term.derivative?_of_zero hn]; rfl
      rw [List.filterMap_cons_none hr, ih, List.filter_cons_of_neg (by simp [hn])]
    | succ n =>
      have hr : contribution? r = some ⟨r.1.span, ⟨r.2.product, n⟩⟩ := by
        rw [contribution?, Term.derivative?_of_succ hn]
        rfl
      rw [List.filterMap_cons_some hr]
      by_cases hk : n = k
      · rw [List.filter_cons_of_pos (by simp [hk]), List.filter_cons_of_pos (by simp [hn, hk]), ih,
          List.map_cons, hk]
      · rw [List.filter_cons_of_neg (by simp [hk]), List.filter_cons_of_neg (by simp [hn, hk]), ih]

/-- The contributions under an exponent are the products there. -/
lemma coefficientsAt_contributions (terms : List (RawTerm × Term)) (k : Nat) :
    coefficientsAt ((terms.filterMap contribution?).map Contribution.monomial) k =
      productsAt terms k := by
  have hfilter := congrArg (List.map fun c => c.monomial.coefficient) (filter_contributions terms k)
  rw [List.map_map] at hfilter
  rw [coefficientsAt, List.filter_map, List.map_map]
  exact hfilter

/-- Their places are those of the sources. -/
lemma spans_contributions (terms : List (RawTerm × Term)) (k : Nat) :
    ((terms.filterMap contribution?).filter (·.monomial.exponent == k)).map Contribution.span =
      (sourcesAt terms k).map (·.1.span) := by
  rw [filter_contributions, List.map_map]
  rfl

/-- The sum of the products by exponent, before it is checked for overflows. -/
def formalSum (terms : List (RawTerm × Term)) : Polynomial :=
  Polynomial.aggregate ((terms.filterMap contribution?).map Contribution.monomial)

/-- A sum is stored if it has products and is not zero. -/
lemma mem_formalSum_iff {terms : List (RawTerm × Term)} {m : Monomial} :
    m ∈ (formalSum terms).terms ↔
      productsAt terms m.exponent ≠ [] ∧ sumAt terms m.exponent = m.coefficient ∧
        m.coefficient.isZero = false := by
  rw [formalSum, Polynomial.mem_aggregate_iff, coefficientsAt_contributions]
  rfl

/-- A sum that is not zero has a product. -/
lemma mem_formalSum_iff_sumAt {terms : List (RawTerm × Term)} {m : Monomial} :
    m ∈ (formalSum terms).terms ↔
      sumAt terms m.exponent = m.coefficient ∧ m.coefficient.isZero = false := by
  rw [mem_formalSum_iff]
  constructor
  · exact And.right
  · rintro ⟨hsum, hnz⟩
    refine ⟨?_, hsum, hnz⟩
    intro hnil
    rw [← hsum, sumAt, hnil] at hnz
    cases hnz

/-- The coefficient under an exponent is the sum there. -/
lemma coefficient_formalSum (terms : List (RawTerm × Term)) (k : Nat) :
    (formalSum terms).coefficient k = sumAt terms k := by
  rw [formalSum, Polynomial.coefficient_aggregate, coefficientsAt_contributions]
  rfl

/-- A sum that overflows is stored. -/
lemma mem_formalSum_of_overflow {terms : List (RawTerm × Term)} {k : Nat}
    (h : (sumAt terms k).isFinite = false) :
    ⟨sumAt terms k, k⟩ ∈ (formalSum terms).terms := by
  rw [mem_formalSum_iff]
  refine ⟨?_, rfl, Binary64.isZero_of_not_finite h⟩
  intro hnil
  rw [sumAt, hnil] at h
  cases h

/-- It takes two products to overflow a sum. -/
lemma two_le_sources {terms : List (RawTerm × Term)} (hfinite : FiniteProducts terms) {k : Nat}
    (h : (sumAt terms k).isFinite = false) :
    2 ≤ (sourcesAt terms k).length := by
  unfold sumAt productsAt at h
  match hs : sourcesAt terms k with
  | [] =>
    rw [hs] at h
    cases h
  | [r] =>
    have hmem : r ∈ sourcesAt terms k := by simp [hs]
    obtain ⟨hr, hexp⟩ := List.mem_filter.mp hmem
    have hexp : r.2.exponent = k + 1 := beq_iff_eq.mp hexp
    have hsum : (leftSum [r.2.product]).isFinite = true :=
      Binary64.isFinite_zero_add (Term.isFinite_product (hfinite r hr) hexp)
    rw [hs, List.map_singleton, hsum] at h
    cases h
  | r :: s :: rest => simp

end PowerRule
