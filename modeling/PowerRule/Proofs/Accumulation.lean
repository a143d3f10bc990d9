import Mathlib.Tactic.Lemma
import PowerRule.Proofs.Trace

/-!
# Polynomials that are built up

Whatever is done to a polynomial (`Operation`), it stays a sum: the coefficient of an exponent is
the sum, from left to right, of the coefficients that were added there since the polynomial was last
replaced. Pruning takes no part in this although it forgets terms and their sums start anew. What it
forgets is a sum that is zero, and such a sum is the positive zero, which is where a sum starts
(`Polynomial.coefficient_prune`).
-/

namespace PowerRule

attribute [local irreducible] twoTo tenTo

/-- The coefficients under an exponent in two lists. -/
lemma coefficientsAt_append (a b : List Monomial) (k : Nat) :
    coefficientsAt (a ++ b) k = coefficientsAt a k ++ coefficientsAt b k := by
  rw [coefficientsAt, List.filter_append, List.map_append]
  rfl

/-- A sum goes on from the sum of what stands before. -/
lemma leftSum_append (xs ys : List Binary64) :
    leftSum (xs ++ ys) = ys.foldl (· + ·) (leftSum xs) :=
  List.foldl_append

namespace Polynomial

/-! ## Coefficients -/

/-- Terms are added to what is stored, from left to right. -/
lemma coefficient_addAll (p : Polynomial) (terms : List Monomial) (k : Nat) :
    (p.addAll terms).coefficient k =
      (coefficientsAt terms k).foldl (· + ·) (p.coefficient k) := by
  rw [coefficient_eq, coefficient_eq, stored?_addAll]
  split
  · rename_i hnil
    rw [hnil]
    rfl
  · rfl

/-- Pruning does not change a coefficient that is not the negative zero. -/
lemma coefficient_prune {p : Polynomial} {k : Nat} (h : (p.coefficient k).NotNegativeZero) :
    p.prune.coefficient k = p.coefficient k := by
  rw [coefficient_eq, stored?_prune_eq]
  split
  · rename_i hzero
    rw [h hzero]
    rfl
  · rfl

/-! ## Degree -/

section

variable {p : Polynomial} {d : Nat}

/-- The coefficient of the degree is not zero, and all above it are. -/
lemma coefficient_of_degree? (h : p.degree? = some d) :
    (p.coefficient d).isZero = false ∧ ∀ k, d < k → (p.coefficient k).isZero = true := by
  obtain ⟨t, hfind, rfl⟩ := Option.map_eq_some_iff.mp h
  obtain ⟨ht, before, after, hterms, hbefore⟩ := List.find?_eq_some_iff_append.mp hfind
  have hmem : t ∈ p.terms := List.mem_of_find?_eq_some hfind
  refine ⟨?_, ?_⟩
  · rw [coefficient_of_mem hmem]
    simpa using ht
  · intro k hk
    by_contra hne
    -- A coefficient above that is not zero would be stored, hence found, before.
    have hstored := mem_terms_of_coefficient (Bool.eq_false_of_not_eq_true hne)
    have hdescending := p.descending
    rw [hterms] at hstored hdescending
    obtain ⟨_, hafter, _⟩ := List.pairwise_append.mp hdescending
    rcases List.mem_append.mp hstored with hstored | hstored
    · have hzero := hbefore _ hstored
      simp [hne] at hzero
    · rcases List.mem_cons.mp hstored with rfl | hstored
      · exact Nat.lt_irrefl _ hk
      · exact Nat.lt_asymm hk ((List.pairwise_cons.mp hafter).1 _ hstored)

/-- There is no degree exactly if all coefficients are zero. -/
lemma degree?_eq_none_iff : p.degree? = none ↔ ∀ k, (p.coefficient k).isZero = true := by
  constructor
  · intro h k
    rw [degree?, Option.map_eq_none_iff, List.find?_eq_none] at h
    by_contra hne
    have hzero := h _ (mem_terms_of_coefficient (Bool.eq_false_of_not_eq_true hne))
    simp [hne] at hzero
  · intro h
    rw [Option.eq_none_iff_forall_ne_some]
    intro d hd
    have hnonzero := (coefficient_of_degree? hd).1
    rw [h d] at hnonzero
    cases hnonzero

/-- The degree is the highest exponent whose coefficient is not zero. -/
lemma degree?_eq_some_iff :
    p.degree? = some d ↔
      (p.coefficient d).isZero = false ∧ ∀ k, d < k → (p.coefficient k).isZero = true := by
  constructor
  · exact coefficient_of_degree?
  · rintro ⟨hd, habove⟩
    cases hdegree : p.degree? with
    | none =>
      rw [degree?_eq_none_iff.mp hdegree d] at hd
      cases hd
    | some e =>
      obtain ⟨he, heabove⟩ := coefficient_of_degree? hdegree
      rcases Nat.lt_trichotomy d e with hlt | rfl | hlt
      · rw [habove e hlt] at he
        cases he
      · rfl
      · rw [heabove d hlt] at hd
        cases hd

end

end Polynomial

/-! ## Operations -/

/-- What can be done to a polynomial. Some operations replace it. -/
inductive Operation where
  | new
  | collect (terms : List Monomial)
  | add (term : Monomial)
  | extend (terms : List Monomial)
  | aggregate (terms : List Monomial)
  | prune
  | derivative (var : Char) (expression : List Char)
deriving DecidableEq

namespace Operation

/-- The polynomial afterwards. A derivative that fails leaves it as it is. -/
def apply (p : Polynomial) : Operation → Polynomial
  | new => .empty
  | collect terms => .ofTerms terms
  | add term => p.add term
  | extend terms => p.addAll terms
  | aggregate terms => .aggregate terms
  | prune => p.prune
  | derivative var expression =>
    match PowerRule.derivative var expression with
    | .ok q => q
    | .error _ => p

/-- What was added since the polynomial was last replaced, given what was added before. To a
derivative what the power rule gives is added. -/
def added (before : List Monomial) : Operation → List Monomial
  | new => []
  | collect terms => terms
  | add term => before ++ [term]
  | extend terms => before ++ terms
  | aggregate terms => terms
  | prune => before
  | derivative var expression =>
    match PowerRule.derivative var expression with
    | .ok _ => derivedTerms (termsOf var expression)
    | .error _ => before

end Operation

/-- The polynomial that the operations lead to. -/
def reached (operations : List Operation) : Polynomial :=
  operations.foldl Operation.apply .empty

/-- What the operations added to it since it was last replaced. -/
def addedBy (operations : List Operation) : List Monomial :=
  operations.foldl Operation.added []

/-- The coefficients are the sums of what was added. -/
def Accumulates (p : Polynomial) (added : List Monomial) : Prop :=
  ∀ k, p.coefficient k = leftSum (coefficientsAt added k)

namespace Accumulates

variable {p : Polynomial} {added : List Monomial}

/-- The empty polynomial accumulates nothing. -/
lemma empty : Accumulates .empty [] := fun _ => rfl

/-- With further terms it accumulates these as well. -/
lemma addAll (h : Accumulates p added) (terms : List Monomial) :
    Accumulates (p.addAll terms) (added ++ terms) := by
  intro k
  rw [Polynomial.coefficient_addAll, h k, coefficientsAt_append, leftSum_append]

/-- No accumulated coefficient is the negative zero. -/
lemma notNegativeZero (h : Accumulates p added) (k : Nat) :
    (p.coefficient k).NotNegativeZero := by
  rw [h k]
  exact leftSum_eq_zero

/-- Zeros that are left out do not show. -/
lemma prune (h : Accumulates p added) : Accumulates p.prune added := by
  intro k
  rw [Polynomial.coefficient_prune (h.notNegativeZero k), h k]

/-- A derivative accumulates the derivatives of the terms. -/
lemma derivative {var : Char} {expression : List Char}
    (h : PowerRule.derivative var expression = .ok p) :
    Accumulates p (derivedTerms (termsOf var expression)) := by
  intro k
  cases hread : readTerms var expression with
  | error e =>
    rw [PowerRule.derivative, derive, hread] at h
    cases h
  | ok terms =>
    obtain ⟨_, _, rfl⟩ := (derivative_eq_ok_iff (readTerms_eq_ok_iff.mp hread)).mp h
    rw [termsOf, hread, formalSum, monomials_contributions, Polynomial.coefficient_aggregate]
    rfl

/-- Each operation keeps the coefficients sums of what was added. -/
lemma apply (h : Accumulates p added) (operation : Operation) :
    Accumulates (operation.apply p) (operation.added added) := by
  cases operation with
  | new => exact empty
  | collect terms => exact empty.addAll terms
  | add term => exact h.addAll [term]
  | extend terms => exact h.addAll terms
  | aggregate terms => exact Polynomial.coefficient_aggregate terms
  | prune => exact h.prune
  | derivative var expression =>
    cases hderivative : PowerRule.derivative var expression with
    | ok q =>
      simp only [Operation.apply, Operation.added, hderivative]
      exact derivative hderivative
    | error e =>
      simp only [Operation.apply, Operation.added, hderivative]
      exact h

/-- Operations one after the other add what each of them adds. -/
lemma foldl (h : Accumulates p added) (operations : List Operation) :
    Accumulates (operations.foldl Operation.apply p) (operations.foldl Operation.added added) := by
  induction operations generalizing p added with
  | nil => exact h
  | cons operation operations ih => exact ih (h.apply operation)

/-- No term is stored with the negative zero. -/
lemma ne_negative_zero (h : Accumulates p added) {m : Monomial} (hm : m ∈ p.terms) :
    m.coefficient ≠ .finite .negative .zero := by
  intro hnegative
  have hcoefficient := h.notNegativeZero m.exponent
  rw [Polynomial.coefficient_of_mem hm, hnegative] at hcoefficient
  cases hcoefficient rfl

end Accumulates

/-- A polynomial that is reached accumulates what the operations add. -/
lemma accumulates_reached (operations : List Operation) :
    Accumulates (reached operations) (addedBy operations) :=
  Accumulates.empty.foldl operations

/-- Pruning adds nothing. -/
lemma addedBy_filter (operations : List Operation) :
    addedBy (operations.filter (· ≠ .prune)) = addedBy operations := by
  unfold addedBy
  generalize ([] : List Monomial) = before
  induction operations generalizing before with
  | nil => rfl
  | cons operation operations ih =>
    by_cases hprune : operation = .prune
    · rw [List.filter_cons_of_neg (by simpa using hprune), ih, hprune]
      rfl
    · rw [List.filter_cons_of_pos (by simpa using hprune), List.foldl_cons, List.foldl_cons, ih]

/-- Any polynomial that is built up has its terms in strictly descending order, none with the
negative zero. A coefficient is the sum, from left to right, of those added at its exponent since
the polynomial was last replaced: it depends neither on what is added elsewhere nor on when zeros
are pruned. The degree is the highest exponent whose coefficient is not zero. -/
theorem reached_accumulates (operations : List Operation) :
    Descending (reached operations).terms ∧
    (∀ m ∈ (reached operations).terms, m.coefficient ≠ .finite .negative .zero) ∧
    (∀ k, (reached operations).coefficient k = leftSum (coefficientsAt (addedBy operations) k)) ∧
    (∀ others k, coefficientsAt (addedBy others) k = coefficientsAt (addedBy operations) k →
      (reached others).coefficient k = (reached operations).coefficient k) ∧
    (∀ others, others.filter (· ≠ .prune) = operations.filter (· ≠ .prune) →
      ∀ k, (reached others).coefficient k = (reached operations).coefficient k) ∧
    (∀ d, (reached operations).degree? = some d ↔
      ((reached operations).coefficient d).isZero = false ∧
        ∀ k, d < k → ((reached operations).coefficient k).isZero = true) ∧
    ((reached operations).degree? = none ↔
      ∀ k, ((reached operations).coefficient k).isZero = true) := by
  have h := accumulates_reached operations
  refine ⟨(reached operations).descending, fun m hm => h.ne_negative_zero hm, h, ?_, ?_,
    fun d => Polynomial.degree?_eq_some_iff, Polynomial.degree?_eq_none_iff⟩
  · intro others k hsame
    rw [h k, accumulates_reached others k, hsame]
  · intro others hsame k
    rw [h k, accumulates_reached others k, ← addedBy_filter others, ← addedBy_filter operations,
      hsame]

/-- A sum that cancels is pruned, and the negative zero and an infinity are added afterwards. -/
theorem reached_accumulates_cancelled :
    (reached [.derivative 'x' "x^2+x^2".toList, .add ⟨-.ofNat 4, 1⟩, .prune,
      .extend [⟨.finite .negative .zero, 1⟩, ⟨.infinite .negative, 5⟩]]).coefficient 1 = .zero ∧
    (reached [.derivative 'x' "x^2+x^2".toList, .add ⟨-.ofNat 4, 1⟩,
      .extend [⟨.finite .negative .zero, 1⟩, ⟨.infinite .negative, 5⟩]]).coefficient 1 = .zero ∧
    (∃ m ∈ (reached [.derivative 'x' "x^2+x^2".toList, .add ⟨-.ofNat 4, 1⟩, .prune,
      .extend [⟨.finite .negative .zero, 1⟩, ⟨.infinite .negative, 5⟩]]).terms,
      m.coefficient.isZero = true ∧ m.coefficient ≠ .finite .negative .zero) ∧
    (reached [.derivative 'x' "x^2+x^2".toList, .add ⟨-.ofNat 4, 1⟩]).degree? = none := by
  obtain ⟨_, hzero, hsum, _, hpruned, _, _⟩ :=
    reached_accumulates [.derivative 'x' "x^2+x^2".toList, .add ⟨-.ofNat 4, 1⟩, .prune,
      .extend [⟨.finite .negative .zero, 1⟩, ⟨.infinite .negative, 5⟩]]
  refine ⟨?_, ?_, ⟨⟨.zero, 1⟩, ?_, by decide +kernel, ?_⟩, ?_⟩
  · rw [hsum]
    decide +kernel
  · rw [hpruned _ (by decide +kernel), hsum]
    decide +kernel
  · decide +kernel
  · exact hzero ⟨.zero, 1⟩ (by decide +kernel)
  · decide +kernel

end PowerRule
