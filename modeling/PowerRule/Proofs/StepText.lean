import Mathlib.Tactic.Lemma
import PowerRule.Proofs.NegativeZero
import PowerRule.Proofs.RecordedSteps

/-!
# The words of steps

A step is described in words, with numbers in them. They are written as the coefficients of
monomials (`Step.wording`), with one exception: a negative zero that vanishes as a constant is
written with its sign. That is also the only negative zero in a description. `describe_recorded`
says this of the steps of a derivation, and for which expressions the exception is among them.
-/

namespace PowerRule

attribute [local irreducible] twoTo fiveTo tenTo

namespace Step

/-- The words of a step, given how its monomials are written. A constant is a monomial of exponent
zero. -/
def wording (write : Monomial → List Char) : Step → List Char
  | constantRule value => "constant rule: ".toList ++ write ⟨value, 0⟩ ++ " vanishes".toList
  | powerRule source derived =>
    "power rule: ".toList ++ write source ++ " -> ".toList ++ write derived
  | combineLikeTerms exponent count =>
    "combine like terms: ".toList ++ Nat.toDigits 10 count ++
      " terms in ".toList ++ write ⟨.ofNat 1, exponent⟩
  | dropZero exponent =>
    "drop zero term: ".toList ++ write ⟨.zero, exponent⟩ ++
      " * ".toList ++ write ⟨.ofNat 1, exponent⟩

/-- The monomials in the words of a step. -/
def monomials : Step → List Monomial
  | constantRule value => [⟨value, 0⟩]
  | powerRule source derived => [source, derived]
  | combineLikeTerms exponent _ => [⟨.ofNat 1, exponent⟩]
  | dropZero exponent => [⟨.zero, exponent⟩, ⟨.ofNat 1, exponent⟩]

/-- The step of a negative zero that vanishes. -/
def negativeZero : Step := constantRule (.finite .negative .zero)

end Step

/-! ## Constants -/

namespace Monomial

/-- Zero is written as such. -/
lemma format_zero (var : Char) (exponent : Nat) :
    format .canonical var ⟨.zero, exponent⟩ = ['0'] :=
  format_of_isZero (by rfl) _ _

/-- A constant is written as the number that it is, unless that is the negative zero. -/
lemma format_constant {x : Binary64} (h : x ≠ .finite .negative .zero) (var : Char) :
    format .canonical var ⟨x, 0⟩ = x.text := by
  cases hzero : x.isZero with
  | true =>
    rw [format_of_isZero hzero]
    cases x with
    | nan => cases hzero
    | infinite s => cases hzero
    | finite s a =>
      have ha : a = .zero := Magnitude.ext (beq_iff_eq.mp hzero)
      subst ha
      cases s with
      | positive => exact (Decimal.text_of_isZero Decimal.isZero_shortest_zero).symm
      | negative => exact absurd rfl h
  | false =>
    rw [format_of_not_isZero hzero]
    cases x with
    | nan => rfl
    | infinite s => cases s <;> rfl
    | finite s a =>
      have hunits : (a.units != 0) = true := by simpa [Binary64.isZero] using hzero
      have hmagnitude : magnitudeText .canonical ⟨.finite s a, 0⟩ = (Decimal.shortest a).text :=
        formatNumber_positive none a
      rw [hmagnitude, unsignedText, if_pos rfl, signText, Binary64.isNegative, hunits]
      cases s <;> rfl

end Monomial

namespace Step

section

variable (var : Char)

/-- The description of a constant that is negative zero. -/
lemma describe_negativeZero :
    negativeZero.describe var = "constant rule: -0 vanishes".toList := by
  have htext : (Binary64.finite .negative .zero).text = "-0".toList := by
    rw [Binary64.text, Decimal.text_of_isZero Decimal.isZero_shortest_zero]
    rfl
  unfold negativeZero describe
  dsimp only
  rw [htext]
  rfl

/-- What it says with the monomial as it is written elsewhere. -/
lemma wording_negativeZero :
    negativeZero.wording (Monomial.format .canonical var) =
      "constant rule: 0 vanishes".toList := by
  unfold negativeZero wording
  dsimp only
  rw [Monomial.format_of_isZero (by decide)]
  rfl

/-- Any other step is described in the canonical texts of its monomials. -/
lemma describe_eq_wording {step : Step} (h : step ≠ negativeZero) :
    step.describe var = step.wording (Monomial.format .canonical var) := by
  cases step with
  | constantRule value =>
    have hvalue : value ≠ .finite .negative .zero := fun heq => h (congrArg constantRule heq)
    unfold describe wording
    dsimp only
    rw [Monomial.format_constant hvalue]
  | powerRule source derived => rfl
  | combineLikeTerms exponent count => rfl
  | dropZero exponent =>
    unfold wording
    dsimp only
    rw [Monomial.format_zero]
    rfl

/-- A step is described in its wording unless it is that one. -/
lemma describe_eq_wording_iff (step : Step) :
    step.describe var = step.wording (Monomial.format .canonical var) ↔
      step ≠ negativeZero := by
  constructor
  · rintro h rfl
    rw [describe_negativeZero, wording_negativeZero] at h
    exact absurd h (by decide)
  · exact describe_eq_wording var

/-- A minus in front of an arrow's head is no sign. -/
lemma writesNegativeZero_arrow (text : List Char) :
    WritesNegativeZero (" -> ".toList ++ text) ↔ WritesNegativeZero text := by
  have hhead : EndsNumeral ("> ".toList ++ text) := .cons rfl (by decide) _
  have hsplit : " -> ".toList ++ text = [' '] ++ '-' :: ("> ".toList ++ text) := rfl
  rw [hsplit, WritesNegativeZero.append_iff (by decide), WritesNegativeZero.cons_iff,
    WritesNegativeZero.append_iff (by decide)]
  exact or_iff_right fun hminus => hhead.not_startsWithZero hminus.2

/-- The monomials are the only places for a negative zero in the words. -/
lemma writesNegativeZero_wording (step : Step) :
    WritesNegativeZero (step.wording (Monomial.format .canonical var)) ↔
      var = '0' ∧
        ∃ m ∈ step.monomials, m.coefficient = .finite .negative .one ∧ 0 < m.exponent := by
  have hlast (m : Monomial) : WritesNegativeZero (m.format .canonical var) ↔
      var = '0' ∧ m.coefficient = .finite .negative .one ∧ 0 < m.exponent := by
    have hformat := Monomial.writesNegativeZero_format var m .nil
    simpa [WritesNegativeZero.not_nil] using hformat
  cases step with
  | constantRule value =>
    have hend : EndsNumeral " vanishes".toList := .cons rfl (by decide) _
    have hrest : ¬WritesNegativeZero " vanishes".toList :=
      WritesNegativeZero.not_of_notMem (by decide)
    unfold wording monomials
    dsimp only
    rw [List.append_assoc, WritesNegativeZero.append_iff (by decide),
      Monomial.writesNegativeZero_format var _ hend]
    simp [-String.reduceToList, hrest]
  | powerRule source derived =>
    have hend : EndsNumeral (" -> ".toList ++ derived.format .canonical var) :=
      .cons rfl (by decide) _
    unfold wording monomials
    dsimp only
    rw [List.append_assoc, List.append_assoc, WritesNegativeZero.append_iff (by decide),
      Monomial.writesNegativeZero_format var _ hend, writesNegativeZero_arrow, hlast]
    simp [and_or_left]
  | combineLikeTerms exponent count =>
    have hcount := minus_notMem_toDigits count
    unfold wording monomials
    dsimp only
    rw [WritesNegativeZero.append_iff, hlast]
    · simp
    · simp [hcount]
  | dropZero exponent =>
    have hne : Binary64.zero ≠ .finite .negative .one := nofun
    unfold wording monomials
    dsimp only
    rw [Monomial.format_zero, WritesNegativeZero.append_iff (by decide), hlast]
    simp [hne]

/-- The vanishing negative zero is the only step that describes one. In the variable `0` the text
`-0` is also minus one times the variable. -/
lemma writesNegativeZero_describe (step : Step) :
    WritesNegativeZero (step.describe var) ↔
      step = negativeZero ∨ var = '0' ∧
        ∃ m ∈ step.monomials, m.coefficient = .finite .negative .one ∧ 0 < m.exponent := by
  by_cases h : step = negativeZero
  · refine iff_of_true ?_ (.inl h)
    rw [h, describe_negativeZero]
    have hend : EndsNumeral " vanishes".toList := .cons rfl (by decide) _
    exact ⟨"constant rule: ".toList, "0 vanishes".toList, rfl,
      (hend.startsWithZero_cons_iff '0').mpr rfl⟩
  · rw [describe_eq_wording var h, writesNegativeZero_wording]
    exact (or_iff_right h).symm

end

end Step

/-! ## The steps of a derivation -/

/-- A negative zero vanishes where it is the coefficient of a term without the variable, if no term
before it overflows. -/
lemma negativeZero_mem_steps_iff (var : Char) (expression : List Char) :
    .negativeZero ∈ (derive var expression).steps ↔
      ∃ before r after, ReadsAll var (splitTerms expression) (before ++ r :: after) ∧
        FiniteProducts before ∧ r.2.exponent = 0 ∧
        r.2.signedCoefficient = .finite .negative .zero := by
  constructor
  · intro hmem
    by_cases hread : ∀ raw ∈ splitTerms expression, ∃ t, readTerm var raw = .ok t
    · obtain ⟨terms, hterms⟩ := exists_readsAll hread
      obtain ⟨before, r, after, rfl, hbefore, hrule⟩ :=
        (mem_steps_iff_of_isRule hterms rfl).mp hmem
      exact ⟨before, r, after, hterms, hbefore, Term.rule_eq_constantRule_iff.mp hrule⟩
    · push Not at hread
      rw [steps_of_unreadable hread] at hmem
      cases hmem
  · rintro ⟨before, r, after, hterms, hbefore, hr⟩
    apply (mem_steps_iff_of_isRule hterms rfl).mpr
    exact ⟨before, r, after, rfl, hbefore, Term.rule_eq_constantRule_iff.mpr hr⟩

/-- A recorded step is described in the canonical texts of its monomials, a constant as that of
exponent zero, unless it is the step of a negative zero that vanishes. That is also the only step
whose description writes a negative zero. It is recorded exactly if a term without the variable has
the coefficient `-0` and no term before it overflows. (In the variable `0` minus one times the
variable is `-0`, too, but that is no zero.) -/
theorem describe_recorded (var : Char) (expression : List Char) :
    (∀ step ∈ (derive var expression).steps,
      (step.describe var = step.wording (Monomial.format .canonical var) ↔
        step ≠ .negativeZero) ∧
      (WritesNegativeZero (step.describe var) ↔
        step = .negativeZero ∨ var = '0' ∧
          ∃ m ∈ step.monomials, m.coefficient = .finite .negative .one ∧ 0 < m.exponent)) ∧
    (.negativeZero ∈ (derive var expression).steps ↔
      ∃ before r after, ReadsAll var (splitTerms expression) (before ++ r :: after) ∧
        FiniteProducts before ∧ r.2.exponent = 0 ∧
        r.2.signedCoefficient = .finite .negative .zero) := by
  refine ⟨?_, negativeZero_mem_steps_iff var expression⟩
  intro step _
  exact ⟨step.describe_eq_wording_iff var, step.writesNegativeZero_describe var⟩

/-- In `x-0.0-0x` two terms have a negative zero as coefficient. The constant is described with its
sign, the other one without. -/
theorem describe_recorded_zeros :
    .negativeZero ∈ (derive 'x' "x-0.0-0x".toList).steps ∧
    WritesNegativeZero (Step.negativeZero.describe 'x') ∧
    .powerRule ⟨.finite .negative .zero, 1⟩ ⟨.finite .negative .zero, 0⟩ ∈
      (derive 'x' "x-0.0-0x".toList).steps ∧
    ¬WritesNegativeZero ((Step.powerRule ⟨.finite .negative .zero, 1⟩
      ⟨.finite .negative .zero, 0⟩).describe 'x') := by
  obtain ⟨hall, hnegative⟩ := describe_recorded 'x' "x-0.0-0x".toList
  have hconstant : .negativeZero ∈ (derive 'x' "x-0.0-0x".toList).steps := by
    rw [hnegative]
    refine ⟨[(⟨0, "x".toList⟩, .power .positive .one 1)],
      (⟨1, "-0.0".toList⟩, .constant .negative .zero),
      [(⟨5, "-0x".toList⟩, .power .negative .zero 1)], ?_, ?_, rfl, rfl⟩
    · decide +kernel
    · intro r hr
      rw [List.mem_singleton.mp hr]
      decide +kernel
  have hpower : .powerRule ⟨.finite .negative .zero, 1⟩ ⟨.finite .negative .zero, 0⟩ ∈
      (derive 'x' "x-0.0-0x".toList).steps := by
    decide +kernel
  refine ⟨hconstant, (hall _ hconstant).2.mpr (.inl rfl), hpower, ?_⟩
  rw [(hall _ hpower).2]
  decide

/-- The constant `-0` is described with its sign, and as a monomial it has none. -/
theorem describe_of_negative_constant :
    .negativeZero ∈ (derive 'x' "-0".toList).steps ∧
    Step.negativeZero.describe 'x' = "constant rule: -0 vanishes".toList ∧
    Step.negativeZero.wording (Monomial.format .canonical 'x') =
      "constant rule: 0 vanishes".toList ∧
    WritesNegativeZero (Step.negativeZero.describe 'x') := by
  refine ⟨by decide +kernel, Step.describe_negativeZero 'x', Step.wording_negativeZero 'x', ?_⟩
  exact (Step.writesNegativeZero_describe 'x' _).mpr (.inl rfl)

end PowerRule
