import Mathlib.Tactic.Lemma
import PowerRule.Proofs.Aggregation
import PowerRule.Proofs.Trace

/-!
# Which steps are recorded

The steps of a derivation one by one. The rule of a term is recorded if no term before it overflows
(`mem_steps_iff_of_isRule`), and the steps of summing if no term does
(`mem_steps_iff_of_not_isRule`). So like terms are combined if there are at least two of them
(`combineLikeTerms_mem_steps_iff`), and a sum is left out if it is zero
(`dropZero_mem_steps_iff`).
-/

namespace PowerRule

attribute [local irreducible] twoTo tenTo

/-- The step is a rule that is applied to one term. -/
def Step.isRule : Step → Bool
  | constantRule _ => true
  | powerRule _ _ => true
  | combineLikeTerms _ _ => false
  | dropZero _ => false

namespace Term

/-- The rule of a term is a rule. -/
@[simp] lemma isRule_rule (t : Term) : t.rule.isRule = true := by
  cases t with
  | constant s m => rfl
  | power s c n =>
    cases n with
    | zero => rfl
    | succ n => rfl

/-- A term vanishes exactly if its exponent is zero. -/
lemma rule_eq_constantRule_iff {t : Term} {v : Binary64} :
    t.rule = .constantRule v ↔ t.exponent = 0 ∧ t.signedCoefficient = v := by
  cases t with
  | constant s m => simp [rule, exponent, signedCoefficient]
  | power s c n =>
    cases n with
    | zero => simp [rule, exponent, signedCoefficient]
    | succ n => simp [rule, exponent]

end Term

/-- A step of summing is about an exponent that is shared or zero. -/
lemma mem_tallySteps_iff {step : Step} {terms : List Monomial} {shared zeros : List Nat} :
    step ∈ tallySteps terms shared zeros ↔
      (∃ k ∈ shared, step = .combineLikeTerms k (terms.countP (·.exponent == k))) ∨
        ∃ k ∈ zeros, step = .dropZero k := by
  simp [tallySteps, eq_comm (a := step)]

/-- The steps of summing are not rules of terms. -/
lemma isRule_of_mem_aggregateSteps {step : Step} {terms : List Monomial}
    (h : step ∈ Polynomial.aggregateSteps terms) : step.isRule = false := by
  obtain ⟨shared, zeros, _, hsteps⟩ := Polynomial.aggregateSteps_eq terms
  rw [hsteps] at h
  rcases mem_tallySteps_iff.mp h with ⟨k, _, rfl⟩ | ⟨k, _, rfl⟩
  · rfl
  · rfl

/-! ## Steps and terms -/

/-- The terms before the first that overflows have their steps, and so does that one. -/
lemma steps_differentiateTerms_append {before : List (RawTerm × Term)} (h : FiniteProducts before)
    (rest : List (RawTerm × Term)) :
    (differentiateTerms (before ++ rest)).1 =
      before.map (·.2.rule) ++ (differentiateTerms rest).1 := by
  induction before with
  | nil => rfl
  | cons b before ih =>
    rw [List.cons_append, differentiateTerms_cons (h b List.mem_cons_self),
      ih fun r hr => h r (List.mem_cons_of_mem _ hr), b.2.step_eq_rule]
    rfl

/-- A term has its step whether it overflows or not. -/
lemma rule_mem_differentiateTerms (r : RawTerm × Term) (rest : List (RawTerm × Term)) :
    r.2.rule ∈ (differentiateTerms (r :: rest)).1 := by
  by_cases hr : r.2.Overflows
  · rw [differentiateTerms_cons_of_overflow hr, r.2.step_eq_rule]
    exact List.mem_singleton_self _
  · rw [differentiateTerms_cons hr, r.2.step_eq_rule]
    exact List.mem_cons_self

/-- What is recorded begins with the steps of the terms. -/
lemma exists_steps_eq_append (terms : List (RawTerm × Term)) :
    ∃ more, (deriveTerms terms).steps = (differentiateTerms terms).1 ++ more := by
  unfold deriveTerms
  split
  · rename_i steps e heq
    exact ⟨[], by rw [heq, List.append_nil]⟩
  · rename_i steps contributions heq
    exact ⟨_, by rw [heq]⟩

/-- The products of an exponent are the derivatives with it. -/
lemma coefficientsAt_derivedTerms (terms : List (RawTerm × Term)) (k : Nat) :
    coefficientsAt (derivedTerms terms) k = productsAt terms k := by
  rw [← monomials_contributions, coefficientsAt_contributions]

/-- There are as many derivatives under an exponent as sources. -/
lemma countP_derivedTerms (terms : List (RawTerm × Term)) (k : Nat) :
    (derivedTerms terms).countP (·.exponent == k) = (sourcesAt terms k).length := by
  show countAt (derivedTerms terms) k = _
  rw [countAt_eq_length, coefficientsAt_derivedTerms, productsAt, List.length_map]

section

variable {var : Char} {expression : List Char} {terms : List (RawTerm × Term)} {step : Step}
  (h : ReadsAll var (splitTerms expression) terms)

include h

/-- A rule is recorded for a term if no term before it overflows. -/
theorem mem_steps_iff_of_isRule (hstep : step.isRule = true) :
    step ∈ (derive var expression).steps ↔
      ∃ before r after, terms = before ++ r :: after ∧ FiniteProducts before ∧
        r.2.rule = step := by
  constructor
  · intro hmem
    rcases finiteProducts_or_first terms with hfinite | ⟨before, r, after, rfl, hbefore, hr⟩
    · rw [steps_of_finite h hfinite] at hmem
      rcases List.mem_append.mp hmem with hmem | hmem
      · obtain ⟨r, hr, rfl⟩ := List.mem_map.mp hmem
        obtain ⟨before, after, rfl⟩ := List.append_of_mem hr
        exact ⟨before, r, after, rfl, fun b hb => hfinite b (List.mem_append_left _ hb), rfl⟩
      · rw [isRule_of_mem_aggregateSteps hmem] at hstep
        cases hstep
    · rw [steps_of_overflow h hbefore hr] at hmem
      rcases List.mem_append.mp hmem with hmem | hmem
      · obtain ⟨b, hb, rfl⟩ := List.mem_map.mp hmem
        obtain ⟨first, second, rfl⟩ := List.append_of_mem hb
        refine ⟨first, b, second ++ r :: after, by simp, ?_, rfl⟩
        exact fun c hc => hbefore c (List.mem_append_left _ hc)
      · exact ⟨before, r, after, rfl, hbefore, (List.mem_singleton.mp hmem).symm⟩
  · rintro ⟨before, r, after, rfl, hbefore, rfl⟩
    obtain ⟨more, hmore⟩ := exists_steps_eq_append (before ++ r :: after)
    rw [derive_of_readsAll h, hmore, steps_differentiateTerms_append hbefore]
    apply List.mem_append_left
    apply List.mem_append_right
    exact rule_mem_differentiateTerms r after

/-- A step of summing is recorded only if no term overflows. -/
theorem mem_steps_iff_of_not_isRule (hstep : step.isRule = false) :
    step ∈ (derive var expression).steps ↔
      FiniteProducts terms ∧ step ∈ Polynomial.aggregateSteps (derivedTerms terms) := by
  have hrules : ∀ rs : List (RawTerm × Term), step ∉ rs.map (·.2.rule) := by
    intro rs hmem
    obtain ⟨r, _, rfl⟩ := List.mem_map.mp hmem
    rw [r.2.isRule_rule] at hstep
    cases hstep
  constructor
  · intro hmem
    rcases finiteProducts_or_first terms with hfinite | ⟨before, r, after, rfl, hbefore, hr⟩
    · rw [steps_of_finite h hfinite] at hmem
      exact ⟨hfinite, (List.mem_append.mp hmem).resolve_left (hrules terms)⟩
    · have hsteps := steps_of_overflow h hbefore hr
      rw [show [r.2.rule] = [r].map (·.2.rule) from rfl, ← List.map_append] at hsteps
      rw [hsteps] at hmem
      exact absurd hmem (hrules _)
  · rintro ⟨hfinite, hmem⟩
    rw [steps_of_finite h hfinite]
    exact List.mem_append_right _ hmem

/-- Like terms are combined, as many as there are, if they are at least two. -/
theorem combineLikeTerms_mem_steps_iff {k count : Nat} :
    .combineLikeTerms k count ∈ (derive var expression).steps ↔
      FiniteProducts terms ∧ 2 ≤ count ∧ (sourcesAt terms k).length = count := by
  obtain ⟨shared, zeros, htally, hsteps⟩ := Polynomial.aggregateSteps_eq (derivedTerms terms)
  rw [mem_steps_iff_of_not_isRule h rfl, hsteps, mem_tallySteps_iff]
  refine and_congr_right fun _ => ?_
  constructor
  · rintro (⟨j, hj, heq⟩ | ⟨j, _, heq⟩)
    · cases heq
      have hle := (htally.mem_shared k).mp hj
      exact ⟨hle, (countP_derivedTerms terms k).symm⟩
    · cases heq
  · rintro ⟨hle, hcount⟩
    rw [← hcount, ← countP_derivedTerms] at hle ⊢
    exact .inl ⟨k, (htally.mem_shared k).mpr hle, rfl⟩

/-- A sum of products is left out if it is zero. -/
theorem dropZero_mem_steps_iff {k : Nat} :
    .dropZero k ∈ (derive var expression).steps ↔
      FiniteProducts terms ∧ sourcesAt terms k ≠ [] ∧ (sumAt terms k).isZero = true := by
  obtain ⟨shared, zeros, htally, hsteps⟩ := Polynomial.aggregateSteps_eq (derivedTerms terms)
  rw [mem_steps_iff_of_not_isRule h rfl, hsteps, mem_tallySteps_iff]
  have hzeros : k ∈ zeros ↔ sourcesAt terms k ≠ [] ∧ (sumAt terms k).isZero = true := by
    rw [htally.mem_zeros, ← coefficientsAt_ne_nil, coefficientsAt_derivedTerms, productsAt,
      ne_eq, List.map_eq_nil_iff]
    rfl
  rw [← hzeros]
  refine and_congr_right fun _ => ?_
  constructor
  · rintro (⟨j, _, heq⟩ | ⟨j, hj, heq⟩)
    · cases heq
    · cases heq
      exact hj
  · intro hk
    exact .inr ⟨k, hk, rfl⟩

end

end PowerRule
