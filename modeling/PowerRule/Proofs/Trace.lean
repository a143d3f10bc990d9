import Mathlib.Tactic.Lemma
import PowerRule.Derivative
import PowerRule.Proofs.Derivative

/-!
# The steps of a derivation

Steps can be collected while they happen. The steps of a derivation that succeeds say how its result
comes about.
-/

namespace PowerRule

/-! ## Collectors of steps

Steps can be handed to a collector while they happen, instead of being returned. A collector has a
state that each step changes: it may keep all steps (`Collector.recording`) or none
(`Collector.discarding`). Whatever the collector, the result is the same and the steps that it gets
are those of the derivation, in order (`deriveInto_eq`).
-/

/-- Something that takes steps one by one, with a state. -/
structure Collector (σ : Type) where
  push : σ → Step → σ

namespace Collector

/-- Appends each step to those that it has. -/
def recording : Collector (List Step) := ⟨fun steps step => steps ++ [step]⟩

/-- Forgets each step. -/
def discarding : Collector Unit := ⟨fun _ _ => ()⟩

variable {σ : Type}

/-- Takes steps in order. -/
def pushAll (c : Collector σ) (state : σ) (steps : List Step) : σ := steps.foldl c.push state

/-- No steps leave the state as it is. -/
@[simp] lemma pushAll_nil (c : Collector σ) (state : σ) : c.pushAll state [] = state := rfl

/-- Steps are collected one after the other. -/
lemma pushAll_cons (c : Collector σ) (state : σ) (step : Step) (steps : List Step) :
    c.pushAll state (step :: steps) = c.pushAll (c.push state step) steps := rfl

/-- Steps in two lists are collected one list after the other. -/
lemma pushAll_append (c : Collector σ) (state : σ) (first second : List Step) :
    c.pushAll state (first ++ second) = c.pushAll (c.pushAll state first) second :=
  List.foldl_append

/-- What is recorded is appended. -/
lemma pushAll_recording (initial steps : List Step) :
    recording.pushAll initial steps = initial ++ steps := by
  induction steps generalizing initial with
  | nil => rw [pushAll_nil, List.append_nil]
  | cons step rest ih =>
    rw [pushAll_cons, ih]
    exact List.append_cons initial step rest |>.symm

end Collector

section

variable {σ : Type} (c : Collector σ)

/-- The power rule on terms in order: each step is collected before the coefficient is looked at. -/
def differentiateInto (state : σ) :
    List (RawTerm × Term) → σ × Except Error (List Contribution)
  | [] => (state, .ok [])
  | (raw, term) :: rest =>
    let state := c.push state term.step
    match term.derivative? with
    | none => differentiateInto state rest
    | some monomial =>
      if monomial.coefficient.isFinite then
        let (state, result) := differentiateInto state rest
        (state, result.map (⟨raw.span, monomial⟩ :: ·))
      else
        (state, .error ⟨.coefficientOverflow, [raw.span]⟩)

/-- The sum of the monomials without its zeros. A step is collected for each exponent that several
share, then for each zero that is left out. -/
def Polynomial.aggregateInto (state : σ) (terms : List Monomial) : σ × Polynomial :=
  let sum := ofTerms terms
  let combined := sum.terms.foldl (fun state t =>
    match combineStep? terms t.exponent with
    | some step => c.push state step
    | none => state) state
  (sum.zeroExponents.foldl (fun state k => c.push state (.dropZero k)) combined, sum.prune)

/-- The derivative of an expression, whose steps are collected from a state on. -/
def deriveInto (state : σ) (var : Char) (expression : List Char) :
    σ × Except Error Polynomial :=
  match readTerms var expression with
  | .error e => (state, .error e)
  | .ok terms =>
    match differentiateInto c state terms with
    | (state, .error e) => (state, .error e)
    | (state, .ok contributions) =>
      ((Polynomial.aggregateInto c state (contributions.map Contribution.monomial)).1,
        sumContributions contributions)

/-- The steps of differentiation are collected, and the result is the same. -/
lemma differentiateInto_eq (state : σ) (terms : List (RawTerm × Term)) :
    differentiateInto c state terms =
      (c.pushAll state (differentiateTerms terms).1, (differentiateTerms terms).2) := by
  induction terms generalizing state with
  | nil => rfl
  | cons r rest ih =>
    obtain ⟨raw, term⟩ := r
    rw [differentiateInto, differentiateTerms]
    dsimp only
    rw [ih]
    cases term.derivative? with
    | none => rfl
    | some monomial =>
      dsimp only
      split
      · rfl
      · rfl

/-- So are those of summing. -/
lemma Polynomial.aggregateInto_eq (state : σ) (terms : List Monomial) :
    aggregateInto c state terms =
      (c.pushAll state (aggregateSteps terms), aggregate terms) := by
  rw [aggregateInto, aggregateSteps, Collector.pushAll_append, aggregate, pruneSteps,
    Collector.pushAll, Collector.pushAll, List.foldl_map, List.foldl_filterMap]
  congr 3
  funext state t
  cases combineStep? terms t.exponent with
  | none => rfl
  | some step => rfl

/-- A collector gets the steps of the derivation and does not change its result. -/
theorem deriveInto_eq (state : σ) (var : Char) (expression : List Char) :
    deriveInto c state var expression =
      (c.pushAll state (derive var expression).steps, (derive var expression).result) := by
  rw [deriveInto, derive]
  cases readTerms var expression with
  | error e => rfl
  | ok terms =>
    dsimp only
    rw [differentiateInto_eq, deriveTerms]
    obtain ⟨steps, result⟩ := differentiateTerms terms
    cases result with
    | error e => rfl
    | ok contributions =>
      dsimp only
      rw [Polynomial.aggregateInto_eq, Collector.pushAll_append]

end

/-! ## The trace of a derivation

`deriveInto_records` says which steps a recording collector gets, on each way out: none if a term
cannot be read; those up to the first product that overflows; otherwise one for each term, one for
each exponent that several products share, and one for each sum that is zero. From the steps of a
derivation that succeeds its result can be computed again.
-/

attribute [local irreducible] twoTo tenTo

/-! ### Terms -/

/-- The rule for each kind of term. The variable to the power of zero is a constant. -/
def Term.rule : Term → Step
  | constant s v => .constantRule (.finite s v)
  | power s c 0 => .constantRule (.finite s c)
  | power s c (n + 1) => .powerRule ⟨.finite s c, n + 1⟩ ⟨.finite s c * .ofNat (n + 1), n⟩

/-- The step of a term is its rule. -/
lemma Term.step_eq_rule (t : Term) : t.step = t.rule := by
  cases t with
  | constant s v => rfl
  | power s c n =>
    cases n with
    | zero => rfl
    | succ n => rfl

/-- What the power rule gave, if the step is one. -/
def Step.derived? : Step → Option Monomial
  | powerRule _ derived => some derived
  | _ => none

/-- The derivatives of the terms that have one, in order. -/
def derivedTerms (terms : List (RawTerm × Term)) : List Monomial :=
  terms.filterMap (·.2.derivative?)

/-- A rule derives the derivative of its term. -/
lemma Term.derived?_rule (t : Term) : t.rule.derived? = t.derivative? := by
  rw [← step_eq_rule, step]
  cases t.derivative? with
  | none => rfl
  | some derived => rfl

/-- The rules derive the derivatives of the terms. -/
lemma derived?_rules (terms : List (RawTerm × Term)) :
    (terms.map (·.2.rule)).filterMap Step.derived? = derivedTerms terms := by
  rw [List.filterMap_map]
  exact List.filterMap_congr fun r _ => r.2.derived?_rule

/-- The contributions are the derivatives of the terms. -/
lemma monomials_contributions (terms : List (RawTerm × Term)) :
    (terms.filterMap contribution?).map Contribution.monomial = derivedTerms terms := by
  rw [List.map_filterMap]
  refine List.filterMap_congr fun r _ => ?_
  rw [contribution?, Option.map_map]
  exact Option.map_id_apply

/-- The steps of the terms are their rules. -/
lemma steps_eq_rules (terms : List (RawTerm × Term)) :
    terms.map (·.2.step) = terms.map (·.2.rule) :=
  List.map_congr_left fun r _ => r.2.step_eq_rule

/-! ### Like terms -/

/-- The exponents that several monomials share, from the highest on, and those whose sum is zero,
from the lowest on. -/
structure Tally (terms : List Monomial) (shared zeros : List Nat) : Prop where
  shared_descending : shared.Pairwise (· > ·)
  mem_shared (k : Nat) : k ∈ shared ↔ 2 ≤ terms.countP (·.exponent == k)
  zeros_ascending : zeros.Pairwise (· < ·)
  mem_zeros (k : Nat) :
    k ∈ zeros ↔ (∃ m ∈ terms, m.exponent = k) ∧ (leftSum (coefficientsAt terms k)).isZero = true

/-- The steps of summing monomials with this tally. -/
def tallySteps (terms : List Monomial) (shared zeros : List Nat) : List Step :=
  shared.map (fun k => .combineLikeTerms k (terms.countP (·.exponent == k))) ++
    zeros.map .dropZero

/-- The steps of summing derive no terms. -/
lemma derived?_tallySteps (terms : List Monomial) (shared zeros : List Nat) :
    (tallySteps terms shared zeros).filterMap Step.derived? = [] := by
  rw [List.filterMap_eq_nil_iff]
  intro step hstep
  rcases List.mem_append.mp hstep with h | h
  · obtain ⟨k, _, rfl⟩ := List.mem_map.mp h
    rfl
  · obtain ⟨k, _, rfl⟩ := List.mem_map.mp h
    rfl

/-- There are coefficients under the exponent of a term, and no others. -/
lemma coefficientsAt_ne_nil {terms : List Monomial} {k : Nat} :
    coefficientsAt terms k ≠ [] ↔ ∃ m ∈ terms, m.exponent = k := by
  simp [coefficientsAt]

namespace Polynomial

/-- Before pruning, every exponent of a monomial has a term. -/
lemma exponent_mem_ofTerms {terms : List Monomial} {k : Nat} :
    k ∈ (ofTerms terms).terms.map Monomial.exponent ↔ ∃ m ∈ terms, m.exponent = k := by
  rw [← coefficientsAt_ne_nil, List.mem_map]
  constructor
  · rintro ⟨t, ht, rfl⟩
    exact (mem_ofTerms_iff.mp ht).1
  · intro hne
    exact ⟨⟨leftSum (coefficientsAt terms k), k⟩, mem_ofTerms_iff.mpr ⟨hne, rfl⟩, rfl⟩

/-- An exponent is zero if it has terms and their sum is zero. -/
lemma mem_zeroExponents_ofTerms {terms : List Monomial} {k : Nat} :
    k ∈ (ofTerms terms).zeroExponents ↔
      (∃ m ∈ terms, m.exponent = k) ∧ (leftSum (coefficientsAt terms k)).isZero = true := by
  rw [← coefficientsAt_ne_nil, mem_zeroExponents_iff]
  constructor
  · rintro ⟨t, ht, rfl, hzero⟩
    obtain ⟨hne, hsum⟩ := mem_ofTerms_iff.mp ht
    rw [hsum]
    exact ⟨hne, hzero⟩
  · rintro ⟨hne, hzero⟩
    exact ⟨⟨leftSum (coefficientsAt terms k), k⟩, mem_ofTerms_iff.mpr ⟨hne, rfl⟩, rfl, hzero⟩

/-- The zero exponents rise. -/
lemma zeroExponents_ascending (p : Polynomial) : p.zeroExponents.Pairwise (· < ·) := by
  rw [zeroExponents, List.pairwise_reverse, List.pairwise_map]
  exact p.descending.filter _

/-- The exponents of several monomials, from the highest on. -/
def sharedExponents (terms : List Monomial) : List Nat :=
  ((ofTerms terms).terms.map Monomial.exponent).filter fun k =>
    1 < terms.countP (·.exponent == k)

/-- An exponent is shared by two terms or more. -/
lemma mem_sharedExponents {terms : List Monomial} {k : Nat} :
    k ∈ sharedExponents terms ↔ 2 ≤ terms.countP (·.exponent == k) := by
  rw [sharedExponents, List.mem_filter, exponent_mem_ofTerms, decide_eq_true_iff]
  constructor
  · rintro ⟨_, h⟩
    exact h
  · intro h
    obtain ⟨m, hm, hk⟩ := List.countP_pos_iff.mp (Nat.lt_of_lt_of_le Nat.zero_lt_two h)
    exact ⟨⟨m, hm, beq_iff_eq.mp hk⟩, h⟩

/-- The steps of combining are those of the shared exponents. -/
lemma combineSteps_eq (terms : List Monomial) :
    ((ofTerms terms).terms.filterMap fun t => combineStep? terms t.exponent) =
      (sharedExponents terms).map fun k =>
        .combineLikeTerms k (terms.countP (·.exponent == k)) := by
  rw [sharedExponents, ← List.filterMap_eq_map, List.filterMap_filter, List.filterMap_map]
  refine List.filterMap_congr fun t _ => ?_
  rw [combineStep?, Function.comp_apply]
  simp only [decide_eq_true_iff, Function.comp_apply]

/-- Summing monomials takes the steps of their tally. -/
theorem aggregateSteps_eq (terms : List Monomial) :
    ∃ shared zeros, Tally terms shared zeros ∧
      aggregateSteps terms = tallySteps terms shared zeros := by
  refine ⟨sharedExponents terms, (ofTerms terms).zeroExponents, ?_, ?_⟩
  · exact {
      shared_descending := (exponents_descending _).filter _
      mem_shared := fun k => mem_sharedExponents
      zeros_ascending := zeroExponents_ascending _
      mem_zeros := fun k => mem_zeroExponents_ofTerms
    }
  · rw [aggregateSteps, combineSteps_eq, tallySteps, pruneSteps]

end Polynomial

/-! ### The derivation -/

section

variable {var : Char} {expression : List Char} {terms : List (RawTerm × Term)}

/-- If a term cannot be read, there are no steps. -/
lemma steps_of_unreadable (h : ∃ raw ∈ splitTerms expression, ∀ t, readTerm var raw ≠ .ok t) :
    (derive var expression).steps = [] := by
  obtain ⟨raw, hraw, hfails⟩ := h
  rw [derive]
  cases hread : readTerms var expression with
  | error e => rfl
  | ok terms =>
    obtain ⟨hmap, hall⟩ := readTerms_eq_ok_iff.mp hread
    rw [← hmap] at hraw
    obtain ⟨r, hr, rfl⟩ := List.mem_map.mp hraw
    exact absurd (hall r hr) (hfails r.2)

/-- If a product overflows, the steps end with it. -/
lemma steps_of_overflow {before after : List (RawTerm × Term)} {r : RawTerm × Term}
    (h : ReadsAll var (splitTerms expression) (before ++ r :: after))
    (hbefore : FiniteProducts before) (hr : r.2.Overflows) :
    (derive var expression).steps = before.map (·.2.rule) ++ [r.2.rule] := by
  rw [derive_of_readsAll h, deriveTerms, differentiateTerms_of_overflow hbefore hr,
    steps_eq_rules, r.2.step_eq_rule]

/-- Otherwise the steps of summing follow those of all terms. -/
lemma steps_of_finite (h : ReadsAll var (splitTerms expression) terms)
    (hfinite : FiniteProducts terms) :
    (derive var expression).steps =
      terms.map (·.2.rule) ++ Polynomial.aggregateSteps (derivedTerms terms) := by
  rw [derive_of_readsAll h, deriveTerms, differentiateTerms_of_finite hfinite, steps_eq_rules]
  dsimp only
  rw [monomials_contributions]

end

/-- What is recorded. Whatever was there before stays in front, and the result is the one without a
record. If a term cannot be read, nothing is added. If a product overflows, the steps up to the
first such are added. Otherwise the steps of all terms are added and then those of their tally, also
if a sum overflows; if none does, the result is the sum of what the power rule gave. -/
theorem deriveInto_records (var : Char) (expression : List Char) (initial : List Step) :
    ∃ added,
      deriveInto .recording initial var expression =
        (initial ++ added, derivative var expression) ∧
      deriveInto .discarding () var expression = ((), derivative var expression) ∧
      ((∃ raw ∈ splitTerms expression, ∀ t, readTerm var raw ≠ .ok t) → added = []) ∧
      ∀ terms, ReadsAll var (splitTerms expression) terms →
        (∀ before r after, terms = before ++ r :: after → (∀ b ∈ before, ¬b.2.Overflows) →
          r.2.Overflows → added = before.map (·.2.rule) ++ [r.2.rule]) ∧
        ((∀ r ∈ terms, ¬r.2.Overflows) →
          (∃ shared zeros, Tally (derivedTerms terms) shared zeros ∧
            added = terms.map (·.2.rule) ++ tallySteps (derivedTerms terms) shared zeros) ∧
          ∀ p, derivative var expression = .ok p →
            p = Polynomial.aggregate (added.filterMap Step.derived?)) := by
  refine ⟨(derive var expression).steps, ?_, ?_, steps_of_unreadable, ?_⟩
  · rw [deriveInto_eq, Collector.pushAll_recording]
    rfl
  · exact deriveInto_eq .discarding () var expression
  · intro terms h
    constructor
    · rintro before r after rfl hbefore hr
      exact steps_of_overflow h hbefore hr
    · intro hfinite
      obtain ⟨shared, zeros, htally, hsteps⟩ :=
        Polynomial.aggregateSteps_eq (derivedTerms terms)
      rw [steps_of_finite h hfinite, hsteps]
      refine ⟨⟨shared, zeros, htally, rfl⟩, ?_⟩
      intro p hp
      obtain ⟨_, _, rfl⟩ := (derivative_eq_ok_iff h).mp hp
      -- The steps of the tally are no power rules, so only those of the terms count.
      rw [List.filterMap_append, derived?_rules, derived?_tallySteps, List.append_nil, formalSum,
        monomials_contributions]

/-- No step, one step, and the steps of terms that cancel out. -/
theorem deriveInto_records_cancelling :
    (∃ result, deriveInto .recording [.dropZero 7] 'x' "x+y".toList = ([.dropZero 7], result)) ∧
    (∃ step result, deriveInto .recording [] 'x' (huge ++ "x^2".toList) = ([step], result)) ∧
    ∃ added p, deriveInto .recording [] 'x' "x^2-x^2+x".toList = (added, .ok p) ∧
      .combineLikeTerms 1 2 ∈ added ∧ .dropZero 1 ∈ added ∧
      p = Polynomial.aggregate (added.filterMap Step.derived?) := by
  refine ⟨?_, ?_, ?_⟩
  · obtain ⟨added, hrecords, _, hunreadable, _⟩ :=
      deriveInto_records 'x' "x+y".toList [.dropZero 7]
    have hnone : added = [] := hunreadable ⟨⟨1, ['+', 'y']⟩, by decide +kernel, fun t h => by
      have hfails : readTerm 'x' ⟨1, ['+', 'y']⟩ =
          .error ⟨.malformedCoefficient ['y'], [⟨2, 3⟩]⟩ := by decide +kernel
      rw [hfails] at h
      cases h⟩
    rw [hrecords, hnone]
    exact ⟨_, rfl⟩
  · obtain ⟨added, hrecords, _, _, hread⟩ := deriveInto_records 'x' (huge ++ "x^2".toList) []
    let r : RawTerm × Term :=
      (⟨0, huge ++ "x^2".toList⟩, .power .positive ((coefficient? huge).getD .zero) 2)
    have hreads : ReadsAll 'x' (splitTerms (huge ++ "x^2".toList)) [r] := by decide +kernel
    have hover : r.2.Overflows := by decide +kernel
    obtain ⟨hoverflow, _⟩ := hread [r] hreads
    rw [hrecords, hoverflow [] r [] rfl (by simp) hover]
    exact ⟨_, _, rfl⟩
  · obtain ⟨added, hrecords, _, _, hread⟩ := deriveInto_records 'x' "x^2-x^2+x".toList []
    have hreads : ReadsAll 'x' (splitTerms "x^2-x^2+x".toList) cancelling := by decide +kernel
    obtain ⟨_, hfinite⟩ := hread cancelling hreads
    obtain ⟨⟨shared, zeros, htally, hadded⟩, hresult⟩ := hfinite (by decide +kernel)
    have hshared : 1 ∈ shared := (htally.mem_shared 1).mpr (by decide +kernel)
    have hzeros : 1 ∈ zeros := (htally.mem_zeros 1).mpr (by decide +kernel)
    obtain ⟨p, hp⟩ : ∃ p, derivative 'x' "x^2-x^2+x".toList = .ok p := by
      have hok : (derivative 'x' "x^2-x^2+x".toList).isOk = true := by decide +kernel
      cases hderivative : derivative 'x' "x^2-x^2+x".toList with
      | ok p => exact ⟨p, rfl⟩
      | error e =>
        rw [hderivative] at hok
        cases hok
    refine ⟨added, p, ?_, ?_, ?_, hresult p hp⟩
    · rw [hrecords, hp]
      rfl
    · rw [hadded, tallySteps]
      have hcount : (derivedTerms cancelling).countP (·.exponent == 1) = 2 := by decide +kernel
      exact List.mem_append_right _
        (List.mem_append_left _ (List.mem_map.mpr ⟨1, hshared, by rw [hcount]⟩))
    · rw [hadded, tallySteps]
      exact List.mem_append_right _ (List.mem_append_right _ (List.mem_map_of_mem hzeros))

end PowerRule
