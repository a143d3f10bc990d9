import Mathlib.Tactic.Lemma
import PowerRule.Proofs.Pruning

/-!
# Summing in one pass

Monomials are counted and summed at the same time, while they come in (`Running`). Afterwards the
counts are gone through from the highest exponent on and the sums from the lowest. The counts and
the sums have the same exponents (`Running.Holds`), so that this is the sum of like terms with its
steps (`Polynomial.aggregatePass_eq`). What comes out depends only on the coefficients of each
exponent in their order, and not on how different exponents are mixed (`aggregatePass_account`).
-/

namespace PowerRule

attribute [local irreducible] twoTo tenTo

/-! ## The pass -/

/-- Counts an exponent; the counts are in descending order of the exponents. -/
def countExponent (k : Nat) : List (Nat × Nat) → List (Nat × Nat)
  | [] => [(k, 1)]
  | (e, count) :: rest =>
    if e < k then (k, 1) :: (e, count) :: rest
    else if e = k then (e, count + 1) :: rest
    else (e, count) :: countExponent k rest

/-- How many monomials of each exponent there were so far, and their sums. -/
structure Running where
  counts : List (Nat × Nat)
  sum : Polynomial

/-- Takes a monomial in. -/
def Running.add (r : Running) (m : Monomial) : Running :=
  ⟨countExponent m.exponent r.counts, r.sum.add m⟩

section

variable {σ : Type} (c : Collector σ)

/-- Collects a step for each exponent that was counted more than once. -/
def combineInto (state : σ) : List (Nat × Nat) → σ
  | [] => state
  | (k, count) :: rest =>
    combineInto (if 1 < count then c.push state (.combineLikeTerms k count) else state) rest

/-- The sum of the monomials without its zeros, whose steps are collected. -/
def Polynomial.aggregatePass (state : σ) (terms : List Monomial) : σ × Polynomial :=
  let r := terms.foldl Running.add ⟨[], .empty⟩
  r.sum.pruneInto c (combineInto c state r.counts)

end

/-! ## What is counted -/

/-- A count for each term, under its exponent. -/
def countsOf (terms : List Monomial) (f : Nat → Nat) : List (Nat × Nat) :=
  terms.map fun t => (t.exponent, f t.exponent)

section

variable {f g : Nat → Nat}

/-- Counts that agree on the exponents of the terms are the same. -/
lemma countsOf_congr {terms : List Monomial} (h : ∀ t ∈ terms, f t.exponent = g t.exponent) :
    countsOf terms f = countsOf terms g :=
  List.map_congr_left fun t ht => by rw [h t ht]

/-- Counting an exponent changes the counts as an insertion changes the terms. -/
lemma countExponent_countsOf {terms : List Monomial} (h : Descending terms) (m : Monomial)
    (hsame : ∀ k, k ≠ m.exponent → g k = f k) (hnext : g m.exponent = f m.exponent + 1)
    (hnone : (∀ t ∈ terms, t.exponent ≠ m.exponent) → f m.exponent = 0) :
    countExponent m.exponent (countsOf terms f) = countsOf (insertTerm m terms) g := by
  induction terms with
  | nil =>
    have hone : g m.exponent = 1 := by rw [hnext, hnone nofun]
    show [(m.exponent, 1)] = [(m.exponent, g m.exponent)]
    rw [hone]
  | cons t rest ih =>
    obtain ⟨hlt, hrest⟩ := List.pairwise_cons.mp h
    show countExponent m.exponent ((t.exponent, f t.exponent) :: countsOf rest f) = _
    rw [countExponent, insertTerm]
    split
    -- No term has the exponent, so it was not counted before.
    · rename_i hbelow
      have hne : ∀ u ∈ t :: rest, u.exponent ≠ m.exponent := by
        intro u hu
        rcases List.mem_cons.mp hu with rfl | hu
        · exact Nat.ne_of_lt hbelow
        · exact Nat.ne_of_lt (Nat.lt_trans (hlt u hu) hbelow)
      have hone : g m.exponent = 1 := by rw [hnext, hnone hne]
      show (m.exponent, 1) :: countsOf (t :: rest) f =
        (m.exponent, g m.exponent) :: countsOf (t :: rest) g
      rw [hone, countsOf_congr fun u hu => (hsame _ (hne u hu)).symm]
    · split
      · rename_i heq
        have hne : ∀ u ∈ rest, u.exponent ≠ m.exponent := by
          intro u hu
          rw [← heq]
          exact Nat.ne_of_lt (hlt u hu)
        show (t.exponent, f t.exponent + 1) :: countsOf rest f =
          (m.exponent, g m.exponent) :: countsOf rest g
        rw [heq, hnext, countsOf_congr fun u hu => (hsame _ (hne u hu)).symm]
      · rename_i hne
        have hrest' := ih hrest fun hrest => by
          apply hnone
          intro u hu
          rcases List.mem_cons.mp hu with rfl | hu
          · exact hne
          · exact hrest u hu
        show (t.exponent, f t.exponent) :: countExponent m.exponent (countsOf rest f) =
          (t.exponent, g t.exponent) :: countsOf (insertTerm m rest) g
        rw [hrest', hsame _ hne]

end

/-- The number of monomials of an exponent. -/
def countAt (terms : List Monomial) (k : Nat) : Nat := terms.countP (·.exponent == k)

/-- One more term counts for its exponent. -/
lemma countAt_append_singleton (terms : List Monomial) (m : Monomial) (k : Nat) :
    countAt (terms ++ [m]) k = countAt terms k + if m.exponent = k then 1 else 0 := by
  rw [countAt, List.countP_append, List.countP_singleton]
  simp only [beq_iff_eq]
  rfl

/-- The monomials were counted and summed. -/
structure Running.Holds (r : Running) (terms : List Monomial) : Prop where
  sum : r.sum = .ofTerms terms
  counts : r.counts = countsOf r.sum.terms (countAt terms)

namespace Running

/-- Before the first term there are no counts and no sum. -/
lemma holds_empty : Holds ⟨[], .empty⟩ [] := ⟨rfl, rfl⟩

namespace Holds

variable {r : Running} {terms : List Monomial}

/-- One more term is counted and added. -/
lemma add (h : r.Holds terms) (m : Monomial) : (r.add m).Holds (terms ++ [m]) where
  sum := by
    rw [Running.add, h.sum, Polynomial.ofTerms, Polynomial.ofTerms, Polynomial.addAll,
      Polynomial.addAll, List.foldl_append]
    rfl
  counts := by
    rw [Running.add, h.counts]
    apply countExponent_countsOf r.sum.descending
    · intro k hk
      rw [countAt_append_singleton, if_neg (Ne.symm hk), Nat.add_zero]
    · rw [countAt_append_singleton, if_pos rfl]
    · intro hnone
      rw [countAt, List.countP_eq_zero]
      intro t ht heq
      have hmem := Polynomial.exponent_mem_ofTerms.mpr ⟨t, ht, beq_iff_eq.mp heq⟩
      rw [← h.sum] at hmem
      obtain ⟨u, hu, hexponent⟩ := List.mem_map.mp hmem
      exact hnone u hu hexponent

/-- So are any more terms. -/
lemma foldl (h : r.Holds terms) (more : List Monomial) :
    (more.foldl Running.add r).Holds (terms ++ more) := by
  induction more generalizing r terms with
  | nil => rwa [List.append_nil]
  | cons m rest ih =>
    rw [List.append_cons]
    exact ih (h.add m)

end Holds

end Running

/-! ## The outcome -/

section

variable {σ : Type} (c : Collector σ)

/-- A step is collected for each exponent that several terms share. -/
lemma combineInto_countsOf (state : σ) (counted terms : List Monomial) :
    combineInto c state (countsOf terms (countAt counted)) =
      c.pushAll state (terms.filterMap fun t => combineStep? counted t.exponent) := by
  induction terms generalizing state with
  | nil => rfl
  | cons t rest ih =>
    have hstep : combineStep? counted t.exponent =
        if 1 < countAt counted t.exponent then
          some (.combineLikeTerms t.exponent (countAt counted t.exponent))
        else none := rfl
    show combineInto c state ((t.exponent, countAt counted t.exponent) :: countsOf rest _) = _
    rw [combineInto, ih]
    split at hstep
    · rename_i hshared
      simp only [if_pos hshared, List.filterMap_cons, hstep, Collector.pushAll_cons]
    · rename_i hshared
      simp only [if_neg hshared, List.filterMap_cons, hstep]

/-- The pass gives the sum of like terms, and collects its steps. -/
lemma Polynomial.aggregatePass_eq (state : σ) (terms : List Monomial) :
    aggregatePass c state terms = (c.pushAll state (aggregateSteps terms), aggregate terms) := by
  have h := Running.holds_empty.foldl terms
  rw [List.nil_append] at h
  rw [aggregatePass, pruneInto_eq_prune, h.counts, h.sum, combineInto_countsOf, aggregateSteps,
    Collector.pushAll_append]
  rfl

end

section

variable {terms others : List Monomial}

/-- There are as many terms under an exponent as coefficients. -/
lemma countAt_eq_length (terms : List Monomial) (k : Nat) :
    countAt terms k = (coefficientsAt terms k).length := by
  rw [countAt, coefficientsAt, List.length_map, List.countP_eq_length_filter]

namespace Polynomial

/-- Only the sums that are not zero are stored. -/
lemma mem_aggregate_iff_leftSum {m : Monomial} :
    m ∈ (aggregate terms).terms ↔
      leftSum (coefficientsAt terms m.exponent) = m.coefficient ∧
        m.coefficient.isZero = false := by
  rw [mem_aggregate_iff, and_iff_right_of_imp]
  -- Without monomials the sum is zero.
  rintro ⟨hsum, hzero⟩ hnil
  rw [← hsum, hnil] at hzero
  cases hzero

/-- The stored sums depend on the coefficients under each exponent only. -/
lemma ofTerms_congr (h : ∀ k, coefficientsAt others k = coefficientsAt terms k) :
    (ofTerms others).terms = (ofTerms terms).terms := by
  apply terms_eq_of_mem_iff
  intro m
  rw [mem_ofTerms_iff, mem_ofTerms_iff, h]

/-- So do the steps of summing. -/
lemma aggregateSteps_congr (h : ∀ k, coefficientsAt others k = coefficientsAt terms k) :
    aggregateSteps others = aggregateSteps terms := by
  have hcombine (k : Nat) : combineStep? others k = combineStep? terms k := by
    have hcount : others.countP (·.exponent == k) = terms.countP (·.exponent == k) := by
      show countAt others k = countAt terms k
      rw [countAt_eq_length, countAt_eq_length, h]
    rw [combineStep?, combineStep?, hcount]
  simp only [aggregateSteps, pruneSteps, zeroExponents, ofTerms_congr h, hcombine]

/-- So does the result of summing. -/
lemma aggregate_congr (h : ∀ k, coefficientsAt others k = coefficientsAt terms k) :
    aggregate others = aggregate terms := by
  simp only [aggregate, prune, ofTerms_congr h]

end Polynomial

end

/-- The account of a pass. The polynomial stores the sums, from left to right, that are not zero, so
also those that are not finite, and nothing else. Whatever was collected before stays in front. What
is added are the steps of the tally: those of the exponents that several monomials share, with their
number, from the highest on, and then those of the exponents whose sum is zero, from the lowest on.
Monomials that have the same coefficients in the same order for each exponent have the same outcome,
however different exponents are mixed. -/
theorem aggregatePass_account (terms : List Monomial) :
    ∃ shared zeros, Tally terms shared zeros ∧
      Polynomial.aggregateSteps terms = tallySteps terms shared zeros ∧
      (∀ {σ : Type} (c : Collector σ) (state : σ),
        Polynomial.aggregatePass c state terms =
          (c.pushAll state (tallySteps terms shared zeros), .aggregate terms)) ∧
      (∀ initial, Polynomial.aggregatePass .recording initial terms =
        (initial ++ tallySteps terms shared zeros, .aggregate terms)) ∧
      (∀ m, m ∈ (Polynomial.aggregate terms).terms ↔
        leftSum (coefficientsAt terms m.exponent) = m.coefficient ∧
          m.coefficient.isZero = false) ∧
      (∀ k, (leftSum (coefficientsAt terms k)).isFinite = false →
        ⟨leftSum (coefficientsAt terms k), k⟩ ∈ (Polynomial.aggregate terms).terms) ∧
      ∀ others, (∀ k, coefficientsAt others k = coefficientsAt terms k) →
        ∀ {σ : Type} (c : Collector σ) (state : σ),
          Polynomial.aggregatePass c state others = Polynomial.aggregatePass c state terms := by
  obtain ⟨shared, zeros, htally, hsteps⟩ := Polynomial.aggregateSteps_eq terms
  refine ⟨shared, zeros, htally, hsteps, ?_, ?_,
    fun m => Polynomial.mem_aggregate_iff_leftSum, ?_, ?_⟩
  · intro σ c state
    rw [Polynomial.aggregatePass_eq, hsteps]
  · intro initial
    rw [Polynomial.aggregatePass_eq, hsteps, Collector.pushAll_recording]
  · intro k hinfinite
    exact Polynomial.mem_aggregate_iff_leftSum.mpr
      ⟨rfl, Binary64.isZero_of_not_finite hinfinite⟩
  · intro others h σ c state
    rw [Polynomial.aggregatePass_eq, Polynomial.aggregatePass_eq,
      Polynomial.aggregateSteps_congr h, Polynomial.aggregate_congr h]

/-- Like terms that cancel between others, in two ways to mix them. -/
theorem aggregatePass_account_mixed :
    (∀ k, coefficientsAt [⟨.ofNat 2, 1⟩, ⟨.nan, 3⟩, ⟨-.ofNat 2, 1⟩] k =
      coefficientsAt [⟨.nan, 3⟩, ⟨.ofNat 2, 1⟩, ⟨-.ofNat 2, 1⟩] k) ∧
    ∃ steps q,
      Polynomial.aggregatePass .recording [.dropZero 9]
        [⟨.ofNat 2, 1⟩, ⟨.nan, 3⟩, ⟨-.ofNat 2, 1⟩] = (.dropZero 9 :: steps, q) ∧
      Polynomial.aggregatePass .recording [.dropZero 9]
        [⟨.nan, 3⟩, ⟨.ofNat 2, 1⟩, ⟨-.ofNat 2, 1⟩] = (.dropZero 9 :: steps, q) ∧
      .combineLikeTerms 1 2 ∈ steps ∧ .dropZero 1 ∈ steps ∧ ⟨.nan, 3⟩ ∈ q.terms := by
  let mixed : List Monomial := [⟨.ofNat 2, 1⟩, ⟨.nan, 3⟩, ⟨-.ofNat 2, 1⟩]
  let sorted : List Monomial := [⟨.nan, 3⟩, ⟨.ofNat 2, 1⟩, ⟨-.ofNat 2, 1⟩]
  have hsame (k : Nat) : coefficientsAt mixed k = coefficientsAt sorted k := by
    by_cases hk : 1 = k
    · rw [← hk]
      decide +kernel
    · simp [coefficientsAt, List.filter_cons, mixed, sorted, hk]
  obtain ⟨shared, zeros, htally, _, _, hrecords, _, hinfinite, hcongr⟩ :=
    aggregatePass_account sorted
  refine ⟨hsame, tallySteps sorted shared zeros, .aggregate sorted, ?_, ?_, ?_, ?_, ?_⟩
  · rw [hcongr mixed hsame, hrecords]
    rfl
  · rw [hrecords]
    rfl
  · have hshared : 1 ∈ shared := (htally.mem_shared 1).mpr (by decide +kernel)
    exact List.mem_append_left _ (List.mem_map.mpr ⟨1, hshared, rfl⟩)
  · have hzeros : 1 ∈ zeros := (htally.mem_zeros 1).mpr (by decide +kernel)
    exact List.mem_append_right _ (List.mem_map_of_mem hzeros)
  · exact hinfinite 3 (by decide +kernel)

end PowerRule
