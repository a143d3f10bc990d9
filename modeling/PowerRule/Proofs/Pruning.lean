import Mathlib.Tactic.Lemma
import PowerRule.Proofs.Accumulation
import PowerRule.Proofs.RoundTrip

/-!
# Pruning cannot be seen

Zeros are dropped in one pass over the stored terms, which hands a step to a collector for each of
them (`Polynomial.pruneInto`). Afterwards a polynomial that was built up has the coefficients, the
degree and the text that it had before, and there is nothing left to drop
(`Reachable.prune_invisible`). For the degree and the text this is so because both pass over zeros,
whatever the polynomial; for the coefficients, because what is forgotten is no negative zero.
-/

namespace PowerRule

attribute [local irreducible] twoTo tenTo

/-! ## One pass -/

section

variable {σ : Type} (c : Collector σ)

/-- Keeps the terms that are not zero, from the lowest exponent on. A step is collected for each
term that is dropped. -/
def retainInto (state : σ) : List Monomial → σ × List Monomial
  | [] => (state, [])
  | t :: rest =>
    let (state, kept) := retainInto state rest
    if t.coefficient.isZero then (c.push state (.dropZero t.exponent), kept)
    else (state, t :: kept)

/-- The zeros are collected from the lowest exponent on, and the others are left. -/
lemma retainInto_eq (state : σ) (terms : List Monomial) :
    retainInto c state terms =
      (c.pushAll state
        ((((terms.filter (·.coefficient.isZero)).map Monomial.exponent).reverse).map .dropZero),
        terms.filter (!·.coefficient.isZero)) := by
  induction terms with
  | nil => rfl
  | cons t rest ih =>
    rw [retainInto, ih]
    dsimp only
    cases hzero : t.coefficient.isZero with
    | true =>
      rw [if_pos rfl, List.filter_cons_of_pos (by exact hzero),
        List.filter_cons_of_neg (by simp [hzero]), List.map_cons, List.reverse_cons,
        List.map_append, Collector.pushAll_append]
      rfl
    | false =>
      rw [if_neg Bool.false_ne_true, List.filter_cons_of_neg (by simp [hzero]),
        List.filter_cons_of_pos (by simp [hzero])]

/-- Exponents that fall still do. -/
lemma descending_retainInto (state : σ) {terms : List Monomial} (h : Descending terms) :
    Descending (retainInto c state terms).2 := by
  rw [retainInto_eq]
  exact h.filter _

namespace Polynomial

/-- Drops the zeros, from the lowest exponent on, and collects a step for each. -/
def pruneInto (p : Polynomial) (state : σ) : σ × Polynomial :=
  ((retainInto c state p.terms).1,
    ⟨(retainInto c state p.terms).2, descending_retainInto c state p.descending⟩)

/-- The pass leaves what is not zero, and its steps are those of the zeros. -/
lemma pruneInto_eq_prune (state : σ) (p : Polynomial) :
    p.pruneInto c state = (c.pushAll state p.pruneSteps, p.prune) := by
  simp only [pruneInto, retainInto_eq]
  rfl

end Polynomial

end

namespace Polynomial

/-! ## What is left -/

/-- The degree passes over zeros. -/
lemma degree?_prune (p : Polynomial) : p.prune.degree? = p.degree? := by
  unfold degree? prune
  rw [List.find?_filter]
  simp only [and_self, Bool.decide_eq_true]

/-- No zero is written. -/
lemma format_prune (style : Style) (var : Char) (p : Polynomial) :
    p.prune.format style var = p.format style var := by
  have hsurvives (m : Monomial) :
      (m.survives style && !m.coefficient.isZero) = m.survives style := by
    unfold Monomial.survives
    cases m.coefficient.isZero with
    | true => rfl
    | false => exact Bool.and_true _
  unfold format prune
  rw [formatTerms_eq_flatten, formatTerms_eq_flatten, List.filter_filter]
  simp only [hsurvives]

/-- What was pruned has no zeros to drop. -/
lemma prune_prune (p : Polynomial) : p.prune.prune = p.prune := by
  unfold prune
  simp only [List.filter_filter, Bool.and_self]

/-- No zeros are left. -/
lemma zeroExponents_prune (p : Polynomial) : p.prune.zeroExponents = [] := by
  rw [List.eq_nil_iff_forall_not_mem]
  intro k hk
  obtain ⟨m, hm, _, hzero⟩ := mem_zeroExponents_iff.mp hk
  rw [(mem_prune_iff.mp hm).2] at hzero
  cases hzero

end Polynomial

/-- Some operations lead to the polynomial. -/
def Reachable (p : Polynomial) : Prop := ∃ operations, reached operations = p

/-- No coefficient that is reached is the negative zero. -/
lemma Reachable.notNegativeZero {p : Polynomial} (h : Reachable p) (k : Nat) :
    (p.coefficient k).NotNegativeZero := by
  obtain ⟨operations, rfl⟩ := h
  exact (accumulates_reached operations).notNegativeZero k

/-- Pruning a polynomial that was built up, by whatever operations, cannot be seen: all coefficients
are as before, also the sign of a zero, and so are the degree and the text in every style. The terms
that are zero are dropped, each with a step, from the lowest exponent on, and all others stay. Once
that is done there is nothing left to drop. -/
theorem Reachable.prune_invisible {p : Polynomial} (h : Reachable p) :
    (∀ {σ : Type} (c : Collector σ) (state : σ),
      p.pruneInto c state = (c.pushAll state p.pruneSteps, p.prune)) ∧
    (∀ initial, p.pruneInto .recording initial =
      (initial ++ p.zeroExponents.map .dropZero, p.prune)) ∧
    p.zeroExponents.Pairwise (· < ·) ∧
    (∀ k, k ∈ p.zeroExponents ↔
      ∃ m ∈ p.terms, m.exponent = k ∧ m.coefficient.isZero = true) ∧
    (∀ m, m ∈ p.prune.terms ↔ m ∈ p.terms ∧ m.coefficient.isZero = false) ∧
    (∀ m ∈ p.terms, m.coefficient.isFinite = false → m ∈ p.prune.terms) ∧
    (∀ k, p.prune.coefficient k = p.coefficient k) ∧
    p.prune.degree? = p.degree? ∧
    (∀ style var, p.prune.format style var = p.format style var) ∧
    ∀ {σ : Type} (c : Collector σ) (state : σ), p.prune.pruneInto c state = (state, p.prune) := by
  refine ⟨fun c state => Polynomial.pruneInto_eq_prune c state p, ?_,
    p.zeroExponents_ascending, fun k => Polynomial.mem_zeroExponents_iff,
    fun m => Polynomial.mem_prune_iff, ?_, ?_, p.degree?_prune,
    fun style var => p.format_prune style var, ?_⟩
  · intro initial
    rw [Polynomial.pruneInto_eq_prune, Collector.pushAll_recording]
    rfl
  · intro m hm hinfinite
    exact Polynomial.mem_prune_iff.mpr ⟨hm, Binary64.isZero_of_not_finite hinfinite⟩
  · intro k
    exact Polynomial.coefficient_prune (h.notNegativeZero k)
  · intro σ c state
    rw [Polynomial.pruneInto_eq_prune, Polynomial.pruneSteps, Polynomial.zeroExponents_prune,
      Polynomial.prune_prune]
    rfl

/-- Like terms that cancel are dropped, and what is not a number stays. -/
theorem Reachable.prune_invisible_cancelled :
    ∃ p, Reachable p ∧ ⟨.zero, 1⟩ ∈ p.terms ∧ ⟨.nan, 3⟩ ∈ p.terms ∧
      (∃ steps, (p.pruneInto .recording [.dropZero 9]).1 = .dropZero 9 :: steps ∧
        .dropZero 1 ∈ steps ∧ .dropZero 3 ∉ steps) ∧
      p.prune.coefficient 1 = .zero ∧ ⟨.nan, 3⟩ ∈ p.prune.terms ∧ p.prune.degree? = some 3 := by
  let p := reached [.derivative 'x' "x^2+x^2".toList, .extend [⟨-.ofNat 4, 1⟩, ⟨.nan, 3⟩]]
  have hp : Reachable p := ⟨_, rfl⟩
  have hzero : ⟨.zero, 1⟩ ∈ p.terms := by decide +kernel
  have hnan : ⟨.nan, 3⟩ ∈ p.terms := by decide +kernel
  obtain ⟨_, hrecords, _, hzeros, _, hstays, hcoefficient, hdegree, _, _⟩ := hp.prune_invisible
  refine ⟨p, hp, hzero, hnan, ⟨p.zeroExponents.map .dropZero, ?_, ?_, ?_⟩, ?_, ?_, ?_⟩
  · rw [hrecords]
    rfl
  · exact List.mem_map_of_mem ((hzeros 1).mpr ⟨_, hzero, rfl, rfl⟩)
  · intro hdropped
    obtain ⟨k, hk, heq⟩ := List.mem_map.mp hdropped
    cases heq
    revert hk
    decide +kernel
  · rw [hcoefficient]
    decide +kernel
  · exact hstays _ hnan rfl
  · rw [hdegree]
    decide +kernel

end PowerRule
