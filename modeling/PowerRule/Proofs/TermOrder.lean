import Mathlib.Tactic.Lemma
import PowerRule.Proofs.Joining
import PowerRule.Proofs.Sum
import PowerRule.Proofs.WrittenDerivative

/-!
# The order of terms

Unlike terms may be written in any order. Like terms may not: their products are summed from left to
right and every sum is rounded. So the outcome of a differentiation is the same for two expressions
with the same terms if they sum each exponent alike, and only then, apart from overflows
(`sameOutcome_of_perm`). Three terms are enough for two texts (`differentiate_tenths`).
-/

namespace PowerRule

attribute [local irreducible] twoTo tenTo

/-- The same text, or an overflow both times, whichever terms it is reported at. -/
inductive SameOutcome : Except Error (List Char) → Except Error (List Char) → Prop where
  | text (t : List Char) : SameOutcome (.ok t) (.ok t)
  | overflow (spans spans' : List Span) :
    SameOutcome (.error ⟨.coefficientOverflow, spans⟩) (.error ⟨.coefficientOverflow, spans'⟩)

/-- Two texts are the same outcome exactly if they are the same. -/
lemma SameOutcome.ok_iff {t t' : List Char} : SameOutcome (.ok t) (.ok t') ↔ t = t' := by
  constructor
  · intro h
    cases h
    rfl
  · rintro rfl
    exact .text t

/-! ## Texts of polynomials -/

namespace Polynomial

section

variable {var : Char} {p q : Polynomial}

/-- A polynomial without terms but zeros is written as nothing. -/
lemma format_of_prune_eq_nil (hfinite : ∀ m ∈ p.terms, m.coefficient.isFinite = true)
    (h : p.prune.terms = []) : p.format .canonical var = [] := by
  rw [format, formatTerms_eq_flatten, filter_survives hfinite, h]
  rfl

/-- An empty expression is not read. -/
lemma not_readsAll_nil (terms : List (RawTerm × Term)) : ¬ReadsAll var (splitTerms []) terms := by
  intro h
  have hsplit : splitTerms [] = [⟨0, []⟩] := by simp [splitTerms, tokens, cutTokens, dropLoneSign]
  rw [hsplit] at h
  obtain ⟨t, rest, _, ht, _⟩ := h.of_cons
  rw [readTerm_of_nil rfl] at ht
  cases ht

/-- Polynomials that are written the same have the same terms, if one has any. -/
lemma prune_eq_of_format_eq_of_ne_nil (hvar : PlainVariable var)
    (hp : ∀ m ∈ p.terms, m.coefficient.isFinite = true ∧ m.exponent ≤ maxExponent)
    (hq : ∀ m ∈ q.terms, m.coefficient.isFinite = true ∧ m.exponent ≤ maxExponent)
    (h : p.format .canonical var = q.format .canonical var) (hne : q.prune.terms ≠ []) :
    p.prune.terms = q.prune.terms := by
  obtain ⟨read, hread, hterms⟩ :=
    readTerms_prune hvar (fun m hm => (hq m hm).1) (fun m hm => (hq m hm).2) hne
  by_cases hnil : p.prune.terms = []
  · rw [← h, format_of_prune_eq_nil (fun m hm => (hp m hm).1) hnil] at hread
    exact absurd hread (not_readsAll_nil read)
  · obtain ⟨read', hread', hterms'⟩ :=
      readTerms_prune hvar (fun m hm => (hp m hm).1) (fun m hm => (hp m hm).2) hnil
    rw [← readTerms_eq_ok_iff, h, readTerms_eq_ok_iff.mpr hread] at hread'
    rw [← hterms', ← hterms, Except.ok.inj hread']

/-- In canonical form, what is written is what is not zero. -/
theorem format_eq_iff (hvar : PlainVariable var)
    (hp : ∀ m ∈ p.terms, m.coefficient.isFinite = true ∧ m.exponent ≤ maxExponent)
    (hq : ∀ m ∈ q.terms, m.coefficient.isFinite = true ∧ m.exponent ≤ maxExponent) :
    p.format .canonical var = q.format .canonical var ↔ p.prune.terms = q.prune.terms := by
  constructor
  · intro h
    by_cases hqnil : q.prune.terms = []
    · by_cases hpnil : p.prune.terms = []
      · rw [hpnil, hqnil]
      · exact (prune_eq_of_format_eq_of_ne_nil hvar hq hp h.symm hpnil).symm
    · exact prune_eq_of_format_eq_of_ne_nil hvar hp hq h hqnil
  · intro h
    rw [format, format, formatTerms_eq_flatten, formatTerms_eq_flatten,
      filter_survives fun m hm => (hp m hm).1, filter_survives fun m hm => (hq m hm).1, h]

end

end Polynomial

/-! ## Outcomes -/

/-- The same sums are stored exactly if all sums are the same. -/
lemma formalSum_terms_eq_iff {terms terms' : List (RawTerm × Term)} :
    (formalSum terms').terms = (formalSum terms).terms ↔ ∀ k, sumAt terms' k = sumAt terms k := by
  constructor
  · intro h k
    rw [← coefficient_formalSum, ← coefficient_formalSum, Polynomial.coefficient,
      Polynomial.coefficient, h]
  · intro h
    apply Polynomial.terms_eq_of_mem_iff
    intro m
    rw [mem_formalSum_iff_sumAt, mem_formalSum_iff_sumAt, h]

/-- There are no zeros among the stored sums. -/
lemma prune_formalSum (terms : List (RawTerm × Term)) :
    (formalSum terms).prune.terms = (formalSum terms).terms := by
  apply List.filter_eq_self.mpr
  intro m hm
  simp [(mem_formalSum_iff.mp hm).2.2]

/-- Nothing overflows, neither a product nor a sum. -/
def NoOverflow (terms : List (RawTerm × Term)) : Prop := FiniteProducts terms ∧ FiniteSums terms

section

variable {var : Char} {expression expression' : List Char} {terms terms' : List (RawTerm × Term)}

/-- Without an overflow the sums are written. -/
lemma differentiate_of_noOverflow (h : ReadsAll var (splitTerms expression) terms)
    (hfinite : NoOverflow terms) :
    differentiate var expression = .ok ((formalSum terms).format .canonical var) := by
  rw [differentiate, differentiateWith,
    (derivative_eq_ok_iff h).mpr ⟨hfinite.1, hfinite.2, rfl⟩]
  rfl

/-- With one there is an error. -/
lemma differentiate_of_overflow (h : ReadsAll var (splitTerms expression) terms)
    (hover : ¬NoOverflow terms) :
    ∃ spans, differentiate var expression = .error ⟨.coefficientOverflow, spans⟩ := by
  have hderivative : ∃ spans, derivative var expression = .error ⟨.coefficientOverflow, spans⟩ := by
    rcases finiteProducts_or_first terms with hfinite | ⟨before, r, after, rfl, hbefore, hr⟩
    · obtain ⟨k, hk⟩ := not_forall.mp fun hsums => hover ⟨hfinite, hsums⟩
      obtain ⟨K, _, _, herror⟩ := sumContributions_of_overflow (Bool.not_eq_true _ ▸ hk)
      exact ⟨_, (derivative_of_finite h hfinite).trans herror⟩
    · exact ⟨_, derivative_of_overflow h hbefore hr⟩
  obtain ⟨spans, hspans⟩ := hderivative
  refine ⟨spans, ?_⟩
  rw [differentiate, differentiateWith, hspans]
  rfl

/-- The sum of terms that were read can be written, unless something overflows. -/
lemma writable_formalSum (h : ReadsAll var (splitTerms expression) terms)
    (hfinite : FiniteSums terms) :
    ∀ m ∈ (formalSum terms).terms, m.coefficient.isFinite = true ∧ m.exponent ≤ maxExponent := by
  intro m hm
  obtain ⟨hne, hsum, _⟩ := mem_formalSum_iff.mp hm
  obtain ⟨r, hr, hexponent⟩ := productsAt_ne_nil.mp hne
  have hle := (readTerm_eq_ok_iff.mp (h.2 r hr)).exponent_le
  refine ⟨?_, by omega⟩
  rw [← hsum]
  exact hfinite m.exponent

/-- Two expressions have the same outcome if both overflow, or if neither does and all sums are
equal. -/
theorem sameOutcome_iff (hvar : PlainVariable var)
    (h : ReadsAll var (splitTerms expression) terms)
    (h' : ReadsAll var (splitTerms expression') terms') :
    SameOutcome (differentiate var expression) (differentiate var expression') ↔
      ¬NoOverflow terms ∧ ¬NoOverflow terms' ∨
        NoOverflow terms ∧ NoOverflow terms' ∧ ∀ k, sumAt terms' k = sumAt terms k := by
  by_cases hfinite : NoOverflow terms
  · by_cases hfinite' : NoOverflow terms'
    · rw [differentiate_of_noOverflow h hfinite, differentiate_of_noOverflow h' hfinite',
        SameOutcome.ok_iff, eq_comm, Polynomial.format_eq_iff hvar
          (writable_formalSum h' hfinite'.2) (writable_formalSum h hfinite.2),
        prune_formalSum, prune_formalSum, formalSum_terms_eq_iff]
      simp only [hfinite, hfinite', not_true, false_and, false_or, true_and]
    · obtain ⟨spans, herror⟩ := differentiate_of_overflow h' hfinite'
      rw [differentiate_of_noOverflow h hfinite, herror]
      exact iff_of_false nofun (by simp only [hfinite, hfinite', not_true, false_and, and_false,
        or_false, not_false_iff])
  · obtain ⟨spans, herror⟩ := differentiate_of_overflow h hfinite
    by_cases hfinite' : NoOverflow terms'
    · rw [differentiate_of_noOverflow h' hfinite', herror]
      exact iff_of_false nofun (by simp only [hfinite, hfinite', not_true, false_and, and_false,
        or_false, not_false_iff])
    · obtain ⟨spans', herror'⟩ := differentiate_of_overflow h' hfinite'
      rw [herror, herror']
      exact iff_of_true (.overflow spans spans') (.inl ⟨hfinite, hfinite'⟩)

/-- If a product overflows in both or in neither, it comes down to the sums. -/
lemma sameOutcome_iff_sums (hvar : PlainVariable var)
    (h : ReadsAll var (splitTerms expression) terms)
    (h' : ReadsAll var (splitTerms expression') terms')
    (hproducts : FiniteProducts terms' ↔ FiniteProducts terms) :
    SameOutcome (differentiate var expression) (differentiate var expression') ↔
      (∃ r ∈ terms, r.2.Overflows) ∨
        (∃ k, (sumAt terms k).isFinite = false) ∧ (∃ k, (sumAt terms' k).isFinite = false) ∨
        ∀ k, sumAt terms' k = sumAt terms k := by
  have hover : (∃ r ∈ terms, r.2.Overflows) ↔ ¬FiniteProducts terms := by simp [FiniteProducts]
  have hsum : ∀ ts : List (RawTerm × Term),
      (∃ k, (sumAt ts k).isFinite = false) ↔ ¬FiniteSums ts := by simp [FiniteSums]
  rw [sameOutcome_iff hvar h h', NoOverflow, NoOverflow, hproducts, hover, hsum, hsum]
  constructor
  · rintro (⟨hno, hno'⟩ | ⟨_, _, hequal⟩)
    · by_cases hfinite : FiniteProducts terms
      · exact .inr (.inl ⟨fun hs => hno ⟨hfinite, hs⟩, fun hs => hno' ⟨hfinite, hs⟩⟩)
      · exact .inl hfinite
    · exact .inr (.inr hequal)
  · rintro (hno | ⟨hno, hno'⟩ | hequal)
    · exact .inl ⟨fun h => hno h.1, fun h => hno h.1⟩
    · exact .inl ⟨fun h => hno h.2, fun h => hno' h.2⟩
    · have hsums : FiniteSums terms' ↔ FiniteSums terms := by simp only [FiniteSums, hequal]
      rw [hsums]
      by_cases hfinite : FiniteProducts terms ∧ FiniteSums terms
      · exact .inr ⟨hfinite, hfinite, hequal⟩
      · exact .inl ⟨hfinite, hfinite⟩

end

/-! ## The same terms in another order -/

section

variable {terms terms' : List (RawTerm × Term)}
  (hperm : (terms'.map readView).Perm (terms.map readView))

include hperm

/-- Which products overflow does not depend on the order. -/
lemma finiteProducts_of_perm (h : FiniteProducts terms) : FiniteProducts terms' := by
  intro r hr
  have hview := hperm.mem_iff.mp (List.mem_map_of_mem hr)
  obtain ⟨s, hs, hsr⟩ := List.mem_map.mp hview
  have hterm : s.2 = r.2 := congrArg (·.2.2) hsr
  rw [← hterm]
  exact h s hs

/-- The products under an exponent are in another order. -/
lemma productsAt_perm (k : Nat) : (productsAt terms' k).Perm (productsAt terms k) := by
  have hproducts : ∀ ts : List (RawTerm × Term),
      productsAt ts k =
        ((ts.map readView).filter (·.2.2.exponent == k + 1)).map (·.2.2.product) := by
    intro ts
    rw [List.filter_map, List.map_map]
    rfl
  rw [hproducts terms', hproducts terms]
  exact (hperm.filter _).map _

/-- The sum of an exponent is kept if its like terms keep their order, or if there are at most two
of them. -/
lemma sumAt_eq_of_perm {k : Nat}
    (h : productsAt terms' k = productsAt terms k ∨ (sourcesAt terms k).length ≤ 2) :
    sumAt terms' k = sumAt terms k := by
  rcases h with heq | hle
  · rw [sumAt, sumAt, heq]
  · apply leftSum_eq_of_perm (productsAt_perm hperm k)
    rwa [productsAt, List.length_map]

end

/-- The signed terms of an expression in another order. The outcome is the same exactly if a product
overflows, or some sum does in the one order and some in the other, or all sums are equal. They are
equal if, for each exponent, the like terms keep their order or are at most two. -/
theorem sameOutcome_of_perm {var : Char} (hvar : var.isAlpha = true) {expression : List Char}
    {terms : List (RawTerm × Term)} (h : ReadsAll var (splitTerms expression) terms)
    {texts : List (List Char)} (hperm : texts.Perm (signedTexts expression)) :
    ∃ terms', ReadsAll var (splitTerms texts.flatten) terms' ∧
      (terms'.map readView).Perm (terms.map readView) ∧
      (SameOutcome (differentiate var expression) (differentiate var texts.flatten) ↔
        (∃ r ∈ terms, r.2.Overflows) ∨
          (∃ k, (sumAt terms k).isFinite = false) ∧ (∃ k, (sumAt terms' k).isFinite = false) ∨
          ∀ k, sumAt terms' k = sumAt terms k) ∧
      ((∀ k, productsAt terms' k = productsAt terms k ∨ (sourcesAt terms k).length ≤ 2) →
        SameOutcome (differentiate var expression) (differentiate var texts.flatten)) := by
  have hplain : PlainVariable var := .of_isAlpha hvar
  have htexts : (signedTexts texts.flatten).Perm (signedTexts expression) := by
    rwa [signedTexts_flatten hplain h hperm]
  obtain ⟨terms', h', hviews⟩ := h.of_perm htexts
  have hproducts : FiniteProducts terms' ↔ FiniteProducts terms :=
    ⟨finiteProducts_of_perm hviews.symm, finiteProducts_of_perm hviews⟩
  have hiff := sameOutcome_iff_sums hplain h h' hproducts
  refine ⟨terms', h', hviews, hiff, ?_⟩
  intro hsums
  exact hiff.mpr (.inr (.inr fun k => sumAt_eq_of_perm hviews (hsums k)))

/-- Two terms whose sum is the same in both orders, and a third between them. -/
theorem sameOutcome_of_perm_square :
    ReadsAll 'x' (splitTerms "0.1x+x^2+0.2x".toList) (termsOf 'x' "0.1x+x^2+0.2x".toList) ∧
    ["+0.2x".toList, "+x^2".toList, "+0.1x".toList].Perm (signedTexts "0.1x+x^2+0.2x".toList) ∧
    SameOutcome (differentiate 'x' "0.1x+x^2+0.2x".toList)
      (differentiate 'x' "+0.2x+x^2+0.1x".toList) := by
  have h : ReadsAll 'x' (splitTerms "0.1x+x^2+0.2x".toList)
      (termsOf 'x' "0.1x+x^2+0.2x".toList) := by
    decide +kernel
  have hperm : ["+0.2x".toList, "+x^2".toList, "+0.1x".toList].Perm
      (signedTexts "0.1x+x^2+0.2x".toList) := by
    decide +kernel
  obtain ⟨terms', _, _, _, hsame⟩ := sameOutcome_of_perm rfl h hperm
  refine ⟨h, hperm, hsame fun k => .inr ?_⟩
  have hmax : ∀ r ∈ termsOf 'x' "0.1x+x^2+0.2x".toList, r.2.exponent ≤ 2 := by decide +kernel
  rcases k with _ | _ | k
  · decide +kernel
  · decide +kernel
  · have hnone : sourcesAt (termsOf 'x' "0.1x+x^2+0.2x".toList) (k + 2) = [] := by
      rw [sourcesAt, List.filter_eq_nil_iff]
      intro r hr
      have := hmax r hr
      simp only [beq_iff_eq]
      omega
    rw [hnone]
    exact Nat.zero_le 2

/-- Three like terms, summed from the left and from the right. -/
theorem differentiate_tenths :
    ReadsAll 'x' (splitTerms "0.1x+0.2x+0.3x".toList) (termsOf 'x' "0.1x+0.2x+0.3x".toList) ∧
    ["+0.3x".toList, "+0.2x".toList, "+0.1x".toList].Perm (signedTexts "0.1x+0.2x+0.3x".toList) ∧
    differentiate 'x' "0.1x+0.2x+0.3x".toList = .ok "0.6000000000000001".toList ∧
    differentiate 'x' ["+0.3x".toList, "+0.2x".toList, "+0.1x".toList].flatten =
      .ok "0.6".toList ∧
    ¬SameOutcome (differentiate 'x' "0.1x+0.2x+0.3x".toList)
      (differentiate 'x' ["+0.3x".toList, "+0.2x".toList, "+0.1x".toList].flatten) := by
  have hleft : differentiate 'x' "0.1x+0.2x+0.3x".toList = .ok "0.6000000000000001".toList := by
    decide +kernel
  have hright : differentiate 'x' ["+0.3x".toList, "+0.2x".toList, "+0.1x".toList].flatten =
      .ok "0.6".toList := by
    decide +kernel
  refine ⟨by decide +kernel, by decide +kernel, hleft, hright, ?_⟩
  rw [hleft, hright, SameOutcome.ok_iff]
  decide

end PowerRule
