import Mathlib.Tactic.Lemma
import PowerRule.Proofs.Derivative
import PowerRule.Proofs.Joining
import PowerRule.Proofs.Pieces
import PowerRule.Proofs.Sum

/-!
# Expressions with all signs exchanged

In an expression that begins with a sign every term has its own sign, and nothing else in it is a
sign. If plus and minus are exchanged everywhere, the terms are read as their negations
(`readsAll_exchangeSign`), so products and sums become opposite numbers and overflow together.
`derivative_exchangeSign` says that the derivative becomes its negation, or that both overflow at
the same places.
-/

namespace PowerRule

attribute [local irreducible] twoTo tenTo

/-- Exchanges plus and minus. -/
def exchangeSign (c : Char) : Char :=
  if c = '+' then '-' else if c = '-' then '+' else c

/-- The term with the opposite sign. -/
def Term.negate : Term → Term
  | power s c n => power s.flip c n
  | constant s v => constant s.flip v

/-- The monomial with the opposite coefficient. -/
def Monomial.negate (m : Monomial) : Monomial := ⟨-m.coefficient, m.exponent⟩

/-- A term that is negated twice is the same. -/
lemma Monomial.negate_negate (m : Monomial) : m.negate.negate = m := by
  rw [negate, negate, Binary64.neg_neg]

/-- The polynomial with the opposite coefficients. -/
def Polynomial.negate (p : Polynomial) : Polynomial where
  terms := p.terms.map Monomial.negate
  descending := List.pairwise_map.mpr p.descending

/-- A raw term with its signs exchanged, beside the negation of its term. -/
def exchangeRead (r : RawTerm × Term) : RawTerm × Term :=
  (r.1.relabel exchangeSign, r.2.negate)

/-! ## Signs of an expression -/

/-- Other characters are not exchanged. -/
lemma exchangeSign_of_not_sign {c : Char} (h : ¬IsSignMark c) : exchangeSign c = c := by
  obtain ⟨hplus, hminus⟩ := not_or.mp h
  rw [exchangeSign, if_neg hplus, if_neg hminus]

/-- A text without signs stays as it is. -/
lemma map_exchangeSign {text : List Char} (h : ∀ c ∈ text, ¬IsSignMark c) :
    text.map exchangeSign = text :=
  map_eq_self fun c hc => exchangeSign_of_not_sign (h c hc)

/-- With its signs exchanged, an expression is cut at the same places. -/
lemma keepsCuts_exchangeSign : KeepsCuts exchangeSign where
  utf8Size_eq c := by
    unfold exchangeSign
    split_ifs with hplus hminus
    · rw [hplus]
      rfl
    · rw [hminus]
      rfl
    · rfl
  isSignMark_iff c := by
    unfold exchangeSign
    split_ifs with hplus hminus
    · exact iff_of_true (.inr rfl) (.inl hplus)
    · exact iff_of_true (.inl rfl) (.inr hminus)
    · rfl
  eq_caret_iff c := by
    unfold exchangeSign
    split_ifs with hplus hminus
    · rw [hplus]
      decide
    · rw [hminus]
      decide
    · rfl

/-- In an expression that begins with a sign, each term does. -/
lemma exists_sign_of_mem_splitTerms {s : Char} (hs : IsSignMark s) {rest : List Char}
    {raw : RawTerm} (h : raw ∈ splitTerms (s :: rest)) :
    ∃ c more, raw.text = c :: more ∧ IsSignMark c := by
  have hpiece := (splitTerms_isPrefix (s :: rest)).subset h
  rw [pieces_sign hs] at hpiece
  rcases List.mem_cons.mp hpiece with rfl | hothers
  · exact ⟨s, _, rfl, hs⟩
  · obtain ⟨left, right, hsplit⟩ := List.append_of_mem hothers
    exact (cutText_boundary hsplit).1

/-- A term that starts with a sign gets the other one. -/
lemma sign_relabel_exchangeSign {raw : RawTerm} {c : Char} {more : List Char}
    (htext : raw.text = c :: more) (hc : IsSignMark c) :
    (raw.relabel exchangeSign).sign = raw.sign.flip := by
  obtain ⟨start, text⟩ := raw
  cases htext
  rcases hc with rfl | rfl
  · rfl
  · rfl

/-- With the other sign, the negated term is read. -/
lemma Reads.negate {var : Char} {sign : Sign} {body : List Char} {t : Term}
    (h : Reads var sign body t) :
    Reads var sign.flip body t.negate := by
  cases h with
  | constant hnot hm => exact .constant hnot hm
  | power hnot hm hn => exact .power hnot hm hn

/-- With its signs exchanged, the expression is read as the negated terms. -/
theorem readsAll_exchangeSign {var : Char} (hvar : PlainVariable var) {s : Char}
    (hs : IsSignMark s) {rest : List Char} {terms : List (RawTerm × Term)}
    (h : ReadsAll var (splitTerms (s :: rest)) terms) :
    ReadsAll var (splitTerms ((s :: rest).map exchangeSign)) (terms.map exchangeRead) := by
  obtain ⟨hmap, hread⟩ := h
  refine ⟨?_, ?_⟩
  · rw [keepsCuts_exchangeSign.splitTerms_map, ← hmap, List.map_map, List.map_map]
    rfl
  · intro r' hr'
    obtain ⟨r, hr, rfl⟩ := List.mem_map.mp hr'
    have hreads := readTerm_eq_ok_iff.mp (hread r hr)
    have hraw : r.1 ∈ splitTerms (s :: rest) := hmap ▸ List.mem_map_of_mem hr
    obtain ⟨c, more, htext, hc⟩ := exists_sign_of_mem_splitTerms hs hraw
    rw [readTerm_eq_ok_iff, exchangeRead, sign_relabel_exchangeSign htext hc,
      keepsCuts_exchangeSign.body_relabel, map_exchangeSign (hreads.termBody hvar).signFree]
    exact hreads.negate

/-! ## Products and sums -/

namespace Term

/-- A negated term has the same exponent. -/
lemma exponent_negate (t : Term) : t.negate.exponent = t.exponent := by
  cases t with
  | power s c n => rfl
  | constant s v => rfl

/-- It has the negated product. -/
lemma product_negate (t : Term) : t.negate.product = -t.product := by
  have hcoefficient : t.negate.signedCoefficient = -t.signedCoefficient := by
    cases t with
    | power s c n => rfl
    | constant s v => rfl
  rw [product, product, hcoefficient, t.exponent_negate, Binary64.neg_mul]

/-- Its product overflows exactly if that of the term does. -/
lemma overflows_negate (t : Term) : t.negate.Overflows ↔ t.Overflows := by
  rw [Overflows, Overflows, t.exponent_negate, t.product_negate, Binary64.isFinite_neg]

end Term

section

variable (terms : List (RawTerm × Term))

/-- All products are finite exactly if they were before. -/
lemma finiteProducts_exchange : FiniteProducts (terms.map exchangeRead) ↔ FiniteProducts terms := by
  rw [FiniteProducts, List.forall_mem_map]
  exact forall₂_congr fun r _ => not_congr r.2.overflows_negate

/-- An exponent has the same sources, with their signs exchanged. -/
lemma sourcesAt_exchange (k : Nat) :
    sourcesAt (terms.map exchangeRead) k = (sourcesAt terms k).map exchangeRead := by
  rw [sourcesAt, sourcesAt, List.filter_map]
  congr 1
  apply List.filter_congr
  intro r _
  show (r.2.negate.exponent == k + 1) = (r.2.exponent == k + 1)
  rw [r.2.exponent_negate]

/-- The products under an exponent are negated. -/
lemma productsAt_exchange (k : Nat) :
    productsAt (terms.map exchangeRead) k = (productsAt terms k).map (-·) := by
  have hproduct : ∀ r : RawTerm × Term, (exchangeRead r).2.product = -r.2.product :=
    fun r => r.2.product_negate
  rw [productsAt, sourcesAt_exchange, List.map_map, productsAt, List.map_map]
  exact List.map_congr_left fun r _ => hproduct r

/-- The sum under an exponent is the opposite. -/
lemma opposite_sumAt (k : Nat) : (sumAt terms k).Opposite (sumAt (terms.map exchangeRead) k) := by
  rw [sumAt, sumAt, productsAt_exchange]
  exact opposite_leftSum _

/-- All sums are finite exactly if they were before. -/
lemma finiteSums_exchange : FiniteSums (terms.map exchangeRead) ↔ FiniteSums terms := by
  unfold FiniteSums
  exact forall_congr' fun k => by rw [(opposite_sumAt terms k).isFinite_eq]

/-- The sum that is stored becomes its negation. -/
lemma formalSum_exchange :
    (formalSum (terms.map exchangeRead)).terms = (formalSum terms).terms.map Monomial.negate := by
  show _ = (formalSum terms).negate.terms
  apply Polynomial.terms_eq_of_mem_iff
  intro m
  have hmem : m ∈ (formalSum terms).negate.terms ↔ m.negate ∈ (formalSum terms).terms :=
    List.mem_map_of_involutive Monomial.negate_negate
  rw [hmem, mem_formalSum_iff_sumAt, mem_formalSum_iff_sumAt, Monomial.negate, Binary64.isZero_neg]
  exact and_congr_left fun hnz => (opposite_sumAt terms m.exponent).eq_iff (by simpa using hnz)

/-- The highest exponent whose sum overflows is the same, and so are its sources. -/
lemma sumContributions_exchange (h : ¬FiniteSums terms) :
    ∃ spans, sumContributions (terms.filterMap contribution?) =
        .error ⟨.coefficientOverflow, spans⟩ ∧
      sumContributions ((terms.map exchangeRead).filterMap contribution?) =
        .error ⟨.coefficientOverflow, spans⟩ := by
  have hfinite : ∀ k, (sumAt (terms.map exchangeRead) k).isFinite = (sumAt terms k).isFinite :=
    fun k => (opposite_sumAt terms k).isFinite_eq
  obtain ⟨k, hk⟩ := not_forall.mp h
  obtain ⟨K, hK, habove, herror⟩ := sumContributions_of_overflow (Bool.not_eq_true _ ▸ hk)
  obtain ⟨K', hK', habove', herror'⟩ :=
    sumContributions_of_overflow ((hfinite k).trans (Bool.not_eq_true _ ▸ hk))
  have hle : K' ≤ K := by
    rw [← Nat.not_lt]
    intro hlt
    rw [hfinite, habove K' hlt] at hK'
    cases hK'
  have hge : K ≤ K' := by
    rw [← Nat.not_lt]
    intro hlt
    have hover := habove' K hlt
    rw [hfinite, hK] at hover
    cases hover
  have hspans : (sourcesAt (terms.map exchangeRead) K').map (·.1.span) =
      (sourcesAt terms K).map (·.1.span) := by
    rw [Nat.le_antisymm hle hge, sourcesAt_exchange, List.map_map]
    exact List.map_congr_left fun r _ => keepsCuts_exchangeSign.span_relabel r.1
  exact ⟨_, herror, herror'.trans (by rw [hspans])⟩

end

/-- If all signs of an expression that begins with a sign are exchanged, its derivative becomes the
negation: it stores the same exponents with opposite coefficients. Or both overflow, at the same
places. -/
theorem derivative_exchangeSign {var : Char} (hvar : var.isAlpha = true) {s : Char}
    (hs : IsSignMark s) {rest : List Char} {terms : List (RawTerm × Term)}
    (h : ReadsAll var (splitTerms (s :: rest)) terms) :
    ReadsAll var (splitTerms ((s :: rest).map exchangeSign)) (terms.map exchangeRead) ∧
    ((∃ p q, derivative var (s :: rest) = .ok p ∧
        derivative var ((s :: rest).map exchangeSign) = .ok q ∧
        q.terms = p.terms.map Monomial.negate) ∨
      ∃ spans, derivative var (s :: rest) = .error ⟨.coefficientOverflow, spans⟩ ∧
        derivative var ((s :: rest).map exchangeSign) = .error ⟨.coefficientOverflow, spans⟩) := by
  have h' := readsAll_exchangeSign (.of_isAlpha hvar) hs h
  refine ⟨h', ?_⟩
  rcases finiteProducts_or_first terms with hfinite | ⟨before, r, after, rfl, hbefore, hr⟩
  · have hfinite' := (finiteProducts_exchange terms).mpr hfinite
    by_cases hsums : FiniteSums terms
    · have hsums' := (finiteSums_exchange terms).mpr hsums
      exact .inl ⟨_, _, (derivative_eq_ok_iff h).mpr ⟨hfinite, hsums, rfl⟩,
        (derivative_eq_ok_iff h').mpr ⟨hfinite', hsums', rfl⟩, formalSum_exchange terms⟩
    · obtain ⟨spans, herror, herror'⟩ := sumContributions_exchange terms hsums
      exact .inr ⟨spans, (derivative_of_finite h hfinite).trans herror,
        (derivative_of_finite h' hfinite').trans herror'⟩
  · refine .inr ⟨[r.1.span], derivative_of_overflow h hbefore hr, ?_⟩
    rw [List.map_append, List.map_cons] at h'
    rw [← keepsCuts_exchangeSign.span_relabel r.1]
    exact derivative_of_overflow h' ((finiteProducts_exchange before).mpr hbefore)
      (r.2.overflows_negate.mpr hr)

/-- Terms that cancel out do so with the other signs as well. -/
theorem derivative_exchangeSign_cancelling :
    ReadsAll 'x' (splitTerms "-x^2+x^2-3x".toList) (termsOf 'x' "-x^2+x^2-3x".toList) ∧
    ∃ p q, derivative 'x' "-x^2+x^2-3x".toList = .ok p ∧
      derivative 'x' "+x^2-x^2+3x".toList = .ok q ∧
      p.format .canonical 'x' = "-3".toList ∧ q.terms = p.terms.map Monomial.negate := by
  have h : ReadsAll 'x' (splitTerms "-x^2+x^2-3x".toList)
      (termsOf 'x' "-x^2+x^2-3x".toList) := by
    decide +kernel
  have htext : differentiate 'x' "-x^2+x^2-3x".toList = .ok "-3".toList := by decide +kernel
  have hexchange : "-x^2+x^2-3x".toList.map exchangeSign = "+x^2-x^2+3x".toList := by decide
  rw [differentiate, differentiateWith] at htext
  refine ⟨h, ?_⟩
  rcases (derivative_exchangeSign rfl (.inr rfl) h).2 with ⟨p, q, hp, hq, hterms⟩ | ⟨_, herror, _⟩
  · have hp : derivative 'x' "-x^2+x^2-3x".toList = .ok p := hp
    rw [hp] at htext
    refine ⟨p, q, hp, ?_, Except.ok.inj htext, hterms⟩
    rw [← hexchange]
    exact hq
  · have herror : derivative 'x' "-x^2+x^2-3x".toList = .error _ := herror
    rw [herror] at htext
    cases htext

end PowerRule
