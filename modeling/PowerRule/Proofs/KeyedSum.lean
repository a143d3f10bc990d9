import Mathlib.Data.List.Sort
import Mathlib.Tactic.Lemma
import PowerRule.Derivative
import PowerRule.Proofs.Rounding

/-!
# Polynomials as sums by exponent

A polynomial is looked at through `Polynomial.stored?`, the coefficient that it holds for an
exponent. What an addition, a sum of terms and pruning do to it is stated once each
(`Polynomial.stored?_add`, `Polynomial.stored?_ofTerms`, `Polynomial.stored?_prune`). Together they
say what `Polynomial.aggregate` stores: the sums that are not zero (`Polynomial.mem_aggregate_iff`).
No such sum is the negative zero (`leftSum_eq_zero`).
-/

namespace PowerRule

attribute [local irreducible] twoTo tenTo

/-! ## Sums of numbers -/

namespace Binary64

/-- The sum of finite numbers is that of their signs and magnitudes. -/
@[simp] lemma finite_add_finite (s t : Sign) (a b : Magnitude) :
    finite s a + finite t b = addFinite s a t b := rfl

/-- A number that is zero only as the positive zero. -/
def NotNegativeZero (x : Binary64) : Prop := x.isZero = true → x = zero

/-- The zero that sums start with is not the negative one. -/
lemma notNegativeZero_zero : NotNegativeZero zero := fun _ => rfl

/-- A sum is the negative zero only if both summands are. -/
lemma NotNegativeZero.add {x : Binary64} (hx : NotNegativeZero x) (y : Binary64) :
    NotNegativeZero (x + y) := by
  intro h
  cases x with
  | nan => cases h
  | infinite s =>
    cases y with
    | nan => cases h
    | infinite t => cases s <;> cases t <;> cases h
    | finite t b => cases h
  | finite s a =>
    cases y with
    | nan => cases h
    | infinite t => cases h
    | finite t b =>
      rw [finite_add_finite, addFinite] at h ⊢
      split at h
      · rename_i hst
        have hsum := eq_zero_of_isZero_ofRatio h
        have ha : a.units = 0 := by omega
        have hs : finite s a = zero := hx (beq_iff_eq.mpr ha)
        have hpos : s = .positive := by
          cases hs
          rfl
        rw [if_pos hst, hpos, hsum]
        exact ofRatio_of_some (Magnitude.ofRatio?_self .zero) .positive
      · rename_i hst
        split at h
        · rename_i hunits
          rw [if_neg hst, if_pos hunits]
        · split at h
          · have := eq_zero_of_isZero_ofRatio h
            omega
          · have := eq_zero_of_isZero_ofRatio h
            omega

/-- A number added to zero stays finite. -/
lemma isFinite_zero_add {x : Binary64} (h : x.isFinite = true) : (zero + x).isFinite = true := by
  cases x with
  | nan => cases h
  | infinite s => cases h
  | finite s m =>
    rw [zero, finite_add_finite, addFinite]
    have hzero : Magnitude.zero.units = 0 := rfl
    have hself := Magnitude.ofRatio?_self m
    split
    · rw [hzero, Nat.zero_add, ofRatio_of_some hself]
      rfl
    · split
      · rfl
      · rename_i hne
        rw [hzero] at hne
        rw [if_neg (by omega), hzero, Nat.sub_zero, ofRatio_of_some hself]
        rfl

/-- A zero of either sign, added to another number, leaves it as it is. -/
lemma zero_add_of_nonzero {z x : Binary64} (hz : z.isZero = true) (hx : x.isZero = false) :
    z + x = x := by
  cases z with
  | nan => cases hz
  | infinite s => cases hz
  | finite s o =>
    have hzero : o.units = 0 := beq_iff_eq.mp hz
    cases x with
    | nan => rfl
    | infinite t => rfl
    | finite t a =>
      have hne : a.units ≠ 0 := by simpa [isZero] using hx
      have hself := Magnitude.ofRatio?_self a
      rw [finite_add_finite, addFinite, hzero, Nat.zero_add, Nat.sub_zero]
      split
      · rename_i hst
        rw [hst]
        exact ofRatio_of_some hself t
      · rw [if_neg (Ne.symm hne), if_neg (Nat.not_lt_zero _)]
        exact ofRatio_of_some hself t

/-- What is not finite is not zero. -/
lemma isZero_of_not_finite {x : Binary64} (h : x.isFinite = false) : x.isZero = false := by
  cases x with
  | nan => rfl
  | infinite s => rfl
  | finite s m => cases h

end Binary64

/-- The coefficients of an exponent, in order. -/
def coefficientsAt (terms : List Monomial) (k : Nat) : List Binary64 :=
  (terms.filter (·.exponent == k)).map Monomial.coefficient

/-- The sum of numbers from left to right, from zero on. -/
def leftSum (xs : List Binary64) : Binary64 := xs.foldl (· + ·) .zero

/-- A sum that does not start with the negative zero never is it. -/
lemma notNegativeZero_foldl {x : Binary64} (hx : x.NotNegativeZero) (xs : List Binary64) :
    (xs.foldl (· + ·) x).NotNegativeZero := by
  induction xs generalizing x with
  | nil => exact hx
  | cons y ys ih => exact ih (hx.add y)

/-- A sum that is zero is the positive zero. -/
lemma leftSum_eq_zero {xs : List Binary64} (h : (leftSum xs).isZero = true) :
    leftSum xs = .zero :=
  notNegativeZero_foldl Binary64.notNegativeZero_zero xs h

/-! ## Stored coefficients -/

/-- The coefficient that is stored for an exponent in descending terms. -/
def storedIn (terms : List Monomial) (k : Nat) : Option Binary64 :=
  (terms.find? (·.exponent == k)).map Monomial.coefficient

/-- Nothing is stored in no terms. -/
@[simp] lemma storedIn_nil (k : Nat) : storedIn [] k = none := rfl

/-- The first term comes first. -/
lemma storedIn_cons (t : Monomial) (rest : List Monomial) (k : Nat) :
    storedIn (t :: rest) k = if t.exponent = k then some t.coefficient else storedIn rest k := by
  by_cases h : t.exponent = k <;> simp [storedIn, h]

/-- Above the highest exponent nothing is stored. -/
lemma storedIn_eq_none {terms : List Monomial} {k : Nat} (h : ∀ t ∈ terms, t.exponent < k) :
    storedIn terms k = none := by
  have hnone : terms.find? (·.exponent == k) = none := by
    rw [List.find?_eq_none]
    intro t ht
    have := h t ht
    simp only [beq_iff_eq]
    omega
  rw [storedIn, hnone]
  rfl

/-- A term is there exactly if its coefficient is stored under its exponent. -/
lemma mem_iff_storedIn {terms : List Monomial} (hd : Descending terms) {m : Monomial} :
    m ∈ terms ↔ storedIn terms m.exponent = some m.coefficient := by
  induction terms with
  | nil => simp
  | cons t rest ih =>
    obtain ⟨hlt, hrest⟩ := List.pairwise_cons.mp hd
    by_cases he : t.exponent = m.exponent
    · rw [storedIn_cons, if_pos he]
      constructor
      · intro hmem
        rcases List.mem_cons.mp hmem with rfl | hmem
        · rfl
        · have := hlt m hmem
          omega
      · intro hcoeff
        have htm : t = m := by
          cases t
          cases m
          cases he
          cases hcoeff
          rfl
        rw [htm]
        exact List.mem_cons_self
    · rw [storedIn_cons, if_neg he, ← ih hrest, List.mem_cons]
      constructor
      · rintro (rfl | hmem)
        · exact absurd rfl he
        · exact hmem
      · exact .inr

/-- In descending terms an exponent has one coefficient at most. -/
lemma coefficientsAt_of_descending {terms : List Monomial} (h : Descending terms) (k : Nat) :
    coefficientsAt terms k = (storedIn terms k).toList := by
  induction terms with
  | nil => rfl
  | cons t rest ih =>
    obtain ⟨hlt, hrest⟩ := List.pairwise_cons.mp h
    rw [storedIn_cons]
    split
    · rename_i he
      have hnone : coefficientsAt rest k = [] := by
        rw [ih hrest, storedIn_eq_none fun u hu => he ▸ hlt u hu]
        rfl
      have hcons : coefficientsAt (t :: rest) k = t.coefficient :: coefficientsAt rest k := by
        simp [coefficientsAt, he]
      rw [hcons, hnone]
      rfl
    · rename_i hne
      have hcons : coefficientsAt (t :: rest) k = coefficientsAt rest k := by
        simp [coefficientsAt, hne]
      rw [hcons, ih hrest]

/-- An insertion changes what is stored for its exponent and nothing else. -/
lemma storedIn_insertTerm {terms : List Monomial} (hd : Descending terms) (m : Monomial)
    (k : Nat) :
    storedIn (insertTerm m terms) k =
      if m.exponent = k then some ((storedIn terms k).getD .zero + m.coefficient)
      else storedIn terms k := by
  induction terms with
  | nil => rw [insertTerm, storedIn_cons, storedIn_nil, Option.getD_none]
  | cons t rest ih =>
    obtain ⟨hlt, hrest⟩ := List.pairwise_cons.mp hd
    rw [insertTerm]
    -- The monomial goes before the head, onto it, or further down.
    split
    · rename_i hbelow
      rw [storedIn_cons]
      split
      · rename_i he
        dsimp only at he
        have hnone : storedIn (t :: rest) k = none := by
          apply storedIn_eq_none
          intro u hu
          rcases List.mem_cons.mp hu with rfl | hu
          · omega
          · have := hlt u hu
            omega
        rw [hnone, Option.getD_none]
      · rfl
    · split
      · rename_i hsame
        rw [storedIn_cons, storedIn_cons, hsame]
        split
        · rfl
        · rfl
      · rename_i hne
        rw [storedIn_cons, storedIn_cons, ih hrest]
        split
        · rw [if_neg (by omega)]
        · rfl

namespace Polynomial

/-- The coefficient that is stored for an exponent. -/
def stored? (p : Polynomial) (k : Nat) : Option Binary64 := storedIn p.terms k

/-- The exponents of a polynomial fall. -/
lemma exponents_descending (p : Polynomial) :
    (p.terms.map Monomial.exponent).Pairwise (· > ·) :=
  List.pairwise_map.mpr p.descending

/-- A polynomial is determined by what is stored in it. -/
lemma terms_eq_of_mem_iff {p q : Polynomial} (h : ∀ m, m ∈ p.terms ↔ m ∈ q.terms) :
    p.terms = q.terms := by
  have : Std.Irrefl fun a b : Monomial => b.exponent < a.exponent := ⟨fun a => Nat.lt_irrefl _⟩
  have : Std.Antisymm fun a b : Monomial => b.exponent < a.exponent :=
    ⟨fun a b hba hab => absurd hab (Nat.lt_asymm hba)⟩
  exact p.descending.eq_of_mem_iff q.descending fun {m} => h m

/-- A coefficient is what is stored, or zero. -/
lemma coefficient_eq (p : Polynomial) (k : Nat) : p.coefficient k = (p.stored? k).getD .zero := by
  unfold coefficient stored? storedIn
  cases p.terms.find? (·.exponent == k) with
  | none => rfl
  | some t => rfl

/-- A term of a polynomial is there exactly if its coefficient is stored under its exponent. -/
lemma mem_terms_iff {p : Polynomial} {m : Monomial} :
    m ∈ p.terms ↔ p.stored? m.exponent = some m.coefficient :=
  mem_iff_storedIn p.descending

/-- The coefficient under the exponent of a term is that of the term. -/
lemma coefficient_of_mem {p : Polynomial} {m : Monomial} (h : m ∈ p.terms) :
    p.coefficient m.exponent = m.coefficient := by
  rw [coefficient_eq, mem_terms_iff.mp h, Option.getD_some]

/-- A term is added to what is stored under its exponent, or to zero. -/
lemma stored?_add (p : Polynomial) (m : Monomial) (k : Nat) :
    (p.add m).stored? k =
      if m.exponent = k then some ((p.stored? k).getD .zero + m.coefficient) else p.stored? k :=
  storedIn_insertTerm p.descending m k

/-- Terms are summed onto what is stored, for each exponent in their order. -/
lemma stored?_addAll (p : Polynomial) (terms : List Monomial) (k : Nat) :
    (p.addAll terms).stored? k =
      if coefficientsAt terms k = [] then p.stored? k
      else some ((coefficientsAt terms k).foldl (· + ·) ((p.stored? k).getD .zero)) := by
  -- The polynomial is the accumulator of the fold, so the induction is over all of them.
  induction terms generalizing p with
  | nil => rfl
  | cons m rest ih =>
    show ((p.add m).addAll rest).stored? k = _
    rw [ih, stored?_add]
    by_cases he : m.exponent = k
    · have hcons : coefficientsAt (m :: rest) k = m.coefficient :: coefficientsAt rest k := by
        simp [coefficientsAt, he]
      rw [hcons, if_pos he, if_neg (List.cons_ne_nil _ _)]
      split
      · rename_i hnil
        rw [hnil]
        rfl
      · rfl
    · have hcons : coefficientsAt (m :: rest) k = coefficientsAt rest k := by
        simp [coefficientsAt, he]
      rw [hcons, if_neg he]

/-- Under an exponent the sum of its coefficients is stored, from left to right. -/
lemma stored?_ofTerms (terms : List Monomial) (k : Nat) :
    (ofTerms terms).stored? k =
      if coefficientsAt terms k = [] then none else some (leftSum (coefficientsAt terms k)) :=
  stored?_addAll empty terms k

/-- Pruning forgets zeros and nothing else. -/
lemma stored?_prune (p : Polynomial) (k : Nat) :
    p.prune.stored? k = (p.stored? k).filter (!·.isZero) := by
  apply Option.ext
  intro x
  have hp := mem_terms_iff (p := p) (m := ⟨x, k⟩)
  have hprune := mem_terms_iff (p := p.prune) (m := ⟨x, k⟩)
  dsimp only at hp hprune
  rw [← hprune, Option.filter_eq_some_iff, ← hp]
  exact List.mem_filter

/-- After pruning, the coefficients that are not zero are stored. -/
lemma stored?_prune_eq (p : Polynomial) (n : Nat) :
    p.prune.stored? n =
      if (p.coefficient n).isZero = true then none else some (p.coefficient n) := by
  rw [stored?_prune, coefficient_eq]
  cases p.stored? n with
  | none => rfl
  | some x =>
    rw [Option.getD_some, Option.filter_some]
    cases x.isZero with
    | true => rfl
    | false => rfl

/-- A sum of terms stores the sums of the exponents that occur. -/
lemma mem_ofTerms_iff {terms : List Monomial} {m : Monomial} :
    m ∈ (ofTerms terms).terms ↔
      coefficientsAt terms m.exponent ≠ [] ∧
        leftSum (coefficientsAt terms m.exponent) = m.coefficient := by
  rw [mem_terms_iff, stored?_ofTerms]
  split
  · rename_i hnil
    simp [hnil]
  · rename_i hne
    simp [hne]

/-- The terms that are not zero are left. -/
lemma mem_prune_iff {p : Polynomial} {m : Monomial} :
    m ∈ p.prune.terms ↔ m ∈ p.terms ∧ m.coefficient.isZero = false := by
  rw [prune, List.mem_filter, Bool.not_eq_true']

/-- The zero exponents are those of the terms that are zero. -/
lemma mem_zeroExponents_iff {p : Polynomial} {k : Nat} :
    k ∈ p.zeroExponents ↔ ∃ m ∈ p.terms, m.exponent = k ∧ m.coefficient.isZero = true := by
  rw [zeroExponents, List.mem_reverse, List.mem_map]
  constructor
  · rintro ⟨m, hm, hk⟩
    obtain ⟨hm, hzero⟩ := List.mem_filter.mp hm
    exact ⟨m, hm, hk, hzero⟩
  · rintro ⟨m, hm, hk, hzero⟩
    exact ⟨m, List.mem_filter.mpr ⟨hm, hzero⟩, hk⟩

/-- A coefficient that is not zero is stored. -/
lemma mem_terms_of_coefficient {p : Polynomial} {k : Nat}
    (h : (p.coefficient k).isZero = false) :
    ⟨p.coefficient k, k⟩ ∈ p.terms := by
  rw [mem_terms_iff]
  rw [coefficient_eq] at h ⊢
  cases hstored : p.stored? k with
  | none =>
    rw [hstored] at h
    cases h
  | some c => rfl

/-- What `aggregate` stores: the sums that are not zero. -/
theorem mem_aggregate_iff {terms : List Monomial} {m : Monomial} :
    m ∈ (aggregate terms).terms ↔
      coefficientsAt terms m.exponent ≠ [] ∧
        leftSum (coefficientsAt terms m.exponent) = m.coefficient ∧
        m.coefficient.isZero = false := by
  rw [aggregate, mem_prune_iff, mem_ofTerms_iff, and_assoc]

/-- The coefficients of the sum, zeros included. -/
theorem coefficient_aggregate (terms : List Monomial) (k : Nat) :
    (aggregate terms).coefficient k = leftSum (coefficientsAt terms k) := by
  rw [coefficient_eq, aggregate, stored?_prune, stored?_ofTerms]
  split
  · rename_i hnil
    rw [hnil]
    rfl
  · cases hz : (leftSum (coefficientsAt terms k)).isZero with
    | true =>
      rw [leftSum_eq_zero hz]
      rfl
    | false => simp [Option.filter, hz]

end Polynomial

end PowerRule
