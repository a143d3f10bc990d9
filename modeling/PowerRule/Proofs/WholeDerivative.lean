import Mathlib.Algebra.Order.BigOperators.Group.List
import Mathlib.Algebra.Order.Ring.Nat
import Mathlib.Algebra.Ring.Int.Defs
import Mathlib.Data.List.Forall2
import Mathlib.Data.List.Sort
import Mathlib.Tactic.Lemma
import PowerRule.Proofs.Derivative
import PowerRule.Proofs.Joining
import PowerRule.Proofs.Whole

/-!
# Exact derivatives

If the coefficients are whole numbers and all products together stay in range (`WholeTerms`), then
nothing is rounded: the derivative is the formal derivative over the integers, whose coefficients
are `wholeSum`, and it is written with exactly these integers (`wholeText`). So it does not depend
on the order of the terms. `differentiate_whole` puts this together.
-/

namespace PowerRule

attribute [local irreducible] twoTo fiveTo tenTo

namespace Decimal

/-- The decimal is a whole number. -/
def IsWhole (d : Decimal) : Prop := tenTo d.places ∣ d.coefficient

/-- Whether a decimal is whole can be decided. -/
instance (d : Decimal) : Decidable d.IsWhole := inferInstanceAs (Decidable (_ ∣ _))

/-- The whole part. -/
def floor (d : Decimal) : Nat := d.coefficient / tenTo d.places

/-- A whole decimal denotes its whole part. -/
lemma IsWhole.denotes {d : Decimal} (h : d.IsWhole) : d.Denotes d.floor :=
  (Nat.div_mul_cancel h).symm

end Decimal

/-- The exact coefficient of a term with the variable: what is written before it, or else one. -/
def writtenCoefficient (var : Char) (body : List Char) : Decimal :=
  let text := body.takeWhile (· != var)
  if text = [] then ⟨1, 0⟩ else .ofNumeral text

/-- The whole coefficient times the exponent, without the sign. -/
def weight (var : Char) (body : List Char) (t : Term) : Nat :=
  (writtenCoefficient var body).floor * t.exponent

/-- The whole coefficient times the exponent. -/
def signedWeight (var : Char) (sign : Sign) (body : List Char) (t : Term) : Int :=
  sign.factor * weight var body t

/-- The terms that the derivative depends on have whole coefficients, with products that stay in
range together. -/
structure WholeTerms (var : Char) (terms : List (RawTerm × Term)) : Prop where
  whole : ∀ r ∈ terms, 0 < r.2.exponent → (writtenCoefficient var r.1.body).IsWhole
  bounded : (terms.map fun r => weight var r.1.body r.2).sum ≤ maxWhole

/-- The coefficient of an exponent in the formal derivative over the integers. -/
def wholeSum (var : Char) (terms : List (RawTerm × Term)) (k : Nat) : Int :=
  ((sourcesAt terms k).map fun r => signedWeight var r.1.sign r.1.body r.2).sum

/-! ## Products -/

/-- The coefficient that is read is the written one. -/
lemma ReadsLeading.eq_whole {var : Char} {leading trailing : List Char} (hvar : var ∉ leading)
    {m : Magnitude} (hm : ReadsLeading leading m) {n : Nat} (hn : n ≤ maxWhole)
    (hdenotes : (writtenCoefficient var (leading ++ var :: trailing)).Denotes n) :
    m = .whole n hn := by
  rw [writtenCoefficient, takeWhile_ne_var hvar] at hdenotes
  cases hm with
  | missing =>
    have hone : 1 = n * tenTo 0 := hdenotes
    rw [tenTo_zero, Nat.mul_one] at hone
    subst hone
    exact Magnitude.one_eq_whole
  | written hc =>
    obtain ⟨hnumeral, hnearest⟩ := coefficient?_eq_some_iff.mp hc
    have hdenotes : (Decimal.ofNumeral leading).Denotes n := by
      simpa [hnumeral.ne_nil] using hdenotes
    rw [hdenotes.nearest?_eq hn] at hnearest
    exact (Option.some.inj hnearest).symm

/-- The product of a term with a whole coefficient is exact. -/
lemma Reads.product_whole {var : Char} {sign : Sign} {body : List Char} {t : Term}
    (h : Reads var sign body t) (hpos : 0 < t.exponent)
    (hwhole : (writtenCoefficient var body).IsWhole) (hbound : weight var body t ≤ maxWhole) :
    t.product.toInt? = some (signedWeight var sign body t) := by
  cases h with
  | constant _ _ => cases hpos
  | @power leading trailing m n hvar hm hn =>
    unfold weight at hbound
    have hfloor : (writtenCoefficient var (leading ++ var :: trailing)).floor ≤ maxWhole :=
      Nat.le_trans (Nat.le_mul_of_pos_right _ hpos) hbound
    have hexponent : n ≤ maxWhole := Nat.le_trans hn.le_maxExponent maxExponent_le_maxWhole
    rw [hm.eq_whole hvar hfloor hwhole.denotes]
    exact Binary64.mul_whole sign hfloor hexponent hbound

section

variable {var : Char} {expression : List Char} {terms : List (RawTerm × Term)}

/-- The product of a whole term is its weight with its sign. -/
lemma WholeTerms.product (hw : WholeTerms var terms)
    (h : ReadsAll var (splitTerms expression) terms) {r : RawTerm × Term} (hr : r ∈ terms)
    (hpos : 0 < r.2.exponent) :
    r.2.product.toInt? = some (signedWeight var r.1.sign r.1.body r.2) := by
  have hreads := readTerm_eq_ok_iff.mp (h.2 r hr)
  have hle : weight var r.1.body r.2 ≤ (terms.map fun r => weight var r.1.body r.2).sum :=
    List.single_le_sum (by simp) _ (List.mem_map_of_mem hr)
  exact hreads.product_whole hpos (hw.whole r hr hpos) (Nat.le_trans hle hw.bounded)

/-! ## Sums -/

/-- Whole numbers are summed exactly while their magnitudes together stay in range. -/
lemma foldl_add_whole {xs : List Binary64} {zs : List Int}
    (h : List.Forall₂ (fun x z => x.toInt? = some z) xs zs) {x : Binary64} {z : Int}
    (hx : x.toInt? = some z) (hbound : z.natAbs + (zs.map Int.natAbs).sum ≤ maxWhole) :
    (xs.foldl (· + ·) x).toInt? = some (z + zs.sum) := by
  -- The bound on the summands still ahead and the sum so far is what each step preserves.
  induction h generalizing x z with
  | nil => simpa using hx
  | @cons y w ys ws hy _ ih =>
    rw [List.map_cons, List.sum_cons] at hbound
    have hle := Int.natAbs_add_le z w
    have hstep := Binary64.add_whole hx hy (by omega)
    rw [List.foldl_cons, List.sum_cons, ← Int.add_assoc]
    exact ih hstep (by omega)

/-- A weight with a sign is as large as the weight. -/
lemma natAbs_signedWeight (sign : Sign) (body : List Char) (t : Term) :
    (signedWeight var sign body t).natAbs = weight var body t :=
  sign.natAbs_factor_mul _

/-- The products of an exponent stay in range together. -/
lemma WholeTerms.sources_le (hw : WholeTerms var terms) (k : Nat) :
    ((sourcesAt terms k).map fun r => weight var r.1.body r.2).sum ≤ maxWhole := by
  have hsublist : ((sourcesAt terms k).map fun r => weight var r.1.body r.2).Sublist
      (terms.map fun r => weight var r.1.body r.2) := List.filter_sublist.map _
  exact Nat.le_trans (hsublist.sum_le_sum (by simp)) hw.bounded

/-- A sum is no larger than the sum of the sizes. -/
lemma natAbs_sum_le (zs : List Int) : zs.sum.natAbs ≤ (zs.map Int.natAbs).sum := by
  induction zs with
  | nil => exact Nat.le_refl 0
  | cons z zs ih =>
    rw [List.sum_cons, List.map_cons, List.sum_cons]
    exact Nat.le_trans (Int.natAbs_add_le z zs.sum) (Nat.add_le_add_left ih _)

/-- The sum of whole terms can be written without rounding. -/
lemma WholeTerms.natAbs_wholeSum (hw : WholeTerms var terms) (k : Nat) :
    (wholeSum var terms k).natAbs ≤ maxWhole := by
  have hle := natAbs_sum_le
    ((sourcesAt terms k).map fun r => signedWeight var r.1.sign r.1.body r.2)
  rw [List.map_map] at hle
  simp only [Function.comp_def, natAbs_signedWeight] at hle
  exact Nat.le_trans hle (hw.sources_le k)

/-- Each sum of products is the exact one. -/
lemma WholeTerms.sumAt (hw : WholeTerms var terms) (h : ReadsAll var (splitTerms expression) terms)
    (k : Nat) :
    (sumAt terms k).toInt? = some (wholeSum var terms k) := by
  have hall : List.Forall₂ (fun x z => x.toInt? = some z) (productsAt terms k)
      ((sourcesAt terms k).map fun r => signedWeight var r.1.sign r.1.body r.2) := by
    rw [productsAt, List.forall₂_map_left_iff, List.forall₂_map_right_iff, List.forall₂_same]
    intro r hr
    obtain ⟨hmem, hexponent⟩ := List.mem_filter.mp hr
    have hexponent : r.2.exponent = k + 1 := beq_iff_eq.mp hexponent
    exact hw.product h hmem (by omega)
  have hzero : Binary64.zero.toInt? = some 0 :=
    Binary64.toInt?_eq_some_iff.mpr ⟨.positive, .zero, rfl, 0, (Nat.zero_mul _).symm, rfl⟩
  have hbound := hw.sources_le k
  have hsum := foldl_add_whole hall hzero (by
    simpa [Function.comp_def, natAbs_signedWeight] using hbound)
  rw [Int.zero_add] at hsum
  exact hsum

/-- The derivative exists, and nothing in it is rounded. -/
lemma WholeTerms.derivative (hw : WholeTerms var terms)
    (h : ReadsAll var (splitTerms expression) terms) :
    derivative var expression = .ok (formalSum terms) := by
  apply (derivative_eq_ok_iff h).mpr
  refine ⟨?_, ?_, rfl⟩
  · rintro r hr ⟨hpos, hover⟩
    rw [Binary64.isFinite_of_toInt? (hw.product h hr hpos)] at hover
    cases hover
  · intro k
    exact Binary64.isFinite_of_toInt? (hw.sumAt h k)

/-- An exponent is stored if its exact sum is not zero. -/
lemma WholeTerms.mem_exponents_iff (hw : WholeTerms var terms)
    (h : ReadsAll var (splitTerms expression) terms) (k : Nat) :
    k ∈ (formalSum terms).terms.map Monomial.exponent ↔ wholeSum var terms k ≠ 0 := by
  have hzero := Binary64.isZero_of_toInt? (hw.sumAt h k)
  constructor
  · intro hmem
    obtain ⟨m, hm, rfl⟩ := List.mem_map.mp hmem
    obtain ⟨_, hsum, hnz⟩ := mem_formalSum_iff.mp hm
    rw [← hsum] at hnz
    rw [Ne, ← hzero, hnz]
    decide
  · intro hne
    refine List.mem_map.mpr ⟨⟨PowerRule.sumAt terms k, k⟩, mem_formalSum_iff.mpr ⟨?_, rfl, ?_⟩, rfl⟩
    · intro hnil
      have hsources : sourcesAt terms k = [] := List.map_eq_nil_iff.mp hnil
      rw [wholeSum, hsources] at hne
      exact hne rfl
    · rw [← Bool.not_eq_true, hzero]
      exact hne

end

/-! ## Text -/

/-- A whole multiple of a power of the variable in plain decimal, without the sign. -/
def wholePower (var : Char) (n k : Nat) : List Char :=
  if k = 0 then Nat.toDigits 10 n
  else
    (if n = 1 then [] else Nat.toDigits 10 n) ++
      var :: (if k = 1 then [] else '^' :: Nat.toDigits 10 k)

/-- A polynomial with whole coefficients in plain decimal, from its exponents in order. -/
def wholeText (var : Char) (coefficient : Nat → Int) (first : Bool) : List Nat → List Char
  | [] => []
  | k :: rest =>
    (if coefficient k < 0 then ['-'] else if first then [] else ['+']) ++
      wholePower var (coefficient k).natAbs k ++ wholeText var coefficient false rest

/-- Numbers with the same digits are the same. -/
lemma toDigits_injective {m n : Nat} (h : Nat.toDigits 10 m = Nat.toDigits 10 n) : m = n := by
  have hvalue := congrArg (Nat.ofDigitChars 10 · 0) h
  simpa [Nat.ofDigitChars_ten_toDigits] using hvalue

/-- A whole coefficient with its power is written as such. -/
lemma unsignedText_toDigits (var : Char) (n k : Nat) :
    Monomial.unsignedText .canonical var (Nat.toDigits 10 n) k = wholePower var n k := by
  have hone : Nat.toDigits 10 n = ['1'] ↔ n = 1 := by
    constructor
    · intro h
      exact toDigits_injective (n := 1) h
    · rintro rfl
      rfl
  simp only [Monomial.unsignedText, wholePower, hone]
  rfl

/-- Terms with whole coefficients are written in plain decimal. -/
lemma formatTerms_whole {coefficient : Nat → Int} {ms : List Monomial}
    (hwhole : ∀ m ∈ ms, m.coefficient.toInt? = some (coefficient m.exponent))
    (hne : ∀ m ∈ ms, coefficient m.exponent ≠ 0)
    (hle : ∀ m ∈ ms, (coefficient m.exponent).natAbs ≤ maxWhole) (var : Char) (first : Bool) :
    Polynomial.formatTerms .canonical var first ms =
      wholeText var coefficient first (ms.map Monomial.exponent) := by
  induction ms generalizing first with
  | nil => rfl
  | cons m rest ih =>
    have hm := hwhole m List.mem_cons_self
    have hnz := hne m List.mem_cons_self
    have hmagnitude : m.magnitudeText .canonical =
        Nat.toDigits 10 (coefficient m.exponent).natAbs :=
      Binary64.formatNumber_abs_whole hm hnz (hle m List.mem_cons_self)
    have hkept : (m.coefficient.isZero ||
        Nat.toDigits 10 (coefficient m.exponent).natAbs == ['0']) = false := by
      rw [Bool.or_eq_false_iff]
      constructor
      · rw [← Bool.not_eq_true, Binary64.isZero_of_toInt? hm]
        exact hnz
      · rw [beq_eq_false_iff_ne]
        intro hzero
        have hnat : (coefficient m.exponent).natAbs = 0 := toDigits_injective (n := 0) hzero
        exact hnz (Int.natAbs_eq_zero.mp hnat)
    rw [Polynomial.formatTerms, List.map_cons, wholeText]
    simp only [hmagnitude, hkept, Bool.false_eq_true, if_false, unsignedText_toDigits,
      Binary64.isNegative_of_toInt? hm]
    rw [ih (fun m hm => hwhole m (List.mem_cons_of_mem _ hm))
      (fun m hm => hne m (List.mem_cons_of_mem _ hm))
      (fun m hm => hle m (List.mem_cons_of_mem _ hm))]

section

variable {var : Char} {expression : List Char} {terms : List (RawTerm × Term)}

/-- The derivative is written with the exact sums. -/
lemma WholeTerms.differentiate (hw : WholeTerms var terms)
    (h : ReadsAll var (splitTerms expression) terms) {ks : List Nat}
    (hdescending : ks.Pairwise (· > ·)) (hks : ∀ k, k ∈ ks ↔ wholeSum var terms k ≠ 0) :
    differentiate var expression = .ok (wholeText var (wholeSum var terms) true ks) := by
  have hstored : ∀ m ∈ (formalSum terms).terms,
      m.coefficient.toInt? = some (wholeSum var terms m.exponent) := by
    intro m hm
    obtain ⟨_, hsum, _⟩ := mem_formalSum_iff.mp hm
    rw [← hsum]
    exact hw.sumAt h m.exponent
  have hexponents : (formalSum terms).terms.map Monomial.exponent = ks := by
    apply (formalSum terms).exponents_descending.eq_of_mem_iff hdescending
    intro k
    rw [hks, hw.mem_exponents_iff h]
  have htext : (formalSum terms).format .canonical var =
      wholeText var (wholeSum var terms) true ks := by
    rw [← hexponents]
    apply formatTerms_whole hstored
    · intro m hm
      exact (hw.mem_exponents_iff h m.exponent).mp (List.mem_map_of_mem hm)
    · intro m _
      exact hw.natAbs_wholeSum m.exponent
  rw [PowerRule.differentiate, differentiateWith, hw.derivative h, ← htext]
  rfl

/-! ## Order -/

/-- The weights of terms depend on what is read only. -/
lemma weights_eq_view (terms : List (RawTerm × Term)) :
    (terms.map fun r => weight var r.1.body r.2) =
      (terms.map readView).map fun v => weight var v.2.1 v.2.2 := by
  rw [List.map_map]
  rfl

/-- So do their sums. -/
lemma wholeSum_eq_view (terms : List (RawTerm × Term)) (k : Nat) :
    wholeSum var terms k =
      (((terms.map readView).filter (·.2.2.exponent == k + 1)).map fun v =>
        signedWeight var v.1 v.2.1 v.2.2).sum := by
  rw [wholeSum, sourcesAt, List.filter_map, List.map_map]
  rfl

/-- The order of whole terms does not matter for their sums. -/
lemma wholeSum_of_perm {terms' : List (RawTerm × Term)}
    (hperm : (terms'.map readView).Perm (terms.map readView)) (k : Nat) :
    wholeSum var terms' k = wholeSum var terms k := by
  rw [wholeSum_eq_view, wholeSum_eq_view]
  exact ((hperm.filter _).map _).sum_eq

/-- Nor does it for whether they are whole. -/
lemma WholeTerms.of_perm (hw : WholeTerms var terms) {terms' : List (RawTerm × Term)}
    (hperm : (terms'.map readView).Perm (terms.map readView)) :
    WholeTerms var terms' where
  whole := by
    intro r' hr' hpos
    obtain ⟨r, hr, heq⟩ := List.mem_map.mp (hperm.mem_iff.mp (List.mem_map_of_mem hr'))
    have hbody : r.1.body = r'.1.body := congrArg (·.2.1) heq
    have hterm : r.2 = r'.2 := congrArg (·.2.2) heq
    rw [← hterm] at hpos
    rw [← hbody]
    exact hw.whole r hr hpos
  bounded := by
    have hbounded := hw.bounded
    rw [weights_eq_view] at hbounded ⊢
    rw [(hperm.map _).sum_eq]
    exact hbounded

/-- The order of the terms does not matter. -/
lemma WholeTerms.differentiate_of_perm (hw : WholeTerms var terms)
    (h : ReadsAll var (splitTerms expression) terms) {expression' : List Char}
    (hperm : (signedTexts expression').Perm (signedTexts expression)) :
    PowerRule.differentiate var expression' = PowerRule.differentiate var expression := by
  obtain ⟨terms', h', hview⟩ := h.of_perm hperm
  have hw' := hw.of_perm hview
  have hsums : wholeSum var terms' = wholeSum var terms := funext (wholeSum_of_perm hview)
  have hks := hw.mem_exponents_iff h
  have hdescending := (formalSum terms).exponents_descending
  rw [hw.differentiate h hdescending fun k => hks k,
    hw'.differentiate h' hdescending fun k => by rw [hks k, hsums], hsums]

end

/-- Exact calculus on whole numbers. The derivative of an expression with whole coefficients, whose
products stay in range together, is the formal derivative over the integers; it is written in plain
decimal, and the order of the signed terms does not matter. -/
theorem differentiate_whole {var : Char} (hvar : var.isAlpha = true) {expression : List Char}
    {terms : List (RawTerm × Term)} (h : ReadsAll var (splitTerms expression) terms)
    (hw : WholeTerms var terms) :
    (∃ p, derivative var expression = .ok p ∧
      (∀ k, (p.coefficient k).toInt? = some (wholeSum var terms k)) ∧
      ∀ k, (∃ m ∈ p.terms, m.exponent = k) ↔ wholeSum var terms k ≠ 0) ∧
    (∃ ks, ks.Pairwise (· > ·) ∧ (∀ k, k ∈ ks ↔ wholeSum var terms k ≠ 0) ∧
      differentiate var expression = .ok (wholeText var (wholeSum var terms) true ks)) ∧
    (∀ expression', (signedTexts expression').Perm (signedTexts expression) →
      differentiate var expression' = differentiate var expression) ∧
    ∀ texts : List (List Char), texts.Perm (signedTexts expression) →
      differentiate var texts.flatten = differentiate var expression := by
  have hks := hw.mem_exponents_iff h
  have hdescending := (formalSum terms).exponents_descending
  refine ⟨⟨formalSum terms, hw.derivative h, ?_, ?_⟩, ⟨_, hdescending, hks, ?_⟩, ?_, ?_⟩
  · intro k
    rw [coefficient_formalSum]
    exact hw.sumAt h k
  · intro k
    rw [← hks k, List.mem_map]
  · exact hw.differentiate h hdescending hks
  · intro expression' hperm
    exact hw.differentiate_of_perm h hperm
  · intro texts hperm
    apply hw.differentiate_of_perm h
    rw [signedTexts_flatten (.of_isAlpha hvar) h hperm]
    exact hperm

/-- An expression with whole coefficients, but for a constant. -/
def cubic : List Char := "3.000x^3-2x-.5+x".toList

/-- A cubic polynomial, in two orders. -/
theorem differentiate_whole_cubic :
    'x'.isAlpha = true ∧
    ReadsAll 'x' (splitTerms cubic) (termsOf 'x' cubic) ∧ WholeTerms 'x' (termsOf 'x' cubic) ∧
    (∃ p, derivative 'x' cubic = .ok p ∧
      (p.coefficient 2).toInt? = some 9 ∧ (p.coefficient 0).toInt? = some (-1)) ∧
    differentiate 'x' "x-.5+3.000x^3-2x".toList = differentiate 'x' cubic := by
  have h : ReadsAll 'x' (splitTerms cubic) (termsOf 'x' cubic) := by decide +kernel
  have hw : WholeTerms 'x' (termsOf 'x' cubic) :=
    ⟨by decide +kernel, by decide +kernel⟩
  have hsums : wholeSum 'x' (termsOf 'x' cubic) 2 = 9 ∧
      wholeSum 'x' (termsOf 'x' cubic) 0 = -1 := by
    decide +kernel
  have hperm : (signedTexts "x-.5+3.000x^3-2x".toList).Perm (signedTexts cubic) := by
    decide +kernel
  obtain ⟨⟨p, hp, hcoefficient, _⟩, _, hreorder, _⟩ := differentiate_whole rfl h hw
  refine ⟨rfl, h, hw, ⟨p, hp, ?_, ?_⟩, hreorder _ hperm⟩
  · rw [hcoefficient, hsums.1]
  · rw [hcoefficient, hsums.2]

end PowerRule
