import Mathlib.Tactic.Lemma
import PowerRule.Proofs.FractionalExponent
import PowerRule.Proofs.Whole
import PowerRule.Proofs.RecordedSteps
import PowerRule.Proofs.Sum

/-!
# The power rule keeps terms

A coefficient times an exponent is rounded, but nothing is lost by it (`Binary64.Keeps`): the
product has the sign of the coefficient, is at least as far from zero, and is zero only if the
coefficient is; a larger exponent takes it further (`Binary64.AbsLE.mul_ofNat`). So where a sum of
one product is left out, the numeral of its term reads as zero. `powerRule_keeps_terms` puts this
together.
-/

namespace PowerRule

attribute [local irreducible] twoTo tenTo

namespace Binary64

/-- The sign bit. That of NaN is left open. -/
def sign? : Binary64 → Option Sign
  | nan => none
  | infinite s => some s
  | finite s _ => some s

/-- The second number is at least as far from zero as the first. NaN is compared with nothing. -/
inductive AbsLE : Binary64 → Binary64 → Prop where
  | finite {s t : Sign} {a b : Magnitude} :
    a.units ≤ b.units →
    AbsLE (.finite s a) (.finite t b)
  | infinite {x : Binary64} {t : Sign} :
    x ≠ .nan →
    AbsLE x (.infinite t)

/-- The second number is made of the first without a loss: it has its sign bit, is no nearer to
zero, and is zero only if the first is. -/
structure Keeps (x y : Binary64) : Prop where
  ne_nan : y ≠ .nan
  sign_eq : y.sign? = x.sign?
  absLE : AbsLE x y
  isZero_iff : y.isZero = true ↔ x.isZero = true

/-! ## Rounded products -/

/-- A quotient with a sign has that sign. -/
@[simp] lemma sign?_ofRatio (s : Sign) (num den : Nat) : (ofRatio s num den).sign? = some s := by
  unfold ofRatio
  split
  · rfl
  · rfl

/-- What has a sign is a number. -/
lemma ne_nan_of_sign? {x : Binary64} {s : Sign} (h : x.sign? = some s) : x ≠ .nan := by
  rintro rfl
  cases h

/-- A magnitude is rounded to itself. -/
lemma finite_eq_ofRatio (s : Sign) (a : Magnitude) : finite s a = ofRatio s a.units 1 :=
  (ofRatio_of_some (Magnitude.ofRatio?_self a) s).symm

/-- Rounding keeps the order of the distances from zero, also where it goes to infinity. -/
lemma AbsLE.ofRatio {a b c d : Nat} (hb : 0 < b) (hd : 0 < d) (h : a * d ≤ c * b) (s t : Sign) :
    AbsLE (ofRatio s a b) (ofRatio t c d) := by
  have hmono := roundUnits_mono hb hd h
  cases hc : Magnitude.ofRatio? c d with
  | none =>
    rw [ofRatio_of_none hc]
    exact .infinite (ne_nan_of_sign? (sign?_ofRatio s a b))
  | some n =>
    have hn := Magnitude.units_of_ofRatio? hc
    have hbelow : roundUnits a b < bound :=
      Nat.lt_of_le_of_lt (hn ▸ hmono) n.representable.bounded
    obtain ⟨m, hm⟩ := Option.isSome_iff_exists.mp (Magnitude.ofRatio?_isSome hbelow)
    rw [ofRatio_of_some hc, ofRatio_of_some hm]
    apply AbsLE.finite
    rw [Magnitude.units_of_ofRatio? hm, hn]
    exact hmono

/-- A larger factor takes a product further from zero, or leaves it where it is. -/
lemma AbsLE.mul_ofNat (s t : Sign) (a : Magnitude) {m n : Nat} (h : m ≤ n) (hmax : n ≤ maxWhole) :
    AbsLE (Binary64.finite s a * ofNat m) (Binary64.finite t a * ofNat n) := by
  rw [Binary64.mul_ofNat s a (Nat.le_trans h hmax), Binary64.mul_ofNat t a hmax]
  apply AbsLE.ofRatio Nat.one_pos Nat.one_pos
  rw [Nat.mul_one, Nat.mul_one]
  exact Nat.mul_le_mul_left _ h

/-- Nothing is lost when a finite number is multiplied by an exponent. -/
theorem keeps_mul_ofNat (s : Sign) (a : Magnitude) {n : Nat} (hpos : 0 < n) (hmax : n ≤ maxWhole) :
    Keeps (finite s a) (finite s a * ofNat n) := by
  have hsign : (finite s a * ofNat n).sign? = some s := by
    rw [mul_ofNat s a hmax]
    exact sign?_ofRatio s _ 1
  exact {
    ne_nan := ne_nan_of_sign? hsign
    sign_eq := hsign
    absLE := by
      rw [mul_ofNat s a hmax, finite_eq_ofRatio s a]
      apply AbsLE.ofRatio Nat.one_pos Nat.one_pos
      rw [Nat.mul_one, Nat.mul_one]
      exact Nat.le_mul_of_pos_right _ hpos
    isZero_iff := by
      constructor
      · intro hproduct
        rw [← Bool.not_eq_false]
        intro hne
        rw [isZero_mul_ofNat rfl hne hpos hmax] at hproduct
        cases hproduct
      · intro hzero
        obtain ⟨t, ht⟩ := mul_ofNat_of_isZero hzero hmax
        rw [ht]
        rfl
  }

/-- A sum of one number is zero exactly if the number is. -/
lemma isZero_leftSum_singleton (x : Binary64) : (leftSum [x]).isZero = x.isZero := by
  show (zero + x).isZero = x.isZero
  cases hx : x.isZero with
  | true =>
    rw [zero_add_of_isZero hx]
    rfl
  | false => rw [zero_add_of_nonzero rfl hx, hx]

end Binary64

/-! ## Terms -/

/-- The power rule multiplies the signed coefficient by the exponent. -/
lemma Term.derivative?_power (s : Sign) (c : Magnitude) {n : Nat} (hpos : 0 < n) :
    (power s c n).derivative? = some ⟨.finite s c * .ofNat n, n - 1⟩ := by
  obtain ⟨k, rfl⟩ := Nat.exists_eq_add_one_of_ne_zero (Nat.pos_iff_ne_zero.mp hpos)
  rfl

/-- What precedes the variable is a numeral, which is rounded to zero. -/
def ReadsZero (var : Char) (body : List Char) : Prop :=
  ∃ numeral trailing q, body = numeral ++ var :: trailing ∧ var ∉ numeral ∧
    NumeralValue numeral q ∧ RoundsTo q .zero

/-- A coefficient that is not written is one, so zero has to be written. -/
lemma CoefficientValue.eq_zero_iff {text : List Char} {m : Magnitude}
    (h : CoefficientValue text m) :
    m = .zero ↔ ∃ q, NumeralValue text q ∧ RoundsTo q .zero := by
  constructor
  · rintro rfl
    generalize hm : Magnitude.zero = m at h
    cases h with
    | missing => exact absurd (congrArg Magnitude.units hm) (by decide +kernel)
    | written hq hround => exact ⟨_, hq, hm ▸ hround⟩
  · rintro ⟨q, hq, hround⟩
    cases h with
    | missing => exact absurd rfl hq.numeral.ne_nil
    | written hq' hround' =>
      rw [hq'.unique hq] at hround'
      exact hround'.unique hround

/-- A term with the variable has the coefficient zero exactly if its numeral reads as zero. -/
lemma readsZero_iff {var : Char} {raw : RawTerm} {t : Term} (h : readTerm var raw = .ok t)
    (hpos : 0 < t.exponent) :
    ReadsZero var raw.body ↔ t.signedCoefficient.isZero = true := by
  have hreads := readTerm_eq_ok_iff.mp h
  generalize hbody : raw.body = body at hreads
  cases hreads with
  | constant _ _ => exact absurd hpos (Nat.lt_irrefl 0)
  | @power leading trailing m n hnot hm hn =>
    have hcoefficient := (readsLeading_iff.mp hm).eq_zero_iff
    have hzero : (Term.power raw.sign m n).signedCoefficient.isZero = true ↔ m = .zero := by
      constructor
      · intro hz
        exact Magnitude.ext (beq_iff_eq.mp hz)
      · rintro rfl
        rfl
    rw [hzero, hcoefficient]
    constructor
    · rintro ⟨numeral, rest, q, heq, hnumeral, hq⟩
      -- Both texts are what precedes the first occurrence of the variable.
      have hsame : leading = numeral := by
        rw [← takeWhile_ne_var hnot, heq, takeWhile_ne_var hnumeral]
      exact ⟨q, hsame ▸ hq⟩
    · rintro ⟨q, hq⟩
      exact ⟨leading, trailing, q, rfl, hnot, hq⟩

/-- A product is zero only if the coefficient is. -/
lemma Term.isZero_product_iff {t : Term} (hpos : 0 < t.exponent) (hle : t.exponent ≤ maxExponent) :
    t.product.isZero = true ↔ t.signedCoefficient.isZero = true := by
  cases t with
  | constant s m => exact absurd hpos (Nat.lt_irrefl 0)
  | power s c n =>
    have hkeeps := Binary64.keeps_mul_ofNat s c hpos (Nat.le_trans hle maxExponent_le_maxWhole)
    exact hkeeps.isZero_iff

/-- A sum of one product is zero exactly if the numeral of its term reads as zero. -/
lemma readsZero_iff_sumAt {var : Char} {raws : List RawTerm} {terms : List (RawTerm × Term)}
    (h : ReadsAll var raws terms) {k : Nat} {r : RawTerm × Term} (hr : sourcesAt terms k = [r]) :
    ReadsZero var r.1.body ↔ (sumAt terms k).isZero = true := by
  have hmem : r ∈ sourcesAt terms k := hr ▸ List.mem_singleton_self r
  obtain ⟨hterm, hexponent⟩ := List.mem_filter.mp hmem
  have hread := h.2 r hterm
  have hpos : 0 < r.2.exponent := by
    rw [beq_iff_eq.mp hexponent]
    exact Nat.succ_pos k
  have hle := (readTerm_eq_ok_iff.mp hread).exponent_le
  have hsum : (sumAt terms k).isZero = r.2.product.isZero := by
    rw [sumAt, productsAt, hr]
    exact Binary64.isZero_leftSum_singleton _
  rw [readsZero_iff hread hpos, hsum, r.2.isZero_product_iff hpos hle]

/-- The power rule keeps what it is applied to: the derivative of a term with the variable has no
NaN, has the sign of the signed coefficient, which can be any finite number, is at least as far from
zero, and is zero only if the coefficient is; with a larger exponent it is further from zero or as
far. So of an expression whose terms can be read, a sum is left out without being combined exactly
if no product overflows and it has a single source, whose numeral reads as zero. -/
theorem powerRule_keeps_terms :
    (∀ s c n, 0 < n → n ≤ maxExponent →
      ∃ x, (Term.power s c n).derivative? = some ⟨x, n - 1⟩ ∧
        (Term.power s c n).signedCoefficient.Keeps x ∧
        ∀ t more y, n ≤ more → more ≤ maxExponent →
          (Term.power t c more).derivative? = some y → x.AbsLE y.coefficient) ∧
    ∀ var expression terms, ReadsAll var (splitTerms expression) terms → ∀ k,
      (.dropZero k ∈ (derive var expression).steps ∧
        ∀ count, .combineLikeTerms k count ∉ (derive var expression).steps) ↔
      (∀ r ∈ terms, ¬r.2.Overflows) ∧
        ∃ r, sourcesAt terms k = [r] ∧ ReadsZero var r.1.body := by
  constructor
  · intro s c n hpos hle
    have hmax := Nat.le_trans hle maxExponent_le_maxWhole
    refine ⟨_, Term.derivative?_power s c hpos, Binary64.keeps_mul_ofNat s c hpos hmax, ?_⟩
    intro t more y hmore hle' hy
    rw [Term.derivative?_power t c (Nat.lt_of_lt_of_le hpos hmore)] at hy
    cases hy
    exact .mul_ofNat s t c hmore (Nat.le_trans hle' maxExponent_le_maxWhole)
  · intro var expression terms h k
    rw [dropZero_mem_steps_iff h]
    constructor
    · rintro ⟨⟨hfinite, hne, hzero⟩, hcombine⟩
      refine ⟨hfinite, ?_⟩
      -- Two sources or more would be combined.
      have hlength : (sourcesAt terms k).length = 1 := by
        have hpos := List.length_pos_iff.mpr hne
        by_contra hmore
        refine hcombine _ ((combineLikeTerms_mem_steps_iff h).mpr ⟨hfinite, ?_, rfl⟩)
        omega
      obtain ⟨r, hr⟩ := List.length_eq_one_iff.mp hlength
      exact ⟨r, hr, (readsZero_iff_sumAt h hr).mpr hzero⟩
    · rintro ⟨hfinite, r, hr, hzero⟩
      refine ⟨⟨hfinite, ?_, (readsZero_iff_sumAt h hr).mp hzero⟩, ?_⟩
      · rw [hr]
        exact List.cons_ne_nil r []
      · intro count hcombine
        obtain ⟨_, hle, hlength⟩ := (combineLikeTerms_mem_steps_iff h).mp hcombine
        rw [hr, List.length_singleton] at hlength
        omega

/-- The terms of `0x^3-x^2+x^2-1`. -/
def zeroAmongCancelling : List (RawTerm × Term) :=
  [(⟨0, "0x^3".toList⟩, .power .positive .zero 3),
    (⟨4, "-x^2".toList⟩, .power .negative .one 2),
    (⟨8, "+x^2".toList⟩, .power .positive .one 2),
    (⟨12, "-1".toList⟩, .constant .negative .one)]

/-- The first term reads as zero; the sum that cancels is combined as well. -/
theorem powerRule_keeps_terms_zero :
    (∃ x, (Term.power .negative .one 3).derivative? = some ⟨x, 2⟩ ∧
      (Term.power .negative .one 3).signedCoefficient.Keeps x) ∧
    ReadsAll 'x' (splitTerms "0x^3-x^2+x^2-1".toList) zeroAmongCancelling ∧
    .dropZero 2 ∈ (derive 'x' "0x^3-x^2+x^2-1".toList).steps ∧
    (∀ count, .combineLikeTerms 2 count ∉ (derive 'x' "0x^3-x^2+x^2-1".toList).steps) ∧
    .dropZero 1 ∈ (derive 'x' "0x^3-x^2+x^2-1".toList).steps ∧
    ∃ count, .combineLikeTerms 1 count ∈ (derive 'x' "0x^3-x^2+x^2-1".toList).steps := by
  obtain ⟨hkeeps, hsteps⟩ := powerRule_keeps_terms
  obtain ⟨x, hx, hkeep, _⟩ := hkeeps .negative .one 3 (by decide) (by decide)
  have hreads : ReadsAll 'x' (splitTerms "0x^3-x^2+x^2-1".toList) zeroAmongCancelling := by
    decide +kernel
  have hzero : ReadsZero 'x' "0x^3".toList := by
    obtain ⟨q, hq⟩ :=
      coefficient?_eq_some_iff_value.mp (show coefficient? ['0'] = some .zero by decide +kernel)
    exact ⟨['0'], "^3".toList, q, rfl, by decide, hq⟩
  have hfinite : ∀ r ∈ zeroAmongCancelling, ¬r.2.Overflows := by decide +kernel
  have hsource : sourcesAt zeroAmongCancelling 2 =
      [(⟨0, "0x^3".toList⟩, .power .positive .zero 3)] := rfl
  obtain ⟨hdrop, hcombine⟩ := (hsteps 'x' _ _ hreads 2).mpr ⟨hfinite, _, hsource, hzero⟩
  refine ⟨⟨x, hx, hkeep⟩, hreads, hdrop, hcombine, by decide +kernel, 2, by decide +kernel⟩

end PowerRule
