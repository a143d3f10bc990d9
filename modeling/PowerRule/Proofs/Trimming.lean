import Mathlib.Data.List.DropRight
import Mathlib.Tactic.Lemma
import PowerRule.Proofs.DecimalText

/-!
# Trimming texts

The superfluous zeros of a decimal can be left out before it is written (`Decimal.trim`) or
afterwards: all the places are written (`Decimal.fullText`), the zeros at the end are dropped and
then the point if nothing is left after it (`trimTrailing`), and a zero loses its sign
(`withoutZeroSign`). `formatNumber_eq_trimmed` says that both ways give the same text, for numbers
of all kinds and with every precision.
-/

namespace PowerRule

attribute [local irreducible] twoTo fiveTo tenTo

/-! ## Digits -/

/-- The last digit of a number is that of its remainder. -/
lemma exists_toDigits (n : Nat) :
    ∃ leading, Nat.toDigits 10 n = leading ++ [Nat.digitChar (n % 10)] := by
  rw [Nat.toDigits_eq_if (by decide)]
  split
  · rename_i hlt
    exact ⟨[], by rw [Nat.mod_eq_of_lt hlt, List.nil_append]⟩
  · exact ⟨_, rfl⟩

/-- A digit is no point. -/
lemma digitChar_mod_ne_point (n : Nat) : Nat.digitChar (n % 10) ≠ '.' :=
  Nat.digitChar_ne '.' (by decide)

/-- There is no point in digits. -/
lemma point_notMem_toDigits (n : Nat) : '.' ∉ Nat.toDigits 10 n := by
  intro hmem
  have hdigit := Digits.toDigits n '.' hmem
  cases hdigit

namespace Decimal

/-- The last digit of the places is that of the number. -/
lemma exists_fractionDigits (places n : Nat) :
    ∃ leading, fractionDigits places n = leading ++ [Nat.digitChar (n % 10)] := by
  obtain ⟨leading, hleading⟩ := exists_toDigits n
  refine ⟨List.replicate (places - (Nat.toDigits 10 n).length) '0' ++ leading, ?_⟩
  rw [fractionDigits, List.leftpad, List.append_assoc, ← hleading]

/-- With one more place comes one more digit at the end. -/
lemma fractionDigits_succ {places : Nat} (hp : 0 < places) (n : Nat) :
    fractionDigits (places + 1) n = fractionDigits places (n / 10) ++ [Nat.digitChar (n % 10)] := by
  unfold fractionDigits List.leftpad
  rw [Nat.toDigits_eq_if (n := n) (by decide)]
  split
  · rename_i hlt
    -- The digits before the only one are zeros: one of them is that of `n / 10`.
    obtain ⟨k, rfl⟩ := Nat.exists_eq_add_one_of_ne_zero (Nat.pos_iff_ne_zero.mp hp)
    rw [Nat.div_eq_of_lt hlt, Nat.mod_eq_of_lt hlt, Nat.toDigits_zero]
    simp [List.replicate_succ']
  · simp

/-- A decimal with all its places. Without places there is no point. -/
def fullText (d : Decimal) : List Char :=
  if d.places = 0 then Nat.toDigits 10 d.coefficient
  else
    Nat.toDigits 10 (d.coefficient / tenTo d.places) ++
      '.' :: fractionDigits d.places (d.coefficient % tenTo d.places)

/-- What is written is the decimal with as few places as possible. -/
lemma text_eq_fullText (d : Decimal) : d.text = (trim d.coefficient d.places).fullText := rfl

/-- There is no point without places. -/
lemma point_notMem_fullText (n : Nat) : '.' ∉ fullText ⟨n, 0⟩ := point_notMem_toDigits n

/-- With places there is one. -/
lemma point_mem_fullText (n places : Nat) : '.' ∈ fullText ⟨n, places + 1⟩ := by
  unfold fullText
  rw [if_neg (Nat.succ_ne_zero places)]
  exact List.mem_append_right _ List.mem_cons_self

/-- With one more place comes one more digit at the end, and the point if it is the first. -/
lemma fullText_succ (n places : Nat) :
    fullText ⟨n, places + 1⟩ =
      fullText ⟨n / 10, places⟩ ++ (if places = 0 then ['.'] else []) ++
        [Nat.digitChar (n % 10)] := by
  unfold fullText
  dsimp only
  rw [if_neg (Nat.succ_ne_zero places)]
  cases places with
  | zero =>
    have hlt : n % 10 < 10 := Nat.mod_lt n (by decide)
    rw [tenTo_succ, tenTo_zero, fractionDigits, Nat.one_mul, Nat.toDigits_of_lt_base hlt]
    simp [List.leftpad]
  | succ places =>
    have hwhole : n / tenTo (places + 1 + 1) = n / 10 / tenTo (places + 1) := by
      rw [tenTo_succ (places + 1), Nat.mul_comm, Nat.div_div_eq_div_mul]
    have hfraction : n % tenTo (places + 1 + 1) / 10 = n / 10 % tenTo (places + 1) := by
      rw [tenTo_succ (places + 1), Nat.mul_comm, Nat.mod_mul_right_div_self]
    have hdigit : n % tenTo (places + 1 + 1) % 10 = n % 10 := by
      rw [tenTo_succ (places + 1), Nat.mod_mod_of_dvd _ (Nat.dvd_mul_left 10 _)]
    rw [if_neg (Nat.succ_ne_zero places), if_neg (Nat.succ_ne_zero places),
      fractionDigits_succ (Nat.succ_pos places), hwhole, hfraction, hdigit]
    simp

/-- The last digit that is written is that of the coefficient. -/
lemma exists_fullText (d : Decimal) :
    ∃ leading, d.fullText = leading ++ [Nat.digitChar (d.coefficient % 10)] := by
  obtain ⟨n, places⟩ := d
  cases places with
  | zero => exact exists_toDigits n
  | succ places => exact ⟨_, fullText_succ n places⟩

/-- A zero in the last place is left out with the place. -/
lemma text_succ (n places : Nat) :
    text ⟨n, places + 1⟩ =
      if n % 10 = 0 then text ⟨n / 10, places⟩ else fullText ⟨n, places + 1⟩ := by
  rw [text_eq_fullText, trim]
  split
  · rfl
  · rfl

end Decimal

/-! ## Trimming -/

/-- Leaves out the zeros at the end of a text with a point, and then the point if it has become the
end. A text without a point is left as it is. -/
def trimTrailing (text : List Char) : List Char :=
  if '.' ∈ text then (text.rdropWhile (· == '0')).rdropWhile (· == '.') else text

/-- Takes the sign from a zero. -/
def withoutZeroSign (text : List Char) : List Char :=
  if text = ['-', '0'] then ['0'] else text

/-- Without a point no zeros are left out. -/
lemma trimTrailing_of_notMem {text : List Char} (h : '.' ∉ text) : trimTrailing text = text :=
  if_neg h

/-- Nothing is left out of a text that ends in another character. -/
lemma trimTrailing_concat {leading : List Char} {c : Char} (hzero : c ≠ '0') (hpoint : c ≠ '.') :
    trimTrailing (leading ++ [c]) = leading ++ [c] := by
  unfold trimTrailing
  split
  · rw [List.rdropWhile_concat_neg _ _ _ (by simp [hzero]),
      List.rdropWhile_concat_neg _ _ _ (by simp [hpoint])]
  · rfl

/-- A zero at the end does not count, after a point. -/
lemma trimTrailing_zero {leading : List Char} (h : '.' ∈ leading) :
    trimTrailing (leading ++ ['0']) = trimTrailing leading := by
  unfold trimTrailing
  rw [if_pos (List.mem_append_left _ h), if_pos h, List.rdropWhile_concat_pos _ _ _ (by rfl)]

/-- If all that is left after the point is a zero, the point goes with it. -/
lemma trimTrailing_point_zero (leading : List Char) {c : Char} (h : c ≠ '.') :
    trimTrailing (leading ++ [c] ++ ['.'] ++ ['0']) = leading ++ [c] := by
  unfold trimTrailing
  rw [if_pos (by simp), List.rdropWhile_concat_pos _ _ _ (by rfl),
    List.rdropWhile_concat_neg _ _ _ (by decide), List.rdropWhile_concat_pos _ _ _ (by rfl),
    List.rdropWhile_concat_neg _ _ _ (by simp [h])]

namespace Decimal

/-- A zero in the last place is trimmed with its place, and the last place of all with the point. -/
lemma trimTrailing_last_zero {lead : List Char} (hlead : '.' ∉ lead) {n : Nat} (hzero : n % 10 = 0)
    (places : Nat) :
    trimTrailing (lead ++ fullText ⟨n, places + 1⟩) =
      trimTrailing (lead ++ fullText ⟨n / 10, places⟩) := by
  rw [fullText_succ, hzero]
  cases places with
  | zero =>
    obtain ⟨leading, hlast⟩ := exists_toDigits (n / 10)
    have hnone : '.' ∉ lead ++ fullText ⟨n / 10, 0⟩ := by
      rw [List.mem_append, not_or]
      exact ⟨hlead, point_notMem_fullText _⟩
    have hfull : lead ++ fullText ⟨n / 10, 0⟩ =
        lead ++ leading ++ [Nat.digitChar (n / 10 % 10)] := by
      rw [List.append_assoc, ← hlast]
      rfl
    have htrim := trimTrailing_point_zero (lead ++ leading) (digitChar_mod_ne_point (n / 10))
    rw [trimTrailing_of_notMem hnone, ← List.append_assoc, ← List.append_assoc, hfull]
    exact htrim
  | succ places =>
    have hpoint : '.' ∈ lead ++ fullText ⟨n / 10, places + 1⟩ :=
      List.mem_append_right _ (point_mem_fullText _ _)
    rw [if_neg (Nat.succ_ne_zero places), List.append_nil, ← List.append_assoc]
    exact trimTrailing_zero hpoint

/-- Trimming the text with all its places gives the text of the decimal, whatever stands before it.
-/
lemma trimTrailing_fullText {lead : List Char} (hlead : '.' ∉ lead) (n places : Nat) :
    trimTrailing (lead ++ fullText ⟨n, places⟩) = lead ++ text ⟨n, places⟩ := by
  -- The places go one by one, as long as the last one holds a zero.
  induction places generalizing n with
  | zero =>
    apply trimTrailing_of_notMem
    rw [List.mem_append, not_or]
    exact ⟨hlead, point_notMem_fullText n⟩
  | succ places ih =>
    rw [text_succ]
    split
    · rename_i hzero
      rw [trimTrailing_last_zero hlead hzero, ih]
    · rename_i hne
      obtain ⟨leading, hlast⟩ := exists_fullText ⟨n, places + 1⟩
      rw [hlast, ← List.append_assoc]
      apply trimTrailing_concat
      · exact fun h => hne (Nat.digitChar_eq_zero.mp h)
      · exact digitChar_mod_ne_point n

/-! ## Rounded magnitudes -/

/-- The magnitude rounded to this many places. -/
def fixed (m : Magnitude) (places : Nat) : Decimal :=
  ⟨roundDiv (m.units * tenTo places) Binary64.one, places⟩

/-- Zeros in further places are left out. -/
lemma trim_mul_tenTo (n places k : Nat) : trim (n * tenTo k) (places + k) = trim n places := by
  induction k with
  | zero => rw [tenTo_zero, Nat.mul_one, Nat.add_zero]
  | succ k ih =>
    have hzero : n * tenTo (k + 1) % 10 = 0 := by
      rw [tenTo_succ, ← Nat.mul_assoc, Nat.mul_mod_left]
    have hdiv : n * tenTo (k + 1) / 10 = n * tenTo k := by
      rw [tenTo_succ, ← Nat.mul_assoc, Nat.mul_div_cancel _ (by decide)]
    rw [← Nat.add_assoc, trim, if_pos hzero, hdiv, ih]

/-- From 1074 places on nothing is rounded away. -/
lemma fixed_add (m : Magnitude) (k : Nat) :
    fixed m (1074 + k) = ⟨finestSteps m * tenTo k, 1074 + k⟩ := by
  have hsteps : m.units * tenTo (1074 + k) = finestSteps m * tenTo k * Binary64.one := by
    rw [finestSteps, tenTo_add, ← fiveTo_mul_twoTo 1074, Binary64.one]
    ac_rfl
  rw [fixed, hsteps, roundDiv_mul Binary64.one_pos]

/-- The places that are left out of the decimal hold zeros. -/
lemma text_rounded (m : Magnitude) (places : Nat) :
    (rounded m places).text = (fixed m places).text := by
  rcases Nat.le_total places 1074 with hle | hge
  · have hmin : min places 1074 = places := Nat.min_eq_left hle
    simp only [rounded, hmin]
    rfl
  · obtain ⟨k, rfl⟩ := Nat.exists_eq_add_of_le hge
    have hrounded : rounded m (1074 + k) = fixed m (1074 + 0) := by
      simp only [rounded, Nat.min_eq_right hge]
      rfl
    rw [hrounded, fixed_add, fixed_add, text_eq_fullText, text_eq_fullText]
    dsimp only
    rw [trim_mul_tenTo, trim_mul_tenTo]

/-- Only zero is written as `0`. -/
lemma text_eq_zero_iff {d : Decimal} : d.text = ['0'] ↔ d.isZero = true := by
  constructor
  · intro h
    have hread := ofNumeral_text d
    have hvalue := trim_value d.coefficient d.places
    rw [h] at hread
    rw [← hread] at hvalue
    have hzero : d.coefficient * tenTo 0 = 0 * tenTo d.places := hvalue.symm
    rw [tenTo_zero, Nat.mul_one, Nat.zero_mul] at hzero
    exact beq_iff_eq.mpr hzero
  · exact text_of_isZero

end Decimal

/-! ## Numbers -/

/-- The number with exactly this many decimal places, a tie going to the even last digit. Infinities
and NaN have no places. -/
def Binary64.fixedText (places : Nat) : Binary64 → List Char
  | finite s m => s.mark ++ (Decimal.fixed m places).fullText
  | x => x.text

/-- The text of a number by way of a longer one: with a precision all places are written, and what
is superfluous is taken away. -/
def trimmedNumber (precision : Option Nat) (x : Binary64) : List Char :=
  withoutZeroSign
    (match precision with
    | none => x.text
    | some places => trimTrailing (x.fixedText places))

/-- There is no point in a sign. -/
lemma point_notMem_mark (s : Sign) : '.' ∉ s.mark := by
  cases s with
  | positive => exact List.not_mem_nil
  | negative => decide

/-- Of decimals with a sign only the negative zero loses it. -/
lemma withoutZeroSign_mark (s : Sign) (d : Decimal) :
    withoutZeroSign (s.mark ++ d.text) = if d.isZero then ['0'] else s.mark ++ d.text := by
  unfold withoutZeroSign
  cases s with
  | positive =>
    have hne : d.text ≠ ['-', '0'] := by
      intro h
      have hminus : '-' ∈ d.text := h ▸ List.mem_cons_self
      rcases (Decimal.numeral_text d).mem hminus with hdigit | hpoint
      · cases hdigit
      · cases hpoint
    rw [Sign.mark, List.nil_append, if_neg hne]
    split
    · rename_i hzero
      exact Decimal.text_of_isZero hzero
    · rfl
  | negative =>
    have hiff : ['-'] ++ d.text = ['-', '0'] ↔ d.isZero = true := by
      rw [← Decimal.text_eq_zero_iff]
      simp
    simp only [Sign.mark, hiff]

/-- A finite number is written with its sign and its decimal. -/
lemma formatNumber_finite (precision : Option Nat) (s : Sign) (m : Magnitude) :
    formatNumber precision (.finite s m) =
      withoutZeroSign (s.mark ++ (Decimal.ofMagnitude precision m).text) :=
  (withoutZeroSign_mark s _).symm

/-- Rounding and trimming a number before it is written gives the text that trimming gives
afterwards, for every number and with every precision. -/
theorem formatNumber_eq_trimmed (precision : Option Nat) (x : Binary64) :
    formatNumber precision x = trimmedNumber precision x := by
  cases x with
  | nan =>
    cases precision with
    | none => rfl
    | some places => rfl
  | infinite s =>
    cases precision with
    | none => cases s <;> rfl
    | some places => cases s <;> rfl
  | finite s m =>
    rw [formatNumber_finite]
    cases precision with
    | none => rfl
    | some places =>
      show withoutZeroSign (s.mark ++ (Decimal.rounded m places).text) = _
      rw [Decimal.text_rounded, Decimal.fixed,
        ← Decimal.trimTrailing_fullText (point_notMem_mark s)]
      rfl

end PowerRule
