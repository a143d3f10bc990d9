import Mathlib.Data.List.Permutation
import Mathlib.Tactic.Lemma
import PowerRule.Proofs.KeyedSum

/-!
# Sums in another order and of opposite numbers

Rounded addition commutes (`Binary64.add_comm`) but does not associate: a sum of two numbers does
not depend on their order (`leftSum_eq_of_perm`), a sum of three may. The sum of the opposite
numbers is the opposite sum, but for a sum that cancels: it is the positive zero both times
(`opposite_leftSum`).
-/

namespace PowerRule

attribute [local irreducible] twoTo tenTo

namespace Sign

/-- Signs with the same opposite are the same. -/
lemma flip_injective {s t : Sign} (h : s.flip = t.flip) : s = t := by
  rw [← s.flip_flip, h, t.flip_flip]

/-- The opposite sign of a product. -/
lemma flip_times (s t : Sign) : s.flip.times t = (s.times t).flip := by
  cases s with
  | positive => rfl
  | negative => exact t.flip_flip.symm

end Sign

namespace Binary64

/-! ## Order -/

/-- The order of two finite numbers in a sum does not matter. -/
lemma addFinite_comm (s t : Sign) (a b : Magnitude) : addFinite s a t b = addFinite t b s a := by
  unfold addFinite
  by_cases hst : s = t
  · rw [if_pos hst, if_pos hst.symm, hst, Nat.add_comm]
  · rw [if_neg hst, if_neg (Ne.symm hst)]
    rcases Nat.lt_trichotomy a.units b.units with hlt | heq | hlt
    · rw [if_neg (Nat.ne_of_lt hlt), if_neg (Nat.ne_of_gt hlt), if_neg (Nat.not_lt_of_lt hlt),
        if_pos hlt]
    · rw [if_pos heq, if_pos heq.symm]
    · rw [if_neg (Nat.ne_of_gt hlt), if_neg (Nat.ne_of_lt hlt), if_pos hlt,
        if_neg (Nat.not_lt_of_lt hlt)]

/-- The order of two numbers in a sum does not matter. -/
protected lemma add_comm (x y : Binary64) : x + y = y + x := by
  cases x with
  | nan => cases y <;> rfl
  | infinite s =>
    cases y with
    | nan => rfl
    | infinite t => cases s <;> cases t <;> rfl
    | finite t b => rfl
  | finite s a =>
    cases y with
    | nan => rfl
    | infinite t => rfl
    | finite t b => exact addFinite_comm s t a b

/-- A sum that starts from zero does not keep the sign of a zero. -/
lemma zero_add_of_isZero {x : Binary64} (h : x.isZero = true) : zero + x = zero := by
  cases x with
  | nan => cases h
  | infinite s => cases h
  | finite s a =>
    have hunits : a.units = 0 := beq_iff_eq.mp h
    show addFinite .positive .zero s a = zero
    cases s with
    | positive =>
      rw [addFinite, if_pos rfl, hunits]
      exact ofRatio_of_some (Magnitude.ofRatio?_self .zero) .positive
    | negative => exact if_pos hunits.symm

/-! ## Opposite numbers -/

/-- A negated number is finite exactly if the number is. -/
lemma isFinite_neg (x : Binary64) : (-x).isFinite = x.isFinite := by cases x <;> rfl

/-- It is zero exactly if the number is. -/
lemma isZero_neg (x : Binary64) : (-x).isZero = x.isZero := by cases x <;> rfl

/-- A number that is negated twice is the same. -/
protected lemma neg_neg (x : Binary64) : - -x = x := by
  cases x with
  | nan => rfl
  | infinite s => exact congrArg infinite s.flip_flip
  | finite s a => exact congrArg (finite · a) s.flip_flip

/-- A negated quotient has the other sign. -/
lemma neg_ofRatio (s : Sign) (num den : Nat) : -ofRatio s num den = ofRatio s.flip num den := by
  unfold ofRatio
  cases Magnitude.ofRatio? num den with
  | none => rfl
  | some m => rfl

/-- A product with a negated number is negated. -/
lemma neg_mul (x y : Binary64) : -x * y = -(x * y) := by
  cases x with
  | nan => rfl
  | infinite s =>
    cases y with
    | nan => rfl
    | infinite t => exact congrArg infinite (s.flip_times t)
    | finite t b =>
      show (if b.units = 0 then nan else infinite (s.flip.times t)) =
        -(if b.units = 0 then nan else infinite (s.times t))
      rw [s.flip_times]
      split
      · rfl
      · rfl
  | finite s a =>
    cases y with
    | nan => rfl
    | infinite t =>
      show (if a.units = 0 then nan else infinite (s.flip.times t)) =
        -(if a.units = 0 then nan else infinite (s.times t))
      rw [s.flip_times]
      split
      · rfl
      · rfl
    | finite t b =>
      show ofRatio (s.flip.times t) _ _ = -ofRatio (s.times t) _ _
      rw [s.flip_times, neg_ofRatio]

/-- The second number is the first with its sign flipped, but for the positive zero, which stands
against itself. -/
def Opposite (x y : Binary64) : Prop := y = -x ∨ x = zero ∧ y = zero

namespace Opposite

/-- Opposite numbers are both finite or both not. -/
lemma isFinite_eq {x y : Binary64} (h : Opposite x y) : y.isFinite = x.isFinite := by
  rcases h with rfl | ⟨rfl, rfl⟩
  · exact isFinite_neg x
  · rfl

/-- Apart from zeros, opposite numbers differ in the sign. -/
lemma eq_iff {x y c : Binary64} (h : Opposite x y) (hc : c.isZero = false) :
    y = c ↔ x = -c := by
  rcases h with rfl | ⟨rfl, rfl⟩
  · constructor
    · rintro rfl
      exact x.neg_neg.symm
    · rintro rfl
      exact c.neg_neg
  · constructor
    · rintro rfl
      cases hc
    · intro hzero
      rw [← isZero_neg, ← hzero] at hc
      cases hc

/-- Sums of finite numbers with the other signs are opposite. -/
lemma addFinite (s t : Sign) (a b : Magnitude) :
    Opposite (addFinite s a t b) (addFinite s.flip a t.flip b) := by
  unfold Binary64.addFinite
  by_cases hst : s = t
  · rw [if_pos hst, if_pos (congrArg Sign.flip hst)]
    exact .inl (neg_ofRatio s _ 1).symm
  · rw [if_neg hst, if_neg fun h => hst (Sign.flip_injective h)]
    split
    · exact .inr ⟨rfl, rfl⟩
    · split
      · exact .inl (neg_ofRatio s _ 1).symm
      · exact .inl (neg_ofRatio t _ 1).symm

/-- The sum of negated numbers is opposite to the sum. -/
lemma neg_add_neg (x z : Binary64) : Opposite (x + z) (-x + -z) := by
  cases x with
  | nan => exact .inl rfl
  | infinite s =>
    cases z with
    | nan => exact .inl rfl
    | infinite t => cases s <;> cases t <;> exact .inl rfl
    | finite t b => exact .inl rfl
  | finite s a =>
    cases z with
    | nan => exact .inl rfl
    | infinite t => exact .inl rfl
    | finite t b => exact .addFinite s t a b

/-- Opposite sums stay opposite when opposite numbers are added. -/
lemma add {x y : Binary64} (h : Opposite x y) (z : Binary64) : Opposite (x + z) (y + -z) := by
  rcases h with rfl | ⟨rfl, rfl⟩
  · exact neg_add_neg x z
  · cases hz : z.isZero with
    | true => exact .inr ⟨zero_add_of_isZero hz, zero_add_of_isZero ((isZero_neg z).trans hz)⟩
    | false =>
      rw [zero_add_of_nonzero rfl hz, zero_add_of_nonzero rfl ((isZero_neg z).trans hz)]
      exact .inl rfl

end Opposite

end Binary64

/-! ## Sums from left to right -/

/-- A zero in a sum of two may stand on either side. -/
lemma zero_add_add_comm {x : Binary64} (hx : x.isZero = true) (y : Binary64) :
    Binary64.zero + x + y = Binary64.zero + y + x := by
  rw [Binary64.zero_add_of_isZero hx]
  cases hy : y.isZero with
  | true => rw [Binary64.zero_add_of_isZero hy, Binary64.zero_add_of_isZero hx]
  | false =>
    rw [Binary64.zero_add_of_nonzero rfl hy, Binary64.add_comm, Binary64.zero_add_of_nonzero hx hy]

/-- Two numbers may be summed in either order. -/
lemma leftSum_pair (x y : Binary64) : leftSum [x, y] = leftSum [y, x] := by
  show Binary64.zero + x + y = Binary64.zero + y + x
  cases hx : x.isZero with
  | true => exact zero_add_add_comm hx y
  | false =>
    cases hy : y.isZero with
    | true => exact (zero_add_add_comm hy x).symm
    | false =>
      have hx0 : Binary64.zero + x = x := Binary64.zero_add_of_nonzero rfl hx
      have hy0 : Binary64.zero + y = y := Binary64.zero_add_of_nonzero rfl hy
      rw [hx0, hy0, Binary64.add_comm]

/-- Up to two numbers may be summed in any order. -/
theorem leftSum_eq_of_perm {xs ys : List Binary64} (h : xs.Perm ys) (hle : ys.length ≤ 2) :
    leftSum xs = leftSum ys := by
  match ys with
  | [] => rw [List.perm_nil.mp h]
  | [y] => rw [List.perm_singleton.mp h]
  | [y, z] =>
    rcases List.perm_pair.mp h with rfl | rfl
    · rfl
    · exact leftSum_pair z y
  | _ :: _ :: _ :: _ => simp at hle

/-- Sums of opposite numbers are opposite. -/
lemma opposite_foldl {x y : Binary64} (h : x.Opposite y) (zs : List Binary64) :
    (zs.foldl (· + ·) x).Opposite ((zs.map (-·)).foldl (· + ·) y) := by
  induction zs generalizing x y with
  | nil => exact h
  | cons z zs ih => exact ih (h.add z)

/-- The sum of the opposite numbers is opposite to the sum. -/
theorem opposite_leftSum (zs : List Binary64) :
    (leftSum zs).Opposite (leftSum (zs.map (-·))) :=
  opposite_foldl (.inr ⟨rfl, rfl⟩) zs

end PowerRule
