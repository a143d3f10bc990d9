import PowerRule.Expression

/-!
# Polynomials

Monomials with the power rule, and polynomials as their terms in descending order.
-/

namespace PowerRule

/-! ## Monomials and the power rule

A monomial is a coefficient with its sign and an exponent; which variable it is in is left open. A
term that is read becomes a monomial, and so does its derivative unless it vanishes.
-/

/-- A coefficient times a power of the variable. -/
structure Monomial where
  coefficient : Binary64
  exponent : Nat
deriving DecidableEq

namespace Term

/-- The coefficient with its sign; the value of a constant. -/
def signedCoefficient : Term → Binary64
  | power s c _ => .finite s c
  | constant s v => .finite s v

/-- The exponent of the term; a constant has exponent zero. -/
def exponent : Term → Nat
  | power _ _ n => n
  | constant _ _ => 0

/-- The term as a monomial. -/
def toMonomial (t : Term) : Monomial := ⟨t.signedCoefficient, t.exponent⟩

/-- The derivative by the power rule. Without the variable there is none: it vanishes. -/
def derivative? (t : Term) : Option Monomial :=
  match t.exponent with
  | 0 => none
  | n + 1 => some ⟨t.signedCoefficient * Binary64.ofNat (n + 1), n⟩

end Term

/-! ## Polynomials

A polynomial holds at most one term for each exponent, in descending order of the exponents. Terms
are added one by one; like terms are summed in the order in which they come, from zero on. A sum of
zero stays until it is pruned.
-/

/-- The terms have strictly descending exponents. -/
def Descending (terms : List Monomial) : Prop :=
  terms.Pairwise fun a b => b.exponent < a.exponent

/-- Adds a monomial to descending terms, in its place or onto the like term. -/
def insertTerm (m : Monomial) : List Monomial → List Monomial
  | [] => [⟨.zero + m.coefficient, m.exponent⟩]
  | t :: rest =>
    if t.exponent < m.exponent then ⟨.zero + m.coefficient, m.exponent⟩ :: t :: rest
    else if t.exponent = m.exponent then ⟨t.coefficient + m.coefficient, m.exponent⟩ :: rest
    else t :: insertTerm m rest

/-- The exponents after an insertion are those before it and the new one. -/
theorem exponent_mem_insertTerm {m : Monomial} {terms : List Monomial} {t : Monomial}
    (h : t ∈ insertTerm m terms) :
    t.exponent = m.exponent ∨ ∃ u ∈ terms, u.exponent = t.exponent := by
  induction terms with
  | nil =>
    simp only [insertTerm, List.mem_singleton] at h
    exact .inl (by rw [h])
  | cons u rest ih =>
    unfold insertTerm at h
    split at h
    · rcases List.mem_cons.mp h with rfl | hu
      · exact .inl rfl
      · exact .inr ⟨t, hu, rfl⟩
    · split at h
      · rcases List.mem_cons.mp h with rfl | hu
        · exact .inl rfl
        · exact .inr ⟨t, List.mem_cons_of_mem _ hu, rfl⟩
      · rcases List.mem_cons.mp h with rfl | hu
        · exact .inr ⟨t, List.mem_cons_self, rfl⟩
        · rcases ih hu with he | ⟨v, hv, he⟩
          · exact .inl he
          · exact .inr ⟨v, List.mem_cons_of_mem _ hv, he⟩

/-- Insertion keeps the order. -/
theorem Descending.insertTerm {m : Monomial} {terms : List Monomial} (h : Descending terms) :
    Descending (insertTerm m terms) := by
  induction terms with
  | nil => exact List.pairwise_singleton _ _
  | cons t rest ih =>
    have ht := List.pairwise_cons.mp h
    unfold PowerRule.insertTerm
    split
    · rename_i hlt
      refine List.pairwise_cons.mpr ⟨?_, h⟩
      intro u hu
      rcases List.mem_cons.mp hu with rfl | hu
      · exact hlt
      · exact Nat.lt_trans (ht.1 u hu) hlt
    · split
      · rename_i heq
        refine List.pairwise_cons.mpr ⟨?_, ht.2⟩
        intro u hu
        have := ht.1 u hu
        simp only
        omega
      · refine List.pairwise_cons.mpr ⟨?_, ih ht.2⟩
        intro u hu
        rcases exponent_mem_insertTerm hu with he | ⟨v, hv, he⟩
        · omega
        · have := ht.1 v hv
          omega

/-- A polynomial in one variable, as its terms. -/
structure Polynomial where
  terms : List Monomial
  descending : Descending terms

namespace Polynomial

/-- The polynomial without terms. -/
def empty : Polynomial := ⟨[], List.Pairwise.nil⟩

/-- Adds a term; a like term is summed with it. -/
def add (p : Polynomial) (m : Monomial) : Polynomial :=
  ⟨insertTerm m p.terms, p.descending.insertTerm⟩

/-- Adds terms, in order. -/
def addAll (p : Polynomial) (terms : List Monomial) : Polynomial := terms.foldl add p

/-- The sum of the terms. -/
def ofTerms (terms : List Monomial) : Polynomial := empty.addAll terms

/-- The coefficient of an exponent: zero if there is no such term. -/
def coefficient (p : Polynomial) (exponent : Nat) : Binary64 :=
  match p.terms.find? (·.exponent == exponent) with
  | some t => t.coefficient
  | none => .zero

/-- The highest exponent of a coefficient that is not zero. -/
def degree? (p : Polynomial) : Option Nat :=
  (p.terms.find? (!·.coefficient.isZero)).map Monomial.exponent

/-- The terms whose coefficient is not zero. -/
def prune (p : Polynomial) : Polynomial :=
  ⟨p.terms.filter (!·.coefficient.isZero), p.descending.filter _⟩

/-- The exponents of the terms whose coefficient is zero, from the lowest on. -/
def zeroExponents (p : Polynomial) : List Nat :=
  ((p.terms.filter (·.coefficient.isZero)).map Monomial.exponent).reverse

/-- The same exponents with coefficients of the same value. -/
def sameValue (p q : Polynomial) : Bool :=
  p.terms.map Monomial.exponent == q.terms.map Monomial.exponent &&
    (p.terms.zip q.terms).all fun (a, b) => a.coefficient.sameValue b.coefficient

end Polynomial

end PowerRule
