import PowerRule.Expression
import PowerRule.Format

/-!
# Derivatives

The derivative of an expression, with the steps that lead to it or what keeps it from being found.
-/

namespace PowerRule

/-! ## Steps of a differentiation

The rules that were applied, as data (`Step`) and in words (`Step.describe`).
-/

/-- A rule that was applied. -/
inductive Step where
  /-- A term without the variable vanishes. -/
  | constantRule (value : Binary64)
  /-- The derivative of `c * x ^ n` is `(c * n) * x ^ (n - 1)`. -/
  | powerRule (source derived : Monomial)
  /-- Terms of the same exponent are summed. -/
  | combineLikeTerms (exponent count : Nat)
  /-- A sum of zero is left out. -/
  | dropZero (exponent : Nat)
deriving DecidableEq

namespace Step

/-- The power of the variable alone, with coefficient one. -/
def powerText (var : Char) (exponent : Nat) : List Char :=
  Monomial.format .canonical var ⟨.ofNat 1, exponent⟩

/-- The step in words, its terms in the given variable. -/
def describe (var : Char) : Step → List Char
  | constantRule value => "constant rule: ".toList ++ value.text ++ " vanishes".toList
  | powerRule source derived =>
    "power rule: ".toList ++ source.format .canonical var ++
      " -> ".toList ++ derived.format .canonical var
  | combineLikeTerms exponent count =>
    "combine like terms: ".toList ++ Nat.toDigits 10 count ++
      " terms in ".toList ++ powerText var exponent
  | dropZero exponent => "drop zero term: 0 * ".toList ++ powerText var exponent

end Step

/-- The rule that applies to a term. -/
def Term.step (t : Term) : Step :=
  match t.derivative? with
  | some derived => .powerRule t.toMonomial derived
  | none => .constantRule t.signedCoefficient

/-! ## Summing like terms

Monomials are summed by exponent, with a step for each exponent that several share and for each sum
that is zero and left out.
-/

/-- The step of combining the monomials of this exponent, if there are several. -/
def combineStep? (terms : List Monomial) (exponent : Nat) : Option Step :=
  let count := terms.countP (·.exponent == exponent)
  if 1 < count then some (.combineLikeTerms exponent count) else none

namespace Polynomial

/-- The steps of pruning, from the lowest exponent on. -/
def pruneSteps (p : Polynomial) : List Step := p.zeroExponents.map Step.dropZero

/-- The sum of the monomials without its zeros. -/
def aggregate (terms : List Monomial) : Polynomial := (ofTerms terms).prune

/-- The steps of `aggregate`: like terms from the highest exponent on, then zeros from the lowest.
-/
def aggregateSteps (terms : List Monomial) : List Step :=
  let sum := ofTerms terms
  (sum.terms.filterMap fun t => combineStep? terms t.exponent) ++ sum.pruneSteps

end Polynomial

/-! ## Derivatives of expressions

An expression is cut into terms and all of them are read before any is differentiated, so that an
expression that cannot be read leaves no steps. Then the power rule is applied term by term and like
terms are summed. The derivative fails if a coefficient or a sum is too large; its steps up to there
remain.
-/

/-- The outcome of a differentiation and the steps that led to it. -/
structure Derivation where
  steps : List Step
  result : Except Error Polynomial

/-- A differentiated term and the place of the term it comes from. -/
structure Contribution where
  span : Span
  monomial : Monomial
deriving DecidableEq

/-- The terms of an expression as written and as read; the error of the first that cannot be read.
-/
def readTerms (var : Char) (expression : List Char) : Except Error (List (RawTerm × Term)) :=
  (splitTerms expression).mapM fun raw => return (raw, ← readTerm var raw)

/-- The power rule on terms in order, up to the first coefficient that is not finite. -/
def differentiateTerms : List (RawTerm × Term) → List Step × Except Error (List Contribution)
  | [] => ([], .ok [])
  | (raw, term) :: rest =>
    match term.derivative? with
    | none =>
      let (steps, result) := differentiateTerms rest
      (term.step :: steps, result)
    | some monomial =>
      if monomial.coefficient.isFinite then
        let (steps, result) := differentiateTerms rest
        (term.step :: steps, result.map (⟨raw.span, monomial⟩ :: ·))
      else
        ([term.step], .error ⟨.coefficientOverflow, [raw.span]⟩)

/-- The sum of the contributions, unless it overflows. The error points at all the terms of the
highest exponent whose sum is not finite. -/
def sumContributions (contributions : List Contribution) : Except Error Polynomial :=
  let sum := Polynomial.aggregate (contributions.map Contribution.monomial)
  match sum.terms.find? (!·.coefficient.isFinite) with
  | none => .ok sum
  | some overflowed =>
    let shared := contributions.filter (·.monomial.exponent == overflowed.exponent)
    .error ⟨.coefficientOverflow, shared.map Contribution.span⟩

/-- The derivative of terms that were read. -/
def deriveTerms (terms : List (RawTerm × Term)) : Derivation :=
  match differentiateTerms terms with
  | (steps, .error e) => ⟨steps, .error e⟩
  | (steps, .ok contributions) =>
    ⟨steps ++ Polynomial.aggregateSteps (contributions.map Contribution.monomial),
      sumContributions contributions⟩

/-- The derivative of an expression with respect to the variable, and its steps. -/
def derive (var : Char) (expression : List Char) : Derivation :=
  match readTerms var expression with
  | .error e => ⟨[], .error e⟩
  | .ok terms => deriveTerms terms

/-- The derivative of an expression. -/
def derivative (var : Char) (expression : List Char) : Except Error Polynomial :=
  (derive var expression).result

/-- The text of the derivative, in the given style. -/
def differentiateWith (style : Style) (var : Char) (expression : List Char) :
    Except Error (List Char) :=
  (derivative var expression).map (·.format style var)

/-- The text of the derivative, in canonical form. It is empty if the derivative is zero. -/
def differentiate (var : Char) (expression : List Char) : Except Error (List Char) :=
  differentiateWith .canonical var expression

end PowerRule
