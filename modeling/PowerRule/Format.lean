import PowerRule.Decimal
import PowerRule.Polynomial

/-!
# Numbers and polynomials as text

How numbers, monomials and polynomials are written, in a style that says how many places there are
and how an exponent is marked.
-/

namespace PowerRule

/-! ## Styles of writing

How a polynomial is written: to how many decimal places, and how its exponents are marked.
-/

/-- How an exponent is marked. -/
inductive ExponentStyle where
  /-- After a caret: `x^12`. -/
  | plain
  /-- After a caret and in braces: `x^{12}`. -/
  | latex
deriving DecidableEq, Repr

/-- A style of writing polynomials. -/
structure Style where
  /-- The decimal places to which coefficients are rounded. Without it they are written as the
  shortest decimals that read back. -/
  precision : Option Nat := none
  exponents : ExponentStyle := .plain
deriving DecidableEq, Repr

/-- The canonical style: shortest coefficients and plain exponents. -/
def Style.canonical : Style := {}

/-- An exponent as it follows the variable. The exponent one is not written. -/
def ExponentStyle.power (style : ExponentStyle) (exponent : Nat) : List Char :=
  if exponent = 1 then []
  else
    match style with
    | plain => '^' :: Nat.toDigits 10 exponent
    | latex => '^' :: '\x7b' :: Nat.toDigits 10 exponent ++ ['\x7d']

/-! ## Numbers as text

Numbers are written in positional notation and never with an exponent. `Binary64.text` is the
shortest text that reads back; `formatNumber` also rounds to a number of places if one is asked for,
and writes both zeros as `0`.
-/

namespace Binary64

/-- The text of a number that is not finite. -/
def infinityText : List Char := "inf".toList

/-- The text of NaN, which has no sign. -/
def nanText : List Char := "NaN".toList

/-- The shortest text that reads back as the number, with the sign of a negative zero. -/
def text : Binary64 → List Char
  | nan => nanText
  | infinite s => s.mark ++ infinityText
  | finite s m => s.mark ++ (Decimal.shortest m).text

end Binary64

/-- The decimal that stands for a magnitude: rounded to the precision, or else the shortest. -/
def Decimal.ofMagnitude (precision : Option Nat) (m : Magnitude) : Decimal :=
  match precision with
  | none => Decimal.shortest m
  | some places => Decimal.rounded m places

/-- The text of a number. What is zero or rounds to zero is written as `0`, without a sign. -/
def formatNumber (precision : Option Nat) : Binary64 → List Char
  | .finite s m =>
    let d := Decimal.ofMagnitude precision m
    if d.isZero then ['0'] else s.mark ++ d.text
  | x => x.text

/-! ## Polynomials as text

The canonical form has its terms in descending order of the exponents. The first has no `+`; a
coefficient of one is not written before the variable. Terms that are zero, or round to it, are left
out, so that the zero polynomial is the empty text.
-/

namespace Monomial

/-- The text of the coefficient without its sign. -/
def magnitudeText (style : Style) (m : Monomial) : List Char :=
  formatNumber style.precision m.coefficient.abs

/-- A monomial without its sign, given the text of its coefficient. -/
def unsignedText (style : Style) (var : Char) (magnitude : List Char) (exponent : Nat) :
    List Char :=
  if exponent = 0 then magnitude
  else
    (if magnitude = ['1'] then [] else magnitude) ++ var :: style.exponents.power exponent

/-- A monomial on its own. Unlike in a polynomial, zero is written as `0`. -/
def format (style : Style) (var : Char) (m : Monomial) : List Char :=
  let magnitude := m.magnitudeText style
  if magnitude = ['0'] then ['0']
  else
    (if m.coefficient.isNegative then ['-'] else []) ++
      unsignedText style var magnitude m.exponent

end Monomial

namespace Polynomial

/-- The text of terms in order; `first` says that nothing precedes them. -/
def formatTerms (style : Style) (var : Char) (first : Bool) : List Monomial → List Char
  | [] => []
  | m :: rest =>
    let magnitude := m.magnitudeText style
    if m.coefficient.isZero || magnitude == ['0'] then
      formatTerms style var first rest
    else
      let sign := if m.coefficient.isNegative then ['-'] else if first then [] else ['+']
      sign ++ Monomial.unsignedText style var magnitude m.exponent ++
        formatTerms style var false rest

/-- A polynomial in the given variable. -/
def format (style : Style) (var : Char) (p : Polynomial) : List Char :=
  formatTerms style var true p.terms

end Polynomial

end PowerRule
