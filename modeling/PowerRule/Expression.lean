import PowerRule.Binary64
import PowerRule.Decimal
import PowerRule.Error
import PowerRule.Text

/-!
# Expressions

An expression is a sequence of tokens, which is cut into terms, which are read one by one.
-/

namespace PowerRule

/-! ## Tokens

A text is a sequence of numerals and single characters: at each place the longest numeral is one
token, and where there is none, one character is. Every character belongs to a token, so the lexemes
in order are the text.
-/

/-- What a token is. A character that is none of the others is a symbol. -/
inductive TokenKind where
  | plus
  | minus
  | caret
  | numeral
  | letter
  | symbol
deriving DecidableEq, Repr

namespace TokenKind

/-- The kind of a character that is not part of a numeral. Letters are the ASCII ones. -/
def ofChar (c : Char) : TokenKind :=
  if c = '+' then plus
  else if c = '-' then minus
  else if c = '^' then caret
  else if c.isAlpha then letter
  else symbol

/-- A plus or a minus, which can start a term. -/
def isSign : TokenKind → Bool
  | plus => true
  | minus => true
  | _ => false

end TokenKind

/-- A token: its kind, the byte at which it starts, and its text. -/
structure Token where
  kind : TokenKind
  start : Nat
  lexeme : List Char
deriving DecidableEq, Repr

namespace Token

/-- The place of the token. -/
def span (t : Token) : Span := Span.ofText t.start t.lexeme

/-- The token is a line feed. -/
def isLineBreak (t : Token) : Bool := t.lexeme == ['\n']

end Token

/-- The tokens of a text that starts at the given byte. -/
def tokensFrom (start : Nat) (text : List Char) : List Token :=
  match text with
  | [] => []
  | c :: rest =>
    match longestNumeral (c :: rest) with
    | [] => ⟨.ofChar c, start, [c]⟩ :: tokensFrom (start + c.utf8Size) rest
    | d :: digits =>
      ⟨.numeral, start, d :: digits⟩ ::
        tokensFrom (start + byteLength (d :: digits)) (rest.drop digits.length)
termination_by text.length

/-- The tokens of a text. -/
def tokens (text : List Char) : List Token := tokensFrom 0 text

/-- The places of the line feeds. No kind of token is meant for them; they count as symbols. -/
def lineBreaks (text : List Char) : List Span :=
  ((tokens text).filter Token.isLineBreak).map Token.span

/-- The text is one numeral and nothing else. -/
def isNumeral (text : List Char) : Bool :=
  match tokens text with
  | [t] => t.kind == .numeral
  | _ => false

/-- The number that a text stands for, if it is a numeral. -/
def Decimal.ofText? (text : List Char) : Option Decimal :=
  if isNumeral text then some (Decimal.ofNumeral text) else none

/-! ## Cutting an expression into terms

An expression is cut before every sign, so that each term keeps the sign written before it. A sign
directly after a caret belongs to an exponent and does not cut. A lone sign at the end is left out,
unless it is all there is; an empty term elsewhere is kept, and refused when it is read.
-/

/-- A term as written, with its sign, and the byte at which it starts. -/
structure RawTerm where
  start : Nat
  text : List Char
deriving DecidableEq, Repr

namespace RawTerm

/-- The place of the term, its sign included. -/
def span (t : RawTerm) : Span := Span.ofText t.start t.text

/-- The sign of the term: positive if none is written. -/
def sign (t : RawTerm) : Sign :=
  match t.text with
  | '-' :: _ => .negative
  | _ => .positive

/-- The term without the sign written before it. -/
def body (t : RawTerm) : List Char :=
  match t.text with
  | '+' :: rest => rest
  | '-' :: rest => rest
  | text => text

/-- The byte at which the body starts. -/
def bodyStart (t : RawTerm) : Nat := t.start + (t.text.length - t.body.length)

/-- The place of the body. -/
def bodySpan (t : RawTerm) : Span := Span.ofText t.bodyStart t.body

end RawTerm

/-- The rest of the term that is being read, and the terms after it. `started` says that something
of the term was read, `afterCaret` that a caret was read last. -/
def cutTokens (started afterCaret : Bool) : List Token → List Char × List RawTerm
  | [] => ([], [])
  | t :: rest =>
    if t.kind.isSign && started && !afterCaret then
      let (more, terms) := cutTokens true false rest
      ([], ⟨t.start, t.lexeme ++ more⟩ :: terms)
    else
      let (more, terms) := cutTokens true (t.kind == .caret) rest
      (t.lexeme ++ more, terms)

/-- Leaves out a sign that stands alone at the end, after other terms. -/
def dropLoneSign : List RawTerm → List RawTerm
  | [t, last] => if last.body.isEmpty then [t] else [t, last]
  | t :: rest => t :: dropLoneSign rest
  | [] => []

/-- The terms of an expression, in order. There is always at least one. -/
def splitTerms (expression : List Char) : List RawTerm :=
  let (first, others) := cutTokens false false (tokens expression)
  dropLoneSign (⟨0, first⟩ :: others)

/-! ## Reading a term

A term is a constant, or a coefficient, the variable, and an exponent after a caret. The coefficient
and the exponent may be left out and are 1 then. The body is divided at the first occurrence of the
variable, whatever character that is.
-/

/-- A term that was read: its sign, its coefficient without the sign, and its exponent. -/
inductive Term where
  | power (sign : Sign) (coefficient : Magnitude) (exponent : Nat)
  | constant (sign : Sign) (value : Magnitude)
deriving DecidableEq

/-- The largest exponent that can be written. -/
def maxExponent : Nat := 4294967295

/-- The value of a coefficient: a numeral that is not too large for a magnitude. -/
def coefficient? (text : List Char) : Option Magnitude :=
  (Decimal.ofText? text).bind Decimal.nearest?

/-- The exponent of a value that may be whole: too large values are refused. -/
def exponentOfValue : Option Nat → Except ExponentIssue Nat
  | none => .error .fractional
  | some n => if maxExponent < n then .error .tooLarge else .ok n

/-- The exponent that a numeral stands for: its nearest magnitude has to be whole and not too large.
A numeral too large for any magnitude has no whole value. -/
def exponentOf (d : Decimal) : Except ExponentIssue Nat :=
  exponentOfValue (d.nearest?.bind Magnitude.toNat?)

/-- The exponent that a text after the caret stands for. -/
def exponentOfText (text : List Char) : Except ExponentIssue Nat :=
  match Decimal.ofText? text with
  | some d => exponentOf d
  | none =>
    match text with
    | [] => .error .missing
    | '-' :: digits => .error (if isNumeral digits then .negative else .notANumber)
    | _ => .error .notANumber

/-- Reads what follows the variable: nothing, or a caret and an exponent. -/
def readExponent (start : Nat) (text : List Char) : Except Error Nat :=
  let malformed (written : List Char) (issue : ExponentIssue) : Error :=
    ⟨.malformedExponent written issue, [Span.ofText start text]⟩
  match text with
  | [] => .ok 1
  | '^' :: written => (exponentOfText written).mapError (malformed written)
  | written => .error (malformed written .notANumber)

/-- Reads a numeral with a finite value. -/
def readCoefficient (start : Nat) (text : List Char) : Except Error Magnitude :=
  match coefficient? text with
  | some m => .ok m
  | none => .error ⟨.malformedCoefficient text, [Span.ofText start text]⟩

/-- Reads what precedes the variable: nothing, or a numeral. -/
def readLeading (start : Nat) (text : List Char) : Except Error Magnitude :=
  match text with
  | [] => .ok .one
  | _ => readCoefficient start text

/-- Reads a term in the given variable. -/
def readTerm (var : Char) (raw : RawTerm) : Except Error Term :=
  let body := raw.body
  let leading := body.takeWhile (· != var)
  if body.isEmpty then
    .error ⟨.emptyTerm, [raw.span]⟩
  else
    match body.dropWhile (· != var) with
    | [] => return .constant raw.sign (← readCoefficient raw.bodyStart body)
    | _ :: trailing => do
      let coefficient ← readLeading raw.bodyStart leading
      let start := raw.bodyStart + byteLength leading + var.utf8Size
      let exponent ← readExponent start trailing
      return .power raw.sign coefficient exponent

end PowerRule
