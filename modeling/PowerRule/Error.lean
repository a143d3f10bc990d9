import PowerRule.Text

/-!
# Errors

What can be wrong with an expression, and where. A report shows an error to a reader: its message,
where it is, a label for each place, and how to mend it. Words that are expressions are coloured.
The wording of every message, label and help stands here; how a report is drawn does not.
-/

namespace PowerRule

/-- What is wrong with an exponent. -/
inductive ExponentIssue where
  | missing
  | notANumber
  | negative
  | fractional
  | tooLarge
deriving DecidableEq, Repr

/-- What is wrong with an expression. -/
inductive ErrorKind where
  /-- A text stands where a numeral with a finite value is needed. -/
  | malformedCoefficient (text : List Char)
  /-- What follows the variable is not an exponent. -/
  | malformedExponent (text : List Char) (issue : ExponentIssue)
  /-- A sign without a term, or an empty expression. -/
  | emptyTerm
  /-- A coefficient of the derivative is too large, though every numeral has a finite value. -/
  | coefficientOverflow
deriving DecidableEq, Repr

/-- An error and the places that it points at. -/
structure Error where
  kind : ErrorKind
  spans : List Span
deriving DecidableEq, Repr

/-- A report of an error, as it is handed over to be drawn. -/
structure Report where
  message : List Char
  /-- The byte at which the error is reported. -/
  start : Nat
  /-- The labels, each with its place. -/
  labels : List (List Char × Span)
  help : List Char
deriving DecidableEq, Repr

/-- A word in the colour of expressions, by terminal control codes. -/
def highlight (word : String) : List Char :=
  "\x1b[38;2;52;235;152m".toList ++ word.toList ++ "\x1b[0m".toList

/-- What the label of a malformed exponent says. -/
def ExponentIssue.label : ExponentIssue → List Char
  | missing => "add an exponent here".toList
  | notANumber => "this is not a number".toList
  | negative => "this exponent is negative".toList
  | fractional => "this exponent is not a whole number".toList
  | tooLarge => "this exponent is too large".toList

namespace ErrorKind

/-- The message of an error, in one line. -/
def message : ErrorKind → List Char
  | malformedCoefficient text => "invalid coefficient: `".toList ++ text ++ "`".toList
  | malformedExponent text _ => "invalid exponent: `".toList ++ text ++ "`".toList
  | emptyTerm => "missing term".toList
  | coefficientOverflow => "coefficient overflow".toList

/-- The labels of an error, in order. An overflow repeats its own as often as it is asked to, the
others have one. -/
def labels (count : Nat) : ErrorKind → List (List Char)
  | malformedCoefficient _ => ["this is not a number".toList]
  | malformedExponent _ issue => [issue.label]
  | emptyTerm => ["add a ".toList ++ highlight "term" ++ " here".toList]
  | coefficientOverflow =>
    List.replicate count "the derivative of this term is too large".toList

/-- How to mend the error. -/
def help : ErrorKind → List Char
  | malformedCoefficient _ =>
    "coefficients must be integers or decimals, like ".toList ++
      highlight "3" ++ " or ".toList ++ highlight ".5"
  | malformedExponent _ _ =>
    "only non-negative integer powers are supported, like ".toList ++
      highlight "x^2" ++ " or ".toList ++ highlight "x"
  | emptyTerm => "each `+` or `-` must be followed by a term".toList
  | coefficientOverflow => "use smaller coefficients or exponents".toList

end ErrorKind

namespace Error

/-- The message of the error. -/
def message (e : Error) : List Char := e.kind.message

/-- The report of an error, at the start of its first place. Each label goes with a place, in order,
as long as there are both. Without a place there is no report. -/
def report? (e : Error) : Option Report :=
  match e.spans with
  | [] => none
  | first :: _ =>
    some {
      message := e.message
      start := first.start
      labels := (e.kind.labels e.spans.length).zip e.spans
      help := e.kind.help
    }

end Error

end PowerRule
