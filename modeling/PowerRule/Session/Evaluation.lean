import PowerRule.Derivative
import PowerRule.Text
import PowerRule.Session.Settings

/-!
# Evaluating an expression

An evaluation takes an expression and a variable as typed, blanks and all, and writes either the
derivative or one error. What it writes is data; only the program's outermost layer prints it. How a
report is drawn, and what an editor makes of the characters of a line, is up to the terminal.
-/

namespace PowerRule

/-- What the program is run with: an editor of lines, and what draws reports. -/
structure Terminal where
  /-- The line that the editor returns when these characters are typed. -/
  edit : List Char → List Char
  /-- A report of an error in a text, as it is printed. -/
  draw : Report → List Char → List Char

/-- A terminal that takes lines as they are typed and shows the message of a report only. -/
def Terminal.plain : Terminal where
  edit line := line
  draw report _ := "Error: ".toList ++ report.message ++ ['\n']

/-- A piece of text for one of the two outputs. -/
inductive Output where
  | standard (text : List Char)
  | error (text : List Char)
deriving DecidableEq, Repr

namespace Output

/-- A line for the standard output. -/
def line (text : List Char) : Output := standard (text ++ ['\n'])

/-- A line for the error output. -/
def errorLine (text : List Char) : Output := error (text ++ ['\n'])

/-- All that goes to the standard output, in order. -/
def standardText (outputs : List Output) : List Char :=
  outputs.flatMap fun
    | standard text => text
    | error _ => []

/-- All that goes to the error output, in order. -/
def errorText (outputs : List Output) : List Char :=
  outputs.flatMap fun
    | standard _ => []
    | error text => text

end Output

/-- What can be wrong with an evaluation. -/
inductive EvaluationError where
  | emptyExpression
  | invalidVariable (text : List Char)
  | malformed (error : Error)
deriving DecidableEq, Repr

/-- What is printed for an error in a text: a line, or the report of an expression that cannot be
differentiated. -/
def EvaluationError.printed (terminal : Terminal) (source : List Char) :
    EvaluationError → List Char
  | emptyExpression => "error: the expression is empty\n".toList
  | invalidVariable text =>
    "error: invalid variable `".toList ++ text ++
      "`: the variable must be a single lowercase letter\n".toList
  | malformed e => (e.report?.map fun report => terminal.draw report source).getD []

/-- The derivative of an expression, as it is shown. -/
structure Evaluation where
  steps : List Step
  var : Char
  derivative : List Char

/-- The variable: one lowercase ASCII letter, blanks around it aside. -/
def typedVariable? (text : List Char) : Option Char :=
  match trim text with
  | [c] => if c.isLower then some c else none
  | _ => none

/-- Differentiates an expression without blanks with respect to the variable as typed. -/
def evaluate (style : Style) (expression typed : List Char) :
    Except EvaluationError Evaluation :=
  if expression.isEmpty then .error .emptyExpression
  else
    match typedVariable? typed with
    | none => .error (.invalidVariable (trim typed))
    | some var =>
      let derivation := derive var expression
      match derivation.result with
      | .error e => .error (.malformed e)
      | .ok p => .ok ⟨derivation.steps, var, p.format style var⟩

namespace Evaluation

/-- The steps, one line each. -/
def stepOutputs (e : Evaluation) : List Output :=
  e.steps.map fun step => .errorLine ("  ".toList ++ step.describe e.var)

/-- The line of the result. A derivative of which nothing is left to write is `0`. -/
def resultLine (e : Evaluation) : List Char :=
  let written := if e.derivative.isEmpty then ['0'] else e.derivative
  "f'(".toList ++ e.var :: ") = ".toList ++ written

end Evaluation

/-- Evaluates what was typed. The second component says whether there was no error. -/
def evaluateOutputs (terminal : Terminal) (settings : Settings) (expression typed : List Char) :
    List Output × Bool :=
  match evaluate settings.style (removeBlanks expression) typed with
  | .error e => ([.error (e.printed terminal (removeBlanks expression))], false)
  | .ok evaluation =>
    ((if settings.showSteps then evaluation.stepOutputs else []) ++ [.line evaluation.resultLine],
      true)

end PowerRule
