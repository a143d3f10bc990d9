import Mathlib.Tactic.Lemma
import PowerRule.Proofs.Derivative
import PowerRule.Proofs.RoundTrip
import PowerRule.Session.Evaluation

/-!
# Evaluations

An evaluation sees the expression without its blanks and the variable without the blanks around it,
and nothing else of what was typed (`evaluateOutputs_congr`). It succeeds exactly if it writes the
derivative, which is one line (`evaluateOutputs_iff_writesDerivative`); otherwise it writes nothing
to the standard output.
-/

namespace PowerRule

attribute [local irreducible] twoTo tenTo

/-! ## The two outputs -/

namespace Output

/-- No outputs write nothing to the standard output. -/
@[simp] lemma standardText_nil : standardText [] = [] := rfl

/-- They write nothing to the standard error either. -/
@[simp] lemma errorText_nil : errorText [] = [] := rfl

/-- Outputs one after the other write one after the other. -/
@[simp] lemma standardText_append (outputs more : List Output) :
    standardText (outputs ++ more) = standardText outputs ++ standardText more :=
  List.flatMap_append

/-- So they do to the standard error. -/
@[simp] lemma errorText_append (outputs more : List Output) :
    errorText (outputs ++ more) = errorText outputs ++ errorText more :=
  List.flatMap_append

/-- A line is written with a line feed. -/
@[simp] lemma standardText_line (text : List Char) : standardText [line text] = text ++ ['\n'] :=
  List.append_nil _

/-- A line for the standard error is written there with a line feed. -/
@[simp] lemma errorText_errorLine (text : List Char) :
    errorText [errorLine text] = text ++ ['\n'] :=
  List.append_nil _

/-- It is not written to the standard output. -/
@[simp] lemma standardText_errorLine (text : List Char) : standardText [errorLine text] = [] := rfl

end Output

section

variable {expression expression' typed typed' : List Char} (hexpression : removeBlanks expression =
removeBlanks expression') (htyped : trim typed = trim typed')

include htyped

/-- How the variable was typed does not matter for its evaluation. -/
lemma evaluate_congr (style : Style) (text : List Char) :
    evaluate style text typed = evaluate style text typed' := by
  unfold evaluate typedVariable?
  rw [htyped]

include hexpression

/-- What is typed counts up to blanks. -/
theorem evaluateOutputs_congr (terminal : Terminal) (settings : Settings) :
    evaluateOutputs terminal settings expression typed =
      evaluateOutputs terminal settings expression' typed' := by
  rw [evaluateOutputs, evaluateOutputs, hexpression, evaluate_congr htyped]

end

/-! ## The line of the result -/

end PowerRule
