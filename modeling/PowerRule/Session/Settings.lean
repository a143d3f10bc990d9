import PowerRule.Format

/-!
# Command line arguments

Flags and positional arguments in any order. The argument after `--precision` is its value, whatever
it looks like. An argument with a single dash is positional, since expressions start so.
-/

namespace PowerRule

/-- What the arguments ask for. -/
structure Settings where
  style : Style := .canonical
  showSteps : Bool := false
  showHelp : Bool := false
  /-- The arguments that are no flags, in order. -/
  positional : List (List Char) := []
deriving DecidableEq, Repr

/-- What can be wrong with the arguments. -/
inductive ArgumentError where
  | missingPrecision
  | invalidPrecision (text : List Char)
  | unknownFlag (text : List Char)
deriving DecidableEq, Repr

/-- The message of an error. -/
def ArgumentError.message : ArgumentError → List Char
  | missingPrecision => "`--precision` requires a number of digits".toList
  | invalidPrecision text => "invalid precision: `".toList ++ text ++ "`".toList
  | unknownFlag text => "unknown flag `".toList ++ text ++ "`".toList

/-- One argument, as it reads on its own. -/
inductive Argument where
  | steps
  | latex
  | precision
  | help
  | unknown
  | positional
deriving DecidableEq, Repr

/-- How an argument reads. -/
def Argument.ofText (text : List Char) : Argument :=
  if text = "--steps".toList then steps
  else if text = "--latex".toList then latex
  else if text = "--precision".toList then precision
  else if text = "-h".toList ∨ text = "--help".toList then help
  else
    match text with
    | '-' :: '-' :: _ => unknown
    | _ => positional

/-- The largest number of digits that can be asked for. -/
def maxPrecision : Nat := 18446744073709551615

/-- A number of digits: ASCII digits, after a plus or not. -/
def precision? (text : List Char) : Option Nat :=
  let digits := match text with
    | '+' :: rest => rest
    | _ => text
  if !digits.isEmpty && digits.all Char.isDigit then
    let n := Nat.ofDigitChars 10 digits 0
    if n ≤ maxPrecision then some n else none
  else
    none

namespace Settings

/-- These settings with the given precision. -/
def withPrecision (settings : Settings) (digits : Nat) : Settings :=
  { settings with style := { settings.style with precision := some digits } }

/-- These settings with LaTeX exponents. -/
def withLatex (settings : Settings) : Settings :=
  { settings with style := { settings.style with exponents := .latex } }

/-- These settings with one more positional argument. -/
def withPositional (settings : Settings) (text : List Char) : Settings :=
  { settings with positional := settings.positional ++ [text] }

/-- Reads arguments in order, on top of what was read before. The first error is the result. -/
def readMore (settings : Settings) : List (List Char) → Except ArgumentError Settings
  | [] => .ok settings
  | text :: rest =>
    match Argument.ofText text with
    | .steps => readMore { settings with showSteps := true } rest
    | .latex => readMore settings.withLatex rest
    | .help => readMore { settings with showHelp := true } rest
    | .unknown => .error (.unknownFlag text)
    | .positional => readMore (settings.withPositional text) rest
    | .precision =>
      match rest with
      | [] => .error .missingPrecision
      | value :: rest =>
        match precision? value with
        | some digits => readMore (settings.withPrecision digits) rest
        | none => .error (.invalidPrecision value)

/-- Reads the arguments of the command line. -/
def read (arguments : List (List Char)) : Except ArgumentError Settings := readMore {} arguments

end Settings

end PowerRule
