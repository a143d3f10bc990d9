import PowerRule.Session.Evaluation

/-!
# Sessions

Without positional arguments the program reads expressions and variables from alternating lines.
It does so in two modes: piped, where any failure makes the session fail, and at a prompt, where
lines come from an editor, and a reader sees the errors and goes on. A session is a state that takes
one line after another (`Session.feed`), so that a program can print what each line leads to before
it reads the next. With an expression and a variable as arguments the program evaluates them and
ends. All that it writes for given arguments and input is `runProgram`.
-/

namespace PowerRule

/-! ## Lines of input

Input is bytes. A line ends with a line feed, before which a carriage return is dropped, or with the
input. Each line has to be UTF-8 on its own.
-/

/-- A line of input, or one whose bytes are not UTF-8. -/
inductive Line where
  | text (content : List Char)
  | unreadable
deriving DecidableEq, Repr

/-- The byte that ends a line. -/
def lineFeed : UInt8 := 10

/-- The byte that may precede the end of a line. -/
def carriageReturn : UInt8 := 13

/-- The bytes of each line, with the line feed if there is one. -/
def splitLines : List UInt8 → List (List UInt8)
  | [] => []
  | b :: rest =>
    if b = lineFeed then [b] :: splitLines rest
    else
      match splitLines rest with
      | [] => [[b]]
      | line :: lines => (b :: line) :: lines

/-- The bytes of a line without its end. -/
def lineContent (bytes : List UInt8) : List UInt8 :=
  match bytes.reverse with
  | b :: c :: before =>
    if b = lineFeed then
      if c = carriageReturn then before.reverse else (c :: before).reverse
    else bytes
  | [b] => if b = lineFeed then [] else bytes
  | [] => []

/-- Reads the bytes of a line. -/
def Line.ofBytes (bytes : List UInt8) : Line :=
  match String.fromUTF8? ⟨(lineContent bytes).toArray⟩ with
  | some s => .text s.toList
  | none => .unreadable

/-- The lines of an input. -/
def linesOfBytes (bytes : List UInt8) : List Line := (splitLines bytes).map Line.ofBytes

/-! ## Reading line after line -/

/-- How lines come in. -/
inductive Mode where
  | piped
  | prompt
deriving DecidableEq, Repr

/-- Where a session is, and whether it has succeeded so far. -/
inductive Session where
  | atExpression (succeeded : Bool)
  | atVariable (expression : List Char) (succeeded : Bool)
  | ended (succeeded : Bool)
deriving DecidableEq, Repr

/-- What a run of the program writes, and whether it succeeds. -/
structure Transcript where
  outputs : List Output
  succeeded : Bool
deriving DecidableEq, Repr

/-- The exit code of a run. -/
def Transcript.exitCode (t : Transcript) : Nat := if t.succeeded then 0 else 1

namespace Session

/-- A session that has read nothing. -/
def initial : Session := atExpression true

/-- The line ends the session. -/
def isExit (line : List Char) : Bool :=
  trim line == "exit".toList || trim line == ['e']

/-- What is written before a line is read. -/
def promptOutputs (mode : Mode) (session : Session) : List Output :=
  match mode, session with
  | .prompt, atExpression _ => [.standard "expression> ".toList]
  | .prompt, atVariable _ _ => [.standard "variable> ".toList]
  | _, _ => []

/-- Why a line cannot be read. -/
def unreadableText (mode : Mode) : List Char :=
  let reason := "stream did not contain valid UTF-8".toList
  match mode with
  | .piped => "error: could not read input: ".toList ++ reason
  | .prompt => reason

/-- Why an expression on the last line cannot be evaluated. -/
def missingVariableText (expression : List Char) : List Char :=
  "error: missing variable for `".toList ++ trim expression ++ "`".toList

/-- Whether the session still succeeds after an evaluation. -/
def stillSucceeds (mode : Mode) (before evaluated : Bool) : Bool :=
  match mode with
  | .piped => before && evaluated
  | .prompt => before

/-- A line as the session takes it: at a prompt, what the editor makes of it. -/
def taken (terminal : Terminal) (mode : Mode) (line : Line) : Line :=
  match mode, line with
  | .prompt, .text typed => .text (terminal.edit typed)
  | _, line => line

/-- Takes a line: the session after it, and what it leads to. -/
def feed (terminal : Terminal) (mode : Mode) (settings : Settings) (session : Session)
    (line : Line) : Session × List Output :=
  match session, taken terminal mode line with
  | ended ok, _ => (ended ok, [])
  | _, .unreadable => (ended false, [.errorLine (unreadableText mode)])
  | atExpression ok, .text expression =>
    if (trim expression).isEmpty then (atExpression ok, [])
    else if isExit expression then (ended ok, [])
    else (atVariable expression ok, [])
  | atVariable expression ok, .text typed =>
    let (outputs, evaluated) := evaluateOutputs terminal settings expression typed
    (atExpression (stillSucceeds mode ok evaluated), outputs)

/-- What the end of the input leads to. -/
def finish (mode : Mode) : Session → Transcript
  | atExpression ok => ⟨[], ok⟩
  | ended ok => ⟨[], ok⟩
  | atVariable expression ok =>
    match mode with
    | .prompt => ⟨[], ok⟩
    | .piped => ⟨[.errorLine (missingVariableText expression)], false⟩

/-- The rest of a session on the rest of the lines. After its end no line is read. -/
def run (terminal : Terminal) (mode : Mode) (settings : Settings) (session : Session)
    (lines : List Line) : Transcript :=
  match session, lines with
  | ended ok, _ => ⟨[], ok⟩
  | session, [] =>
    let last := session.finish mode
    ⟨session.promptOutputs mode ++ last.outputs, last.succeeded⟩
  | session, line :: rest =>
    let (next, outputs) := session.feed terminal mode settings line
    let later := next.run terminal mode settings rest
    ⟨session.promptOutputs mode ++ outputs ++ later.outputs, later.succeeded⟩

end Session

/-! ## The command line -/

/-- How the program is called. -/
def usage : List Char :=
  ("usage: deriv-repl [--steps] [--latex] [--precision <digits>] " ++
    "[<expression> <variable>]").toList

/-- What the arguments lead to. -/
inductive Command where
  /-- All that the program does. -/
  | finished (transcript : Transcript)
  /-- A session with these settings. -/
  | session (settings : Settings)
deriving DecidableEq, Repr

/-- A failure that shows how the program is called. -/
def usageError (message : List Char) : Transcript :=
  ⟨[.errorLine ("error: ".toList ++ message), .errorLine usage], false⟩

/-- What the program does with its arguments. -/
def Command.ofArguments (terminal : Terminal) (arguments : List (List Char)) : Command :=
  match Settings.read arguments with
  | .error e => .finished (usageError e.message)
  | .ok settings =>
    if settings.showHelp then .finished ⟨[.line usage], true⟩
    else
      match settings.positional with
      | [expression, typed] =>
        let (outputs, succeeded) := evaluateOutputs terminal settings expression typed
        .finished ⟨outputs, succeeded⟩
      | [] => .session settings
      | _ => .finished (usageError "expected an expression and a variable".toList)

/-- A whole run of the program on its arguments and its input. -/
def runProgram (terminal : Terminal) (mode : Mode) (arguments : List (List Char))
    (lines : List Line) : Transcript :=
  match Command.ofArguments terminal arguments with
  | .finished transcript => transcript
  | .session settings => Session.initial.run terminal mode settings lines

end PowerRule
