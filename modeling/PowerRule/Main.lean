import PowerRule.Session.Basic

/-!
# The program

Prints what a run of the program writes. Each line of input is read only when the session needs it.
-/

namespace PowerRule

/-- Prints to the two outputs. -/
def printOutputs (outputs : List Output) : IO Unit := do
  for output in outputs do
    match output with
    | .standard text =>
      let stdout ← IO.getStdout
      stdout.putStr (String.ofList text)
      stdout.flush
    | .error text => (← IO.getStderr).putStr (String.ofList text)

/-- The bytes of the next line, none at the end of the input. -/
partial def readLineBytes (input : IO.FS.Stream) (before : List UInt8) : IO (List UInt8) := do
  match (← input.read 1).toList with
  | [b] => if b = lineFeed then return (b :: before).reverse else readLineBytes input (b :: before)
  | _ => return before.reverse

/-- The rest of a session. -/
partial def serve (mode : Mode) (settings : Settings) (session : Session) : IO Bool := do
  match session with
  | .ended succeeded => return succeeded
  | _ =>
    printOutputs (session.promptOutputs mode)
    match ← readLineBytes (← IO.getStdin) [] with
    | [] =>
      let last := session.finish mode
      printOutputs last.outputs
      return last.succeeded
    | bytes =>
      let (next, outputs) := session.feed .plain mode settings (Line.ofBytes bytes)
      printOutputs outputs
      serve mode settings next

end PowerRule

open PowerRule in
/-- Runs the program; its exit code is zero if it succeeds. -/
def main (arguments : List String) : IO UInt32 := do
  let succeeded ← match Command.ofArguments .plain (arguments.map String.toList) with
    | .finished transcript => do
      printOutputs transcript.outputs
      pure transcript.succeeded
    | .session settings => do
      let mode := if ← (← IO.getStdin).isTty then Mode.prompt else .piped
      serve mode settings .initial
  return if succeeded then 0 else 1
