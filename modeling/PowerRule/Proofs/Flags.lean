import PowerRule.Proofs.Trace
import PowerRule.Proofs.PromptSession

/-!
# What flags can change

What a run comes to is a list of events (`Event`): it asks for a line, evaluates a pair, or refuses
something. Which events these are depends on the positional arguments and the input alone; flags
decide how an event is written, and nothing else (`runProgram_eq_events`). So runs with different
flags succeed alike and report the same errors, in the same order, however reports are drawn. To the
error output a flag can only add the steps of evaluations that succeed, each in its place; the steps
that were recorded before a failure are not written (`recorded`).
-/

namespace PowerRule

attribute [local irreducible] twoTo tenTo

/-! ## Evaluations -/

/-- The variable of an evaluation and the steps that are recorded on its way to a derivative, or
what is wrong. -/
def recorded (text typed : List Char) : Except EvaluationError (Char × List Step) :=
  if text.isEmpty then .error .emptyExpression
  else
    match typedVariable? typed with
    | none => .error (.invalidVariable (trim typed))
    | some var =>
      match deriveInto .recording [] var text with
      | (_, .error e) => .error (.malformed e)
      | (steps, .ok _) => .ok (var, steps)

/-- In any style, an evaluation has the recorded steps or the same error. -/
lemma evaluate_recorded (style : Style) (text typed : List Char) :
    (evaluate style text typed).map (fun e => (e.var, e.steps)) = recorded text typed := by
  unfold evaluate recorded
  split
  · rfl
  · cases typedVariable? typed with
    | none => rfl
    | some var =>
      dsimp only
      rw [deriveInto_eq, Collector.pushAll_recording, List.nil_append]
      cases (derive var text).result with
      | error e => rfl
      | ok p => rfl

/-! ## Events -/

/-- What happens in a run. -/
inductive Event where
  /-- A line is asked for. -/
  | asked (wanted : Wanted)
  /-- An expression and a variable, as typed, are evaluated. -/
  | evaluated (expression typed : List Char)
  /-- Something other than an evaluation fails. -/
  | refused (message : List Char)
deriving DecidableEq, Repr

namespace Event

/-- All that is written. -/
def outputs (terminal : Terminal) (settings : Settings) : Event → List Output
  | asked wanted => [.standard wanted.prompt]
  | evaluated expression typed => (evaluateOutputs terminal settings expression typed).1
  | refused message => [.errorLine message]

/-- The pair that is evaluated. -/
def pair? : Event → Option (List Char × List Char)
  | evaluated expression typed => some (expression, typed)
  | _ => none

/-- The lines for the steps of an evaluation that succeeds. -/
def stepLines : Event → List (List Char)
  | evaluated expression typed =>
    match recorded (removeBlanks expression) typed with
    | .ok (var, steps) => steps.map fun step => "  ".toList ++ step.describe var
    | .error _ => []
  | _ => []

/-- The line or the report for what is wrong, if anything is. -/
def failureText (terminal : Terminal) : Event → List Char
  | asked _ => []
  | evaluated expression typed =>
    match recorded (removeBlanks expression) typed with
    | .ok _ => []
    | .error e => e.printed terminal (removeBlanks expression)
  | refused message => message ++ ['\n']

/-- What goes to the error output, with the steps or without. -/
def errorText (terminal : Terminal) (showSteps : Bool) (event : Event) : List Char :=
  (if showSteps then event.stepLines else []).flatMap (· ++ ['\n']) ++
    event.failureText terminal

/-- What goes to the standard output. -/
def standardText (style : Style) : Event → List Char
  | asked wanted => wanted.prompt
  | evaluated expression typed =>
    match evaluate style (removeBlanks expression) typed with
    | .ok evaluation => evaluation.resultLine ++ ['\n']
    | .error _ => []
  | refused _ => []

end Event

/-- Lines for the standard error are written there, each with a line feed. -/
lemma errorText_map_errorLine (texts : List (List Char)) :
    Output.errorText (texts.map Output.errorLine) = texts.flatMap (· ++ ['\n']) := by
  rw [Output.errorText, List.flatMap_map]
  rfl

/-- Nothing of them is written to the standard output. -/
lemma standardText_map_errorLine (texts : List (List Char)) :
    Output.standardText (texts.map Output.errorLine) = [] := by
  rw [Output.standardText, List.flatMap_map, List.flatMap_eq_nil_iff]
  intro text _
  rfl

section

variable (terminal : Terminal) (settings : Settings) {expression typed : List Char}

/-- In any style, an evaluation that fails prints what is wrong, and nothing else. -/
lemma evaluateOutputs_of_error {e : EvaluationError}
    (h : recorded (removeBlanks expression) typed = .error e) :
    evaluate settings.style (removeBlanks expression) typed = .error e ∧
      evaluateOutputs terminal settings expression typed =
        ([.error (e.printed terminal (removeBlanks expression))], false) := by
  rw [← evaluate_recorded settings.style] at h
  rw [evaluateOutputs]
  cases hevaluate : evaluate settings.style (removeBlanks expression) typed with
  | error e' =>
    rw [hevaluate] at h
    cases h
    exact ⟨rfl, rfl⟩
  | ok evaluation =>
    rw [hevaluate] at h
    cases h

/-- An evaluation that succeeds writes its steps, if they are shown, and its result. -/
lemma evaluateOutputs_of_ok {var : Char} {steps : List Step}
    (h : recorded (removeBlanks expression) typed = .ok (var, steps)) :
    ∃ evaluation, evaluate settings.style (removeBlanks expression) typed = .ok evaluation ∧
      evaluateOutputs terminal settings expression typed =
        ((if settings.showSteps then
            (steps.map fun step => "  ".toList ++ step.describe var).map Output.errorLine
          else []) ++ [.line evaluation.resultLine], true) := by
  rw [← evaluate_recorded settings.style] at h
  rw [evaluateOutputs]
  cases hevaluate : evaluate settings.style (removeBlanks expression) typed with
  | error e =>
    rw [hevaluate] at h
    cases h
  | ok evaluation =>
    rw [hevaluate] at h
    cases h
    rw [List.map_map]
    exact ⟨evaluation, rfl, rfl⟩

/-- Flags do not decide whether an evaluation succeeds. -/
lemma succeeds_evaluateOutputs (expression typed : List Char) :
    (evaluateOutputs terminal settings expression typed).2 =
      (recorded (removeBlanks expression) typed).isOk := by
  cases h : recorded (removeBlanks expression) typed with
  | error e =>
    rw [(evaluateOutputs_of_error terminal settings h).2]
    rfl
  | ok steps =>
    obtain ⟨evaluation, _, houtputs⟩ := evaluateOutputs_of_ok terminal settings h
    rw [houtputs]
    rfl

end

namespace Event

variable (terminal : Terminal) (settings : Settings) (event : Event)

/-- To the error output an event writes its steps, if they are shown, and its failure. -/
lemma errorText_outputs :
    Output.errorText (event.outputs terminal settings) =
      event.errorText terminal settings.showSteps := by
  cases event with
  | asked wanted => cases hsteps : settings.showSteps <;> rfl
  | refused message =>
    have hmessage : Output.errorText [.errorLine message] = message ++ ['\n'] :=
      Output.errorText_errorLine message
    cases hsteps : settings.showSteps <;> exact hmessage
  | evaluated expression typed =>
    rw [outputs, errorText, stepLines, failureText]
    cases h : recorded (removeBlanks expression) typed with
    | error e =>
      rw [(evaluateOutputs_of_error terminal settings h).2, ite_self]
      exact List.append_nil _
    | ok recording =>
      obtain ⟨evaluation, _, houtputs⟩ := evaluateOutputs_of_ok terminal settings h
      have hline : Output.errorText [Output.line evaluation.resultLine] = [] := rfl
      rw [houtputs, Output.errorText_append, hline, List.append_nil, List.append_nil]
      cases settings.showSteps with
      | false => rfl
      | true => exact errorText_map_errorLine _

/-- To the standard output it writes what depends on the style only. -/
lemma standardText_outputs :
    Output.standardText (event.outputs terminal settings) = event.standardText settings.style := by
  cases event with
  | asked wanted => exact List.append_nil _
  | refused message => rfl
  | evaluated expression typed =>
    rw [outputs, standardText]
    cases h : recorded (removeBlanks expression) typed with
    | error e =>
      obtain ⟨hevaluate, houtputs⟩ := evaluateOutputs_of_error terminal settings h
      rw [hevaluate, houtputs]
      rfl
    | ok recording =>
      obtain ⟨evaluation, hevaluate, houtputs⟩ := evaluateOutputs_of_ok terminal settings h
      rw [hevaluate, houtputs, Output.standardText_append, Output.standardText_line]
      split
      · rw [standardText_map_errorLine, List.nil_append]
      · rfl

/-- So do any number of events, to the error output. -/
lemma errorText_flatMap_outputs (events : List Event) :
    Output.errorText (events.flatMap (outputs terminal settings)) =
      events.flatMap (errorText terminal settings.showSteps) := by
  rw [Output.errorText, List.flatMap_assoc]
  exact List.flatMap_congr fun event _ => event.errorText_outputs terminal settings

/-- So do any number of events, to the standard output. -/
lemma standardText_flatMap_outputs (events : List Event) :
    Output.standardText (events.flatMap (outputs terminal settings)) =
      events.flatMap (standardText settings.style) := by
  rw [Output.standardText, List.flatMap_assoc]
  exact List.flatMap_congr fun event _ => event.standardText_outputs terminal settings

end Event

/-! ## Sessions -/

namespace Session

/-- The session after a line, whatever the flags. -/
def next (terminal : Terminal) (mode : Mode) (session : Session) (line : Line) : Session :=
  (session.feed terminal mode {} line).1

/-- What happens when a line is taken. -/
def lineEvents (terminal : Terminal) (mode : Mode) (session : Session) (line : Line) :
    List Event :=
  match session, taken terminal mode line with
  | ended _, _ => []
  | _, .unreadable => [.refused (unreadableText mode)]
  | atExpression _, .text _ => []
  | atVariable expression _, .text typed => [.evaluated expression typed]

/-- What happens before a line is taken. -/
def askedEvents (mode : Mode) (session : Session) : List Event :=
  match mode with
  | .piped => []
  | .prompt => session.wanted?.toList.map .asked

/-- What happens at the end of the input. -/
def finalEvents (mode : Mode) (session : Session) : List Event :=
  match mode with
  | .piped =>
    session.pending?.toList.map fun expression => .refused (missingVariableText expression)
  | .prompt => []

/-- What happens in a session on these lines. -/
def events (terminal : Terminal) (mode : Mode) (session : Session) : List Line → List Event
  | [] => session.askedEvents mode ++ session.finalEvents mode
  | line :: rest =>
    session.askedEvents mode ++ session.lineEvents terminal mode line ++
      (session.next terminal mode line).events terminal mode rest

/-- Whether a session on these lines succeeds. -/
def succeedsOn (terminal : Terminal) (mode : Mode) (session : Session) (lines : List Line) :
    Bool :=
  ((lines.foldl (next terminal mode) session).finish mode).succeeded

section

variable {terminal : Terminal} {mode : Mode} {settings : Settings}

/-- A line leads to the same place whatever the flags are. -/
lemma feed_eq_events (session : Session) (line : Line) :
    session.feed terminal mode settings line =
      (session.next terminal mode line,
        (session.lineEvents terminal mode line).flatMap (Event.outputs terminal settings)) := by
  unfold next feed lineEvents
  cases taken terminal mode line with
  | unreadable =>
    cases session with
    | atExpression ok => rfl
    | atVariable expression ok => rfl
    | ended ok => rfl
  | text text =>
    cases session with
    | ended ok => rfl
    | atExpression ok =>
      dsimp only
      split
      · rfl
      · split
        · rfl
        · rfl
    | atVariable expression ok =>
      dsimp only
      rw [succeeds_evaluateOutputs, succeeds_evaluateOutputs, List.flatMap_singleton]
      rfl

/-- What is written before a line is what happens then. -/
lemma promptOutputs_eq_events (session : Session) :
    session.promptOutputs mode =
      (session.askedEvents mode).flatMap (Event.outputs terminal settings) := by
  cases mode with
  | piped => cases session <;> rfl
  | prompt => cases session <;> rfl

/-- What is written at the end of the input is what happens then. -/
lemma finish_eq_events (session : Session) :
    (session.finish mode).outputs =
      (session.finalEvents mode).flatMap (Event.outputs terminal settings) := by
  cases mode with
  | piped => cases session <;> rfl
  | prompt => cases session <;> rfl

/-- A session is its events, written with the flags. -/
theorem run_eq_events (session : Session) (lines : List Line) :
    session.run terminal mode settings lines =
      ⟨(session.events terminal mode lines).flatMap (Event.outputs terminal settings),
        session.succeedsOn terminal mode lines⟩ := by
  induction lines generalizing session with
  | nil =>
    rw [run_nil, promptOutputs_eq_events, finish_eq_events, events, List.flatMap_append]
    rfl
  | cons line rest ih =>
    rw [run_cons, feed_eq_events, ih, promptOutputs_eq_events, events, List.flatMap_append,
      List.flatMap_append]
    rfl

/-- A line leads to the evaluation of one pair or of none. -/
lemma pair?_lineEvents (session : Session) (line : Line) :
    (session.lineEvents terminal mode line).filterMap Event.pair? =
      (session.evaluated? terminal mode line).toList := by
  unfold lineEvents evaluated?
  cases taken terminal mode line with
  | unreadable => cases session <;> rfl
  | text text => cases session <;> rfl

/-- Nothing is evaluated when a line is asked for. -/
lemma pair?_askedEvents (session : Session) :
    (session.askedEvents mode).filterMap Event.pair? = [] := by
  cases mode with
  | piped => rfl
  | prompt => cases session <;> rfl

/-- Nothing is evaluated at the end of the input. -/
lemma pair?_finalEvents (session : Session) :
    (session.finalEvents mode).filterMap Event.pair? = [] := by
  cases mode with
  | piped => cases session <;> rfl
  | prompt => rfl

/-- Among the events are all evaluations of the session. -/
lemma pair?_events (session : Session) (lines : List Line) :
    (session.events terminal mode lines).filterMap Event.pair? =
      session.evaluations terminal mode settings lines := by
  induction lines generalizing session with
  | nil =>
    rw [events, List.filterMap_append, pair?_askedEvents, pair?_finalEvents]
    rfl
  | cons line rest ih =>
    rw [events, List.filterMap_append, List.filterMap_append, pair?_askedEvents,
      pair?_lineEvents, ih, evaluations, feed_eq_events]
    rfl

end

end Session

/-! ## Runs -/

/-- What happens in a run without help, for its positional arguments and its input. -/
def programEvents (terminal : Terminal) (mode : Mode) (positional : List (List Char))
    (lines : List Line) : List Event :=
  match positional with
  | [expression, typed] => [.evaluated expression typed]
  | [] => Session.initial.events terminal mode lines
  | _ => [.refused "error: expected an expression and a variable".toList, .refused usage]

/-- Whether such a run succeeds. -/
def programSucceeds (terminal : Terminal) (mode : Mode) (positional : List (List Char))
    (lines : List Line) : Bool :=
  match positional with
  | [expression, typed] => (recorded (removeBlanks expression) typed).isOk
  | [] => Session.initial.succeedsOn terminal mode lines
  | _ => false

section

variable {arguments : List (List Char)} {settings : Settings}
  (hread : Settings.read arguments = .ok settings) (hhelp : settings.showHelp = false)
  (terminal : Terminal) (mode : Mode) (lines : List Line)

include hread hhelp

/-- A run is its events, written with the flags. -/
theorem runProgram_eq_events :
    runProgram terminal mode arguments lines =
      ⟨(programEvents terminal mode settings.positional lines).flatMap
        (Event.outputs terminal settings),
        programSucceeds terminal mode settings.positional lines⟩ := by
  rw [runProgram, Command.ofArguments, hread]
  dsimp only
  rw [if_neg (ne_true_of_eq_false hhelp)]
  rcases settings.positional with _ | ⟨expression, _ | ⟨typed, _ | ⟨third, rest⟩⟩⟩
  · exact Session.run_eq_events _ _
  · rfl
  · dsimp only [programEvents, programSucceeds]
    rw [← succeeds_evaluateOutputs terminal settings, List.flatMap_singleton]
    rfl
  · rfl

/-- To the error output a run writes its failures, and steps if they are shown. -/
lemma errorText_runProgram :
    Output.errorText (runProgram terminal mode arguments lines).outputs =
      (programEvents terminal mode settings.positional lines).flatMap
        (Event.errorText terminal settings.showSteps) := by
  rw [runProgram_eq_events hread hhelp, Event.errorText_flatMap_outputs]

/-- To the standard output a run writes what depends on the style only. -/
lemma standardText_runProgram :
    Output.standardText (runProgram terminal mode arguments lines).outputs =
      (programEvents terminal mode settings.positional lines).flatMap
        (Event.standardText settings.style) := by
  rw [runProgram_eq_events hread hhelp, Event.standardText_flatMap_outputs]

end

/-- Two runs with different flags, but the same positional arguments and input. They exit alike. The
same happens in both, the pairs that a session evaluates included, and an evaluation has the same
error, with the same places, in any style. Each run writes what happens: to the error output the
line or the report of each failure, and with the steps one line for each recorded step of the
evaluations that succeed; to the standard output what does not depend on whether the steps are
shown. -/
theorem runProgram_flags {arguments arguments' : List (List Char)} {settings settings' : Settings}
    (hread : Settings.read arguments = .ok settings) (hhelp : settings.showHelp = false)
    (hread' : Settings.read arguments' = .ok settings') (hhelp' : settings'.showHelp = false)
    (hpositional : settings'.positional = settings.positional) (terminal : Terminal) (mode : Mode)
    (lines : List Line) :
    (runProgram terminal mode arguments' lines).exitCode =
      (runProgram terminal mode arguments lines).exitCode ∧
    (settings.positional = [] →
      (programEvents terminal mode settings.positional lines).filterMap Event.pair? =
        Session.initial.evaluations terminal mode settings lines) ∧
    (∀ style text typed,
      (evaluate style text typed).map (fun e => (e.var, e.steps)) = recorded text typed) ∧
    Output.errorText (runProgram terminal mode arguments lines).outputs =
      (programEvents terminal mode settings.positional lines).flatMap
        (Event.errorText terminal settings.showSteps) ∧
    Output.errorText (runProgram terminal mode arguments' lines).outputs =
      (programEvents terminal mode settings.positional lines).flatMap
        (Event.errorText terminal settings'.showSteps) ∧
    Output.standardText (runProgram terminal mode arguments lines).outputs =
      (programEvents terminal mode settings.positional lines).flatMap
        (Event.standardText settings.style) ∧
    (settings'.style = settings.style →
      Output.standardText (runProgram terminal mode arguments' lines).outputs =
        Output.standardText (runProgram terminal mode arguments lines).outputs) := by
  refine ⟨?_, ?_, evaluate_recorded, errorText_runProgram hread hhelp terminal mode lines, ?_,
    standardText_runProgram hread hhelp terminal mode lines, ?_⟩
  · rw [Transcript.exitCode, Transcript.exitCode, runProgram_eq_events hread hhelp,
      runProgram_eq_events hread' hhelp', hpositional]
  · intro hnone
    rw [hnone]
    exact Session.pair?_events _ _
  · rw [errorText_runProgram hread' hhelp', hpositional]
  · intro hstyle
    rw [standardText_runProgram hread hhelp, standardText_runProgram hread' hhelp', hpositional,
      hstyle]

/-- A pair that can be differentiated and one that overflows, after a step that is recorded. -/
def overflowingLines : List Line :=
  [.text "x^12".toList, .text ['x'], .text (huge ++ "x^2".toList), .text ['x']]

/-- The recorded step of the overflow is not written. -/
theorem runProgram_flags_overflow :
    (runProgram .plain .piped ["--precision".toList, ['0']] overflowingLines).exitCode =
      (runProgram .plain .piped ["--steps".toList, "--latex".toList] overflowingLines).exitCode ∧
    Output.errorText
        (runProgram .plain .piped ["--steps".toList, "--latex".toList] overflowingLines).outputs =
      "  power rule: x^12 -> 12x^11\nError: coefficient overflow\n".toList ∧
    Output.errorText
        (runProgram .plain .piped ["--precision".toList, ['0']] overflowingLines).outputs =
      "Error: coefficient overflow\n".toList ∧
    (deriveInto .recording [] 'x' (huge ++ "x^2".toList)).1.length = 1 := by
  have hread : Settings.read ["--steps".toList, "--latex".toList] =
      .ok { style := { exponents := .latex }, showSteps := true } := by decide
  have hread' : Settings.read ["--precision".toList, ['0']] =
      .ok { style := { precision := some 0 } } := by decide
  obtain ⟨hexit, _, _, hsteps, herrors, _, _⟩ :=
    runProgram_flags hread rfl hread' rfl rfl .plain .piped overflowingLines
  refine ⟨hexit, ?_, ?_, ?_⟩
  · rw [hsteps]
    decide +kernel
  · rw [herrors]
    decide +kernel
  · decide +kernel

end PowerRule
