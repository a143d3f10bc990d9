import PowerRule.Proofs.PipedSession

/-!
# Sessions at a prompt

A session at a prompt and a piped one on the lines that the editor returns are always at the same
place (`SamePlace.feed`), so that they read for the same reasons, evaluate the same pairs and write
the same (`SamePlace.run`). What differs is what a session writes before it reads, and what the end
of the input leads to (`Session.run_eq_reads`). If the editor reads plain lines, the two take the
same lines (`prompt_session`).
-/

namespace PowerRule

attribute [local irreducible] twoTo tenTo

/-- What a line is read for. -/
inductive Wanted where
  | expression
  | var
deriving DecidableEq, Repr

/-- What a reader is asked with. -/
def Wanted.prompt : Wanted → List Char
  | expression => "expression> ".toList
  | var => "variable> ".toList

/-- A read of a line or of the end of the input: what it is for, and what it leads to. -/
structure Read where
  wanted : Wanted
  outputs : List Output
deriving DecidableEq, Repr

/-- What is written before and after the read. -/
def Read.written (mode : Mode) (read : Read) : List Output :=
  match mode with
  | .piped => read.outputs
  | .prompt => .standard read.wanted.prompt :: read.outputs

namespace Session

/-- What the next line is read for. After the end none is read. -/
def wanted? : Session → Option Wanted
  | atExpression _ => some .expression
  | atVariable _ _ => some .var
  | ended _ => none

/-- The expression that has no variable yet. -/
def pending? : Session → Option (List Char)
  | atExpression _ => none
  | atVariable expression _ => some expression
  | ended _ => none

/-- Nothing was wrong so far. -/
def succeeded : Session → Bool
  | atExpression ok => ok
  | atVariable _ ok => ok
  | ended ok => ok

/-- The reads of a session on these lines, the one that finds the end of the input included. -/
def reads (terminal : Terminal) (mode : Mode) (settings : Settings) (session : Session) :
    List Line → List Read
  | [] => session.wanted?.toList.map fun wanted => ⟨wanted, []⟩
  | line :: rest =>
    match session.wanted? with
    | none => []
    | some wanted =>
      ⟨wanted, (session.feed terminal mode settings line).2⟩ ::
        (session.feed terminal mode settings line).1.reads terminal mode settings rest

/-- The session after these lines. -/
def after (terminal : Terminal) (mode : Mode) (settings : Settings) (session : Session)
    (lines : List Line) : Session :=
  lines.foldl (fun session line => (session.feed terminal mode settings line).1) session

section

variable {terminal : Terminal} {mode : Mode} {settings : Settings}

/-- A session that has ended stays as it is. -/
lemma after_ended (ok : Bool) (lines : List Line) :
    (ended ok).after terminal mode settings lines = ended ok := by
  induction lines with
  | nil => rfl
  | cons line rest ih => exact ih

/-- A run is its reads, and what the end of the input leads to. -/
theorem run_eq_reads (session : Session) (lines : List Line) :
    session.run terminal mode settings lines =
      ⟨(session.reads terminal mode settings lines).flatMap (Read.written mode) ++
          ((session.after terminal mode settings lines).finish mode).outputs,
        ((session.after terminal mode settings lines).finish mode).succeeded⟩ := by
  induction lines generalizing session with
  | nil =>
    have hprompt : session.promptOutputs mode =
        (session.reads terminal mode settings []).flatMap (Read.written mode) := by
      cases mode with
      | piped => cases session <;> rfl
      | prompt => cases session <;> rfl
    rw [run_nil, hprompt]
    rfl
  | cons line rest ih =>
    cases hwanted : session.wanted? with
    | none =>
      obtain ⟨ok, rfl⟩ : ∃ ok, session = ended ok := by
        cases session with
        | atExpression ok => cases hwanted
        | atVariable expression ok => cases hwanted
        | ended ok => exact ⟨ok, rfl⟩
      rw [run_ended, after_ended]
      rfl
    | some wanted =>
      have hwritten : session.promptOutputs mode ++ (session.feed terminal mode settings line).2 =
          Read.written mode ⟨wanted, (session.feed terminal mode settings line).2⟩ := by
        cases mode with
        | piped => rfl
        | prompt =>
          cases session with
          | atExpression ok =>
            cases hwanted
            rfl
          | atVariable expression ok =>
            cases hwanted
            rfl
          | ended ok => cases hwanted
      rw [run_cons, ih, hwritten, reads, hwanted, List.flatMap_cons, List.append_assoc]
      rfl

/-- At a prompt the end of the input leads to nothing. -/
lemma finish_prompt (session : Session) : session.finish .prompt = ⟨[], session.succeeded⟩ := by
  cases session <;> rfl

/-- A piped session that ends after an expression says that its variable is missing. -/
lemma outputs_finish_piped (session : Session) :
    (session.finish .piped).outputs =
      session.pending?.toList.map fun expression =>
        .errorLine (missingVariableText expression) := by
  cases session <;> rfl

/-- It fails. -/
lemma succeeded_finish_piped {session : Session} (h : session.pending?.isSome = true) :
    (session.finish .piped).succeeded = false := by
  cases session with
  | atExpression ok => cases h
  | atVariable expression ok => rfl
  | ended ok => cases h

/-- At a prompt errors in expressions do not count. -/
lemma succeeded_feed_prompt (session : Session) (settings : Settings) (typed : List Char) :
    (session.feed terminal .prompt settings (.text typed)).1.succeeded = session.succeeded := by
  have hline : taken terminal .prompt (.text typed) = .text (terminal.edit typed) := rfl
  cases session with
  | atExpression ok =>
    rcases isExpression_cases (terminal.edit typed) with hblank | hexit | hexpression
    · rw [feed_blank hline hblank]
    · rw [feed_exit hline hexit]
      rfl
    · rw [feed_expression hline hexpression.not_blank hexpression.not_exit]
      rfl
  | atVariable expression ok =>
    rw [feed_variable expression hline]
    rfl
  | ended ok => rfl

end

end Session

/-! ## Two sessions side by side -/

/-- The two sessions read for the same reason, and have read the same expression if the next line is
its variable. Only one of them may have failed. -/
inductive SamePlace : Session → Session → Prop where
  | atExpression {ok ok' : Bool} : SamePlace (.atExpression ok) (.atExpression ok')
  | atVariable {expression : List Char} {ok ok' : Bool} :
    SamePlace (.atVariable expression ok) (.atVariable expression ok')
  | ended {ok ok' : Bool} : SamePlace (.ended ok) (.ended ok')

/-- The sessions take the two lines as the same text. -/
def SameText (terminal : Terminal) (mode mode' : Mode) (line line' : Line) : Prop :=
  ∃ text, Session.taken terminal mode line = .text text ∧
    Session.taken terminal mode' line' = .text text

namespace SamePlace

variable {terminal : Terminal} {mode mode' : Mode} {session session' : Session}

/-- At the same place the next line is read for the same reason. -/
lemma wanted?_eq (h : SamePlace session session') : session.wanted? = session'.wanted? := by
  cases h <;> rfl

/-- There the same text leads to the same evaluation. -/
lemma evaluated?_eq (h : SamePlace session session') {line line' : Line}
    (hline : SameText terminal mode mode' line line') :
    session.evaluated? terminal mode line = session'.evaluated? terminal mode' line' := by
  obtain ⟨text, htaken, htaken'⟩ := hline
  cases h with
  | atExpression => simp [Session.evaluated?]
  | atVariable => simp [Session.evaluated?, htaken, htaken']
  | ended => simp [Session.evaluated?]

/-- A line takes both to the same place, and leads to the same. -/
theorem feed (settings : Settings) (h : SamePlace session session') {line line' : Line}
    (hline : SameText terminal mode mode' line line') :
    SamePlace (session.feed terminal mode settings line).1
        (session'.feed terminal mode' settings line').1 ∧
      (session.feed terminal mode settings line).2 =
        (session'.feed terminal mode' settings line').2 := by
  obtain ⟨text, htaken, htaken'⟩ := hline
  cases h with
  | atExpression =>
    rcases isExpression_cases text with hblank | hexit | hexpression
    · rw [Session.feed_blank htaken hblank, Session.feed_blank htaken' hblank]
      exact ⟨.atExpression, rfl⟩
    · rw [Session.feed_exit htaken hexit, Session.feed_exit htaken' hexit]
      exact ⟨.ended, rfl⟩
    · rw [Session.feed_expression htaken hexpression.not_blank hexpression.not_exit,
        Session.feed_expression htaken' hexpression.not_blank hexpression.not_exit]
      exact ⟨.atVariable, rfl⟩
  | @atVariable expression =>
    rw [Session.feed_variable expression htaken, Session.feed_variable expression htaken']
    exact ⟨.atExpression, rfl⟩
  | ended => exact ⟨.ended, rfl⟩

/-- So do any number of lines: the sessions evaluate the same pairs and read for the same reasons.
-/
theorem run (settings : Settings) (h : SamePlace session session') {lines lines' : List Line}
    (hlines : List.Forall₂ (SameText terminal mode mode') lines lines') :
    session.evaluations terminal mode settings lines =
        session'.evaluations terminal mode' settings lines' ∧
      session.reads terminal mode settings lines = session'.reads terminal mode' settings lines' ∧
      SamePlace (session.after terminal mode settings lines)
        (session'.after terminal mode' settings lines') := by
  induction hlines generalizing session session' with
  | nil =>
    refine ⟨rfl, ?_, h⟩
    rw [Session.reads, Session.reads, h.wanted?_eq]
  | cons hline _ ih =>
    obtain ⟨hnext, houtputs⟩ := h.feed settings hline
    obtain ⟨hevaluations, hreads, hafter⟩ := ih hnext
    refine ⟨?_, ?_, hafter⟩
    · rw [Session.evaluations, Session.evaluations, h.evaluated?_eq hline, hevaluations]
    · rw [Session.reads, Session.reads, h.wanted?_eq, houtputs, hreads]

end SamePlace

/-! ## Lines at a prompt -/

/-- Lines that can be read. -/
def textLines (texts : List (List Char)) : List Line := texts.map .text

/-- At a prompt the typed lines are taken as a piped session takes what the editor returns. -/
lemma forall₂_sameText (terminal : Terminal) (texts : List (List Char)) :
    List.Forall₂ (SameText terminal .prompt .piped) (textLines texts)
      (textLines (texts.map terminal.edit)) := by
  rw [textLines, textLines, List.map_map, List.forall₂_map_left_iff, List.forall₂_map_right_iff,
    List.forall₂_same]
  intro text _
  exact ⟨terminal.edit text, rfl, rfl⟩

/-- No line that is typed makes a session at a prompt fail. -/
lemma Session.succeeded_after_prompt {terminal : Terminal} {settings : Settings}
    (session : Session) (texts : List (List Char)) :
    (session.after terminal .prompt settings (textLines texts)).succeeded =
      session.succeeded := by
  induction texts generalizing session with
  | nil => rfl
  | cons text rest ih => exact (ih _).trans (session.succeeded_feed_prompt settings text)

/-! ## What is written -/

/-- At a prompt the prompts are part of the standard output. -/
lemma standardText_prompt (reads : List Read) :
    Output.standardText (reads.flatMap (Read.written .prompt)) =
      reads.flatMap fun read => read.wanted.prompt ++ Output.standardText read.outputs := by
  rw [Output.standardText, List.flatMap_assoc]
  rfl

/-- A piped session writes no prompts. -/
lemma standardText_piped (reads : List Read) :
    Output.standardText (reads.flatMap (Read.written .piped)) =
      reads.flatMap fun read => Output.standardText read.outputs := by
  rw [Output.standardText, List.flatMap_assoc]
  rfl

/-- Nothing that is written before a read goes to the error output. -/
lemma errorText_written (mode : Mode) (reads : List Read) :
    Output.errorText (reads.flatMap (Read.written mode)) =
      reads.flatMap fun read => Output.errorText read.outputs := by
  rw [Output.errorText, List.flatMap_assoc]
  cases mode with
  | piped => rfl
  | prompt => rfl

section

variable (terminal : Terminal) {arguments : List (List Char)} {settings : Settings}
  (hread : Settings.read arguments = .ok settings) (hpositional : settings.positional = [])
  (hhelp : settings.showHelp = false)

include hread hpositional hhelp

/-- A run at a prompt is its reads, and succeeds. -/
lemma runProgram_prompt (texts : List (List Char)) :
    runProgram terminal .prompt arguments (textLines texts) =
      ⟨(Session.initial.reads terminal .prompt settings (textLines texts)).flatMap
        (Read.written .prompt), true⟩ := by
  rw [runProgram_session hread hpositional hhelp, Session.run_eq_reads, Session.finish_prompt,
    Session.succeeded_after_prompt, List.append_nil]
  rfl

/-- A piped run is its reads, and a line for a variable that is missing in the end. -/
lemma runProgram_piped (lines : List Line) :
    (runProgram terminal .piped arguments lines).outputs =
      (Session.initial.reads terminal .piped settings lines).flatMap (Read.written .piped) ++
        (Session.initial.after terminal .piped settings lines).pending?.toList.map
          fun expression => .errorLine (Session.missingVariableText expression) := by
  rw [runProgram_session hread hpositional hhelp, Session.run_eq_reads,
    Session.outputs_finish_piped]

/-- A piped run with a variable missing in the end fails. -/
lemma exitCode_runProgram_piped {lines : List Line}
    (hpending :
      (Session.initial.after terminal .piped settings lines).pending?.isSome = true) :
    (runProgram terminal .piped arguments lines).exitCode = 1 := by
  rw [Transcript.exitCode, runProgram_session hread hpositional hhelp, Session.run_eq_reads,
    Session.succeeded_finish_piped hpending]
  rfl

end

/-- A session at a prompt whose editor reads plain lines and a piped session on the same lines
evaluate the same pairs and read for the same reasons. At the prompt each read, of a blank line and
of the end of the input too, has its prompt before it on the standard output. The error outputs are
the same unless an expression has no variable in the end: then the piped session has one more line
and fails. At the prompt nothing fails. -/
theorem prompt_session (terminal : Terminal) {arguments : List (List Char)} {settings : Settings}
    (hread : Settings.read arguments = .ok settings) (hpositional : settings.positional = [])
    (hhelp : settings.showHelp = false) {texts : List (List Char)}
    (hplain : ∀ text ∈ texts, terminal.edit text = text) :
    Session.initial.evaluations terminal .prompt settings (textLines texts) =
      Session.initial.evaluations terminal .piped settings (textLines texts) ∧
    Session.initial.reads terminal .prompt settings (textLines texts) =
      Session.initial.reads terminal .piped settings (textLines texts) ∧
    Output.standardText (runProgram terminal .prompt arguments (textLines texts)).outputs =
      (Session.initial.reads terminal .prompt settings (textLines texts)).flatMap (fun read =>
        read.wanted.prompt ++ Output.standardText read.outputs) ∧
    Output.standardText (runProgram terminal .piped arguments (textLines texts)).outputs =
      (Session.initial.reads terminal .piped settings (textLines texts)).flatMap (fun read =>
        Output.standardText read.outputs) ∧
    (match (Session.initial.after terminal .piped settings (textLines texts)).pending? with
      | none =>
        Output.errorText (runProgram terminal .piped arguments (textLines texts)).outputs =
          Output.errorText (runProgram terminal .prompt arguments (textLines texts)).outputs
      | some expression =>
        Output.errorText (runProgram terminal .piped arguments (textLines texts)).outputs =
          Output.errorText (runProgram terminal .prompt arguments (textLines texts)).outputs ++
            Session.missingVariableText expression ++ ['\n'] ∧
        (runProgram terminal .piped arguments (textLines texts)).exitCode = 1) ∧
    (runProgram terminal .prompt arguments (textLines texts)).exitCode = 0 := by
  have hplace : SamePlace Session.initial Session.initial := .atExpression
  have htexts : texts.map terminal.edit = texts :=
    (List.map_congr_left hplain).trans (List.map_id' texts)
  have hlines := forall₂_sameText terminal texts
  rw [htexts] at hlines
  obtain ⟨hevaluations, hreads, -⟩ := hplace.run settings hlines
  have hprompt := runProgram_prompt terminal hread hpositional hhelp texts
  have hpiped := runProgram_piped terminal hread hpositional hhelp (textLines texts)
  refine ⟨hevaluations, hreads, ?_, ?_, ?_, ?_⟩
  · rw [hprompt, standardText_prompt]
  · rw [hpiped, Output.standardText_append, standardText_piped]
    cases (Session.initial.after terminal .piped settings (textLines texts)).pending? <;> simp
  · cases hpending :
        (Session.initial.after terminal .piped settings (textLines texts)).pending? with
    | none =>
      rw [hpending] at hpiped
      rw [hpiped, hprompt, errorText_written, hreads]
      simp [errorText_written]
    | some expression =>
      rw [hpending] at hpiped
      refine ⟨?_,
        exitCode_runProgram_piped terminal hread hpositional hhelp (by rw [hpending]; rfl)⟩
      rw [hpiped, hprompt, errorText_written, hreads]
      simp [errorText_written]
  · rw [hprompt]
    rfl

/-- A word that ends a session is a variable where one is read, and a last expression lacks one. -/
theorem prompt_session_pending :
    Session.initial.evaluations .plain .prompt {}
        (textLines [[], "x+".toList, "exit".toList, "x^2".toList]) =
      [("x+".toList, "exit".toList)] ∧
    Output.errorText (runProgram .plain .piped []
        (textLines [[], "x+".toList, "exit".toList, "x^2".toList])).outputs =
      Output.errorText (runProgram .plain .prompt []
          (textLines [[], "x+".toList, "exit".toList, "x^2".toList])).outputs ++
        "error: missing variable for `x^2`".toList ++ ['\n'] := by
  have hread : Settings.read [] = .ok {} := rfl
  have hplain : ∀ text ∈ [[], "x+".toList, "exit".toList, "x^2".toList],
      Terminal.plain.edit text = text := fun _ _ => rfl
  have hpending : (Session.initial.after .plain .piped {}
      (textLines [[], "x+".toList, "exit".toList, "x^2".toList])).pending? =
        some "x^2".toList := by
    decide +kernel
  obtain ⟨hevaluations, _, _, _, herror, _⟩ := prompt_session .plain hread rfl rfl hplain
  rw [hpending] at herror
  refine ⟨?_, herror.1⟩
  rw [hevaluations]
  decide +kernel

end PowerRule
