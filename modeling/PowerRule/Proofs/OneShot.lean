import PowerRule.Proofs.PipedSession

/-!
# An expression and a variable as arguments

Arguments that look like no flag are positional (`IsPositional.ofText_eq`), and arguments are read
on top of those before them (`Settings.readMore_append`). So an expression and a variable after some
flags are evaluated with these flags, as if they were the only lines of a piped session
(`oneShot_eq_piped`).
-/

namespace PowerRule

attribute [local irreducible] twoTo tenTo

/-- A text that is no flag, whatever flags there are. -/
structure IsPositional (text : List Char) : Prop where
  not_long : ¬['-', '-'] <+: text
  not_help : text ≠ "-h".toList

/-- Such a text reads as a positional argument. -/
lemma IsPositional.ofText_eq {text : List Char} (h : IsPositional text) :
    Argument.ofText text = .positional := by
  have hlong : ∀ flag, ['-', '-'] <+: flag → text ≠ flag := by
    rintro flag hflag rfl
    exact h.not_long hflag
  unfold Argument.ofText
  rw [if_neg (hlong _ (by decide)), if_neg (hlong _ (by decide)), if_neg (hlong _ (by decide)),
    if_neg (not_or.mpr ⟨h.not_help, hlong _ (by decide)⟩)]
  split
  · rename_i rest
    exact absurd (List.prefix_append ['-', '-'] rest) h.not_long
  · rfl

namespace Settings

/-- Arguments are read on top of those before them. -/
lemma readMore_append {settings settings' : Settings} {arguments : List (List Char)}
    (h : settings.readMore arguments = .ok settings') (more : List (List Char)) :
    settings.readMore (arguments ++ more) = settings'.readMore more := by
  induction settings, arguments using readMore.induct with
  | case1 settings =>
    rw [readMore] at h
    cases h
    rfl
  | case2 settings text rest hkind ih | case3 settings text rest hkind ih
  | case4 settings text rest hkind ih | case6 settings text rest hkind ih =>
    rw [readMore.eq_def] at h
    simp only [hkind] at h
    rw [List.cons_append, readMore.eq_def]
    simp only [hkind]
    exact ih h
  | case5 settings text rest hunknown =>
    rw [readMore.eq_def] at h
    simp only [hunknown] at h
    cases h
  | case7 settings text hprecision =>
    rw [readMore] at h
    simp only [hprecision] at h
    cases h
  | case8 settings text hprecision value rest digits hdigits ih =>
    rw [readMore] at h
    simp only [hprecision, hdigits] at h
    rw [List.cons_append, List.cons_append, readMore]
    simp only [hprecision, hdigits]
    exact ih h
  | case9 settings text hprecision value rest hdigits =>
    rw [readMore] at h
    simp only [hprecision, hdigits] at h
    cases h

/-- A positional argument is kept, and the reading goes on. -/
lemma readMore_positional {settings : Settings} {text : List Char} (h : IsPositional text)
    (more : List (List Char)) :
    settings.readMore (text :: more) = (settings.withPositional text).readMore more := by
  rw [readMore.eq_def]
  simp only [h.ofText_eq]

end Settings

/-- With two positional arguments there is one evaluation, and no line is read. -/
lemma runProgram_oneShot {arguments : List (List Char)} {settings : Settings}
    (hread : Settings.read arguments = .ok settings) (hpositional : settings.positional = [])
    (hhelp : settings.showHelp = false) {expression typed : List Char}
    (hexpression : IsPositional expression) (htyped : IsPositional typed) (terminal : Terminal)
    (mode : Mode) (lines : List Line) :
    runProgram terminal mode (arguments ++ [expression, typed]) lines =
      ⟨(evaluateOutputs terminal settings expression typed).1,
        (evaluateOutputs terminal settings expression typed).2⟩ := by
  have hall : Settings.read (arguments ++ [expression, typed]) =
      .ok ((settings.withPositional expression).withPositional typed) := by
    rw [Settings.read, Settings.readMore_append hread, Settings.readMore_positional hexpression,
      Settings.readMore_positional htyped, Settings.readMore]
  have hhelp' : ((settings.withPositional expression).withPositional typed).showHelp = false :=
    hhelp
  have hpositional' : ((settings.withPositional expression).withPositional typed).positional =
      [expression, typed] := by
    rw [Settings.withPositional, Settings.withPositional, hpositional]
    rfl
  rw [runProgram, Command.ofArguments, hall]
  dsimp only
  rw [hhelp', if_neg Bool.false_ne_true, hpositional']
  rfl

/-- The input of two lines is these lines, without carriage returns at their ends. -/
lemma linesOfBytes_pair {first second : List Char} (hfirst : '\n' ∉ first)
    (hsecond : '\n' ∉ second) :
    linesOfBytes (utf8Bytes (first ++ '\n' :: second ++ ['\n'])) =
      [.text (withoutReturn first), .text (withoutReturn second)] := by
  have hfeed : ∀ text, utf8Bytes ('\n' :: text) = lineFeed :: utf8Bytes text := fun _ => rfl
  rw [List.append_assoc, List.cons_append, utf8Bytes_append, hfeed, linesOfBytes_line hfirst,
    utf8Bytes_append, hfeed, linesOfBytes_line hsecond]
  rfl

/-- A carriage return makes no difference to whether a line is an expression. -/
lemma isExpression_withoutReturn {line : List Char} (hne : ∃ c ∈ line, isBlank c = false)
    (hexit : trim line ≠ "exit".toList) (hexit' : trim line ≠ ['e']) :
    IsExpression (withoutReturn line) := by
  constructor
  · rw [trim_withoutReturn, Ne, trim_eq_nil_iff]
    obtain ⟨c, hc, hblank⟩ := hne
    intro hall
    rw [hall c hc] at hblank
    cases hblank
  · rw [Session.isExit, trim_withoutReturn, Bool.or_eq_false_iff, beq_eq_false_iff_ne,
      beq_eq_false_iff_ne]
    exact ⟨hexit, hexit'⟩

/-- An expression that is neither blank nor a word that ends a session, and a variable, whatever
they hold but line feeds, may be given as arguments after some flags or as two lines of piped input.
The exit code and both outputs are the same. In both cases one pair is evaluated, up to a carriage
return at an end, and its evaluation is the same, so that an error has the same places in the same
text. All this holds however reports are drawn. -/
theorem oneShot_eq_piped {arguments : List (List Char)} {settings : Settings}
    (hread : Settings.read arguments = .ok settings) (hpositional : settings.positional = [])
    (hhelp : settings.showHelp = false) {expression typed : List Char}
    (hexpression : IsPositional expression) (htyped : IsPositional typed)
    (hline : '\n' ∉ expression) (hline' : '\n' ∉ typed)
    (hne : ∃ c ∈ expression, isBlank c = false) (hexit : trim expression ≠ "exit".toList)
    (hexit' : trim expression ≠ ['e']) (terminal : Terminal) (mode : Mode) (lines : List Line) :
    runProgram terminal mode (arguments ++ [expression, typed]) lines =
      runProgram terminal .piped arguments
        (linesOfBytes (utf8Bytes (expression ++ '\n' :: typed ++ ['\n']))) ∧
    Session.initial.evaluations terminal .piped settings
        (linesOfBytes (utf8Bytes (expression ++ '\n' :: typed ++ ['\n']))) =
      [(withoutReturn expression, withoutReturn typed)] ∧
    evaluate settings.style (removeBlanks (withoutReturn expression)) (withoutReturn typed) =
      evaluate settings.style (removeBlanks expression) typed := by
  have hlines := linesOfBytes_pair hline hline'
  have hcourse : Course [.text (withoutReturn expression), .text (withoutReturn typed)]
      [.pair (withoutReturn expression) (withoutReturn typed)] .noExpression :=
    .pair (isExpression_withoutReturn hne hexit hexit') .noExpression
  have hevaluate := evaluateOutputs_congr (removeBlanks_withoutReturn expression)
    (trim_withoutReturn typed) terminal settings
  rw [hlines]
  refine ⟨?_, Session.evaluations_of_course hcourse true, ?_⟩
  · rw [runProgram_oneShot hread hpositional hhelp hexpression htyped,
      runProgram_session hread hpositional hhelp, Session.initial, Session.run_of_course hcourse,
      ← hevaluate]
    simp [Round.outputs, Round.succeeds, Ending.error?]
  · rw [removeBlanks_withoutReturn, evaluate_congr (trim_withoutReturn typed)]

/-- Carriage returns at the ends of both make no difference. -/
theorem oneShot_eq_piped_return :
    runProgram .plain .prompt
        ["--precision".toList, "1".toList, "- x^2 + e\r".toList, " x\r".toList] [] =
      runProgram .plain .piped ["--precision".toList, "1".toList]
        (linesOfBytes (utf8Bytes "- x^2 + e\r\n x\r\n".toList)) := by
  have hread : Settings.read ["--precision".toList, "1".toList] =
      .ok { style := { precision := some 1 } } := by decide
  have hexpression : IsPositional "- x^2 + e\r".toList := ⟨by decide, by decide⟩
  have htyped : IsPositional " x\r".toList := ⟨by decide, by decide⟩
  exact (oneShot_eq_piped hread rfl rfl hexpression htyped (by decide) (by decide)
    ⟨'x', by decide, rfl⟩ (by decide) (by decide) .plain .prompt []).1

end PowerRule
