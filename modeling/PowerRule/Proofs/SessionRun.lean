import Mathlib.Data.List.Basic
import Mathlib.Data.List.TakeWhile
import Mathlib.Tactic.Lemma
import PowerRule.Session.Basic

/-!
# Lines and runs of a session

The bytes of an input are divided into lines, and a session takes them one after the other.
-/

namespace PowerRule

/-! ## Lines of an input

An input that ends with a line feed and what follows it have their lines apart
(`linesOfBytes_append`). A text without a line feed, written in UTF-8 and with a line feed after it,
is one line, which is read as the text without a carriage return at its end (`linesOfBytes_line`).
That is blank, so who does not look at blanks does not miss it.
-/

/-- The text in UTF-8. -/
def utf8Bytes (text : List Char) : List UInt8 := text.flatMap String.utf8EncodeChar

/-- The text without a carriage return at its end. -/
def withoutReturn (text : List Char) : List Char :=
  if text.getLast? = some '\r' then text.dropLast else text

/-! ### Bytes of characters -/

/-- A byte below 128 is a character of its own. -/
lemma toNat_of_mem_utf8EncodeChar {b : UInt8} {c : Char} (h : b ∈ String.utf8EncodeChar c)
    (hb : b.toNat < 128) : c.toNat = b.toNat := by
  have hc : c.toNat = c.val.toNat := rfl
  unfold String.utf8EncodeChar at h
  dsimp only at h
  -- The bytes of a character of more than one byte all have their highest bit set.
  split_ifs at h
  · rw [List.mem_singleton.mp h, UInt8.toNat_ofNat']
    omega
  all_goals
    simp only [List.mem_cons, List.not_mem_nil, or_false] at h
    rcases h with rfl | rfl | rfl | rfl <;> rw [UInt8.toNat_ofNat'] at hb <;> omega

/-- A byte of an ASCII character stands for it and nothing else. -/
lemma eq_of_mem_utf8EncodeChar {c d : Char} (hd : d.toNat < 128)
    (h : d.toNat.toUInt8 ∈ String.utf8EncodeChar c) : c = d := by
  have hbyte : d.toNat.toUInt8.toNat = d.toNat := by
    rw [Nat.toUInt8_eq, UInt8.toNat_ofNat']
    omega
  apply Char.toNat_inj.mp
  rw [toNat_of_mem_utf8EncodeChar h (by omega), hbyte]

/-- A text without a line feed has none in its bytes. -/
lemma notMem_utf8Bytes {text : List Char} (h : '\n' ∉ text) : lineFeed ∉ utf8Bytes text := by
  intro hmem
  obtain ⟨c, hc, hbyte⟩ := List.mem_flatMap.mp hmem
  have heq : c = '\n' := eq_of_mem_utf8EncodeChar (by decide) hbyte
  exact h (heq ▸ hc)

/-- The bytes of two texts are those of both. -/
lemma utf8Bytes_append (s t : List Char) : utf8Bytes (s ++ t) = utf8Bytes s ++ utf8Bytes t :=
  List.flatMap_append

/-- The bytes of a text are read as that text. -/
lemma fromUTF8?_utf8Bytes (text : List Char) :
    String.fromUTF8? ⟨(utf8Bytes text).toArray⟩ = some (String.ofList text) := by
  have hbytes : (⟨(utf8Bytes text).toArray⟩ : ByteArray) = text.utf8Encode := by
    apply ByteArray.ext
    rw [List.utf8Encode, List.data_toByteArray]
    rfl
  rw [hbytes, String.fromUTF8?, dif_pos (ByteArray.isValidUTF8_utf8Encode)]
  rfl

/-! ### Lines -/

/-- A line feed at the start is a line. -/
lemma splitLines_cons_lineFeed (rest : List UInt8) :
    splitLines (lineFeed :: rest) = [lineFeed] :: splitLines rest := by
  rw [splitLines, if_pos rfl]

/-- Bytes up to a line feed are a line. -/
lemma splitLines_line {bytes : List UInt8} (h : lineFeed ∉ bytes) (rest : List UInt8) :
    splitLines (bytes ++ lineFeed :: rest) = (bytes ++ [lineFeed]) :: splitLines rest := by
  induction bytes with
  | nil => exact splitLines_cons_lineFeed rest
  | cons b bytes ih =>
    obtain ⟨hb, hbytes⟩ := not_or.mp (List.mem_cons.not.mp h)
    rw [List.cons_append, splitLines, if_neg (Ne.symm hb), ih hbytes]
    rfl

/-- Before the line feed, one carriage return is left out. -/
lemma lineContent_append_lineFeed (bytes : List UInt8) :
    lineContent (bytes ++ [lineFeed]) =
      if bytes.getLast? = some carriageReturn then bytes.dropLast else bytes := by
  rcases List.eq_nil_or_concat' bytes with rfl | ⟨before, b, rfl⟩
  · rfl
  · rw [lineContent, List.reverse_append, List.reverse_append, List.getLast?_concat,
      List.dropLast_concat]
    simp [Option.some.injEq]

/-- The bytes of a line are those of its text, without a carriage return at the end. -/
lemma lineContent_utf8Bytes (text : List Char) :
    lineContent (utf8Bytes text ++ [lineFeed]) = utf8Bytes (withoutReturn text) := by
  rw [lineContent_append_lineFeed]
  rcases List.eq_nil_or_concat' text with rfl | ⟨before, c, rfl⟩
  · rfl
  by_cases hc : c = '\r'
  · subst hc
    have hbytes : utf8Bytes (before ++ ['\r']) = utf8Bytes before ++ [carriageReturn] :=
      utf8Bytes_append before ['\r']
    rw [hbytes, if_pos List.getLast?_concat, List.dropLast_concat, withoutReturn,
      if_pos List.getLast?_concat, List.dropLast_concat]
  · -- The last byte belongs to the last character, which is not a carriage return.
    have hlast : (utf8Bytes (before ++ [c])).getLast? ≠ some carriageReturn := by
      intro hlast
      have hbytes : utf8Bytes (before ++ [c]) = utf8Bytes before ++ String.utf8EncodeChar c := by
        rw [utf8Bytes_append]
        exact congrArg _ (List.append_nil _)
      rw [hbytes, List.getLast?_append_of_ne_nil _ String.utf8EncodeChar_ne_nil] at hlast
      exact hc (eq_of_mem_utf8EncodeChar (by decide) (List.mem_of_getLast? hlast))
    have htext : (before ++ [c]).getLast? ≠ some '\r' := by
      rw [List.getLast?_concat]
      exact fun h => hc (Option.some.inj h)
    rw [if_neg hlast, withoutReturn, if_neg htext]

/-- A text with a line feed after it is a line. -/
theorem linesOfBytes_line {text : List Char} (h : '\n' ∉ text) (rest : List UInt8) :
    linesOfBytes (utf8Bytes text ++ lineFeed :: rest) =
      .text (withoutReturn text) :: linesOfBytes rest := by
  rw [linesOfBytes, splitLines_line (notMem_utf8Bytes h), List.map_cons, Line.ofBytes,
    lineContent_utf8Bytes, fromUTF8?_utf8Bytes]
  dsimp only
  rw [String.toList_ofList]
  rfl

/-! ### Blanks -/

/-- Blanks are removed from both parts of a text. -/
lemma removeBlanks_append (s t : List Char) :
    removeBlanks (s ++ t) = removeBlanks s ++ removeBlanks t :=
  List.filter_append _ _

/-- Nothing is left of a text exactly if all of it is blank. -/
lemma trim_eq_nil_iff {text : List Char} : trim text = [] ↔ ∀ c ∈ text, isBlank c = true := by
  constructor
  · intro h c hc
    rw [trim, List.reverse_eq_nil_iff, List.dropWhile_eq_nil_iff] at h
    rw [← List.takeWhile_append_dropWhile (p := isBlank) (l := text)] at hc
    rcases List.mem_append.mp hc with hc | hc
    · exact List.mem_takeWhile_imp hc
    · exact h c (List.mem_reverse.mpr hc)
  · intro h
    rw [trim, List.dropWhile_eq_nil_iff.mpr h]
    rfl

/-- A blank at the end is trimmed. -/
lemma trim_concat {c : Char} (hc : isBlank c = true) (text : List Char) :
    trim (text ++ [c]) = trim text := by
  by_cases hall : ∀ d ∈ text, isBlank d = true
  · have hall' : ∀ d ∈ text ++ [c], isBlank d = true := by
      intro d hd
      rcases List.mem_append.mp hd with hd | hd
      · exact hall d hd
      · rw [List.mem_singleton.mp hd]
        exact hc
    rw [trim_eq_nil_iff.mpr hall, trim_eq_nil_iff.mpr hall']
  · have hne : (text.dropWhile isBlank).isEmpty = false := by
      rw [List.isEmpty_eq_false_iff, Ne, List.dropWhile_eq_nil_iff]
      exact hall
    rw [trim, List.dropWhile_append, hne, if_neg Bool.false_ne_true, List.reverse_concat,
      List.dropWhile_cons_of_pos hc]
    rfl

/-- A carriage return is a blank. -/
lemma removeBlanks_withoutReturn (text : List Char) :
    removeBlanks (withoutReturn text) = removeBlanks text := by
  unfold withoutReturn
  split
  · rename_i h
    obtain ⟨before, rfl⟩ := List.getLast?_eq_some_iff.mp h
    rw [List.dropLast_concat, removeBlanks_append]
    exact (List.append_nil _).symm
  · rfl

/-- Nor does it matter where blanks are trimmed. -/
lemma trim_withoutReturn (text : List Char) : trim (withoutReturn text) = trim text := by
  unfold withoutReturn
  split
  · rename_i h
    obtain ⟨before, rfl⟩ := List.getLast?_eq_some_iff.mp h
    rw [List.dropLast_concat, trim_concat (by decide)]
  · rfl

/-! ## Runs of a session

A run takes one line after another, and a session that has ended takes no line and writes nothing
more: `Session.run_cons` and `Session.run_nil` hold of every session. `Session.evaluations` lists
what a run evaluates, each expression with its variable.
-/

namespace Session

/-- The expression and the variable that are evaluated when the line is taken. -/
def evaluated? (terminal : Terminal) (mode : Mode) (session : Session) (line : Line) :
    Option (List Char × List Char) :=
  match session, taken terminal mode line with
  | atVariable expression _, .text typed => some (expression, typed)
  | _, _ => none

/-- What is evaluated while a session takes lines, in order. -/
def evaluations (terminal : Terminal) (mode : Mode) (settings : Settings) (session : Session) :
    List Line → List (List Char × List Char)
  | [] => []
  | line :: rest =>
    (session.evaluated? terminal mode line).toList ++
      (session.feed terminal mode settings line).1.evaluations terminal mode settings rest

section

variable {terminal : Terminal} {mode : Mode} {settings : Settings}

/-- A session that has ended writes nothing more. -/
@[simp] lemma run_ended (ok : Bool) (lines : List Line) :
    (ended ok).run terminal mode settings lines = ⟨[], ok⟩ := by
  rw [run]

/-- Nor does it ask for a line. -/
lemma promptOutputs_ended (ok : Bool) : (ended ok).promptOutputs mode = [] := by
  cases mode with
  | piped => rfl
  | prompt => rfl

/-- Without lines a session asks for one and ends. -/
lemma run_nil (session : Session) :
    session.run terminal mode settings [] =
      ⟨session.promptOutputs mode ++ (session.finish mode).outputs,
        (session.finish mode).succeeded⟩ := by
  cases session with
  | atExpression ok => rfl
  | atVariable expression ok => rfl
  | ended ok =>
    rw [run_ended, promptOutputs_ended]
    rfl

/-- A session takes the first line, and goes on with the others. -/
lemma run_cons (session : Session) (line : Line) (rest : List Line) :
    session.run terminal mode settings (line :: rest) =
      ⟨session.promptOutputs mode ++ (session.feed terminal mode settings line).2 ++
          ((session.feed terminal mode settings line).1.run terminal mode settings rest).outputs,
        ((session.feed terminal mode settings line).1.run terminal mode settings
          rest).succeeded⟩ := by
  cases session with
  | atExpression ok => rfl
  | atVariable expression ok => rfl
  | ended ok =>
    have hfeed : (ended ok).feed terminal mode settings line = (ended ok, []) := rfl
    rw [hfeed, run_ended, run_ended, promptOutputs_ended]
    rfl

/-- Nor does it evaluate anything. -/
lemma evaluations_ended (ok : Bool) (lines : List Line) :
    (ended ok).evaluations terminal mode settings lines = [] := by
  induction lines with
  | nil => rfl
  | cons line rest ih => exact ih

/-! ### One line -/

variable {line : Line} {text : List Char} {ok : Bool}

/-- Where an expression is read, a blank line is skipped. -/
lemma feed_blank (hline : taken terminal mode line = .text text) (h : trim text = []) :
    (atExpression ok).feed terminal mode settings line = (atExpression ok, []) := by
  simp [feed, hline, h]

/-- There, certain words end the session. -/
lemma feed_exit (hline : taken terminal mode line = .text text) (h : isExit text = true) :
    (atExpression ok).feed terminal mode settings line = (ended ok, []) := by
  have hne : (trim text).isEmpty = false := by
    cases htrim : trim text with
    | nil =>
      rw [isExit, htrim] at h
      cases h
    | cons c rest => rfl
  simp [feed, hline, hne, h]

/-- Any other line is an expression. -/
lemma feed_expression (hline : taken terminal mode line = .text text) (hne : trim text ≠ [])
    (h : isExit text = false) :
    (atExpression ok).feed terminal mode settings line = (atVariable text ok, []) := by
  simp [feed, hline, hne, h]

/-- Where a variable is read, any line is one. -/
lemma feed_variable (expression : List Char) (hline : taken terminal mode line = .text text) :
    (atVariable expression ok).feed terminal mode settings line =
      (atExpression (stillSucceeds mode ok (evaluateOutputs terminal settings expression text).2),
        (evaluateOutputs terminal settings expression text).1) := by
  simp [feed, hline]

end

end Session

/-- Without positional arguments there is a session. -/
lemma runProgram_session {arguments : List (List Char)} {settings : Settings}
    (hread : Settings.read arguments = .ok settings) (hpositional : settings.positional = [])
    (hhelp : settings.showHelp = false) (terminal : Terminal) (mode : Mode) (lines : List Line) :
    runProgram terminal mode arguments lines =
      Session.initial.run terminal mode settings lines := by
  rw [runProgram, Command.ofArguments, hread]
  dsimp only
  rw [hhelp, if_neg Bool.false_ne_true, hpositional]

end PowerRule
