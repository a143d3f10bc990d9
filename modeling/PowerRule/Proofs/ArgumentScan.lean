import Mathlib.Algebra.Group.Nat.Defs
import Mathlib.Data.List.Induction
import PowerRule.Proofs.Numeral
import PowerRule.Proofs.OneShot

/-!
# Arguments in a row

Arguments are taken one at a time, but `--precision` with the argument right after it (`entries`).
Reading stops at the first entry that is at fault; if there is none, every entry adds to the
settings what it says (`Settings.readMore_eq`). So the settings are those that
the entries ask for (`Settings.AskedBy`), and `read_arguments` says what this means: which arguments
are accepted, what they ask for, which error is the first, and that flags may stand anywhere.
-/

namespace PowerRule

/-- What is taken from the arguments at a time. -/
inductive Entry where
  | single (text : List Char)
  /-- The flag `--precision` with the argument after it, if there is one. -/
  | precision (value : Option (List Char))
deriving DecidableEq, Repr

/-- The flag that takes the argument after it. -/
def precisionFlag : List Char := "--precision".toList

/-- The arguments of an entry. -/
def Entry.texts : Entry → List (List Char)
  | single text => [text]
  | precision none => [precisionFlag]
  | precision (some value) => [precisionFlag, value]

/-- The entries of arguments, from left to right. -/
def entries : List (List Char) → List Entry
  | [] => []
  | text :: rest =>
    if text = precisionFlag then
      match rest with
      | [] => [.precision none]
      | value :: rest => .precision (some value) :: entries rest
    else .single text :: entries rest

namespace Entry

/-- The argument has two dashes, but it is no flag that there is. -/
def IsUnknownFlag (text : List Char) : Prop :=
  ['-', '-'] <+: text ∧ text ≠ "--steps".toList ∧ text ≠ "--latex".toList ∧
    text ≠ precisionFlag ∧ text ≠ "--help".toList

/-- The text is a number of digits: ASCII digits, after a plus or not. -/
inductive IsPrecision : List Char → Nat → Prop where
  | plain {digits : List Char} :
    digits ≠ [] →
    Digits digits →
    Nat.ofDigitChars 10 digits 0 ≤ 2 ^ 64 - 1 →
    IsPrecision digits (Nat.ofDigitChars 10 digits 0)
  | plus {digits : List Char} :
    digits ≠ [] →
    Digits digits →
    Nat.ofDigitChars 10 digits 0 ≤ 2 ^ 64 - 1 →
    IsPrecision ('+' :: digits) (Nat.ofDigitChars 10 digits 0)

/-- What is wrong with an entry. -/
inductive Fault : Entry → ArgumentError → Prop where
  | unknownFlag {text : List Char} :
    IsUnknownFlag text →
    Fault (.single text) (.unknownFlag text)
  | missingPrecision :
    Fault (.precision none) .missingPrecision
  | invalidPrecision {value : List Char} :
    (∀ digits, ¬IsPrecision value digits) →
    Fault (.precision (some value)) (.invalidPrecision value)

/-- The positional argument that an entry is, if it is one: it does not start with two dashes, and
it is not `-h`. -/
def positional? : Entry → Option (List Char)
  | single text => if ['-', '-'] <+: text ∨ text = "-h".toList then none else some text
  | precision _ => none

/-- The text that is to be the precision. -/
def value? : Entry → Option (List Char)
  | single _ => none
  | precision value => value

/-- Nothing is missing in the entry, and its arguments are read as this one entry. -/
inductive IsComplete : Entry → Prop where
  | single {text : List Char} :
    text ≠ precisionFlag →
    IsComplete (.single text)
  | precision {value : List Char} :
    IsComplete (.precision (some value))

end Entry

/-- What the settings are that entries ask for. -/
structure Settings.AskedBy (settings : Settings) (es : List Entry) : Prop where
  positional : settings.positional = es.filterMap Entry.positional?
  steps : settings.showSteps = true ↔ .single "--steps".toList ∈ es
  latex : settings.style.exponents = .latex ↔ .single "--latex".toList ∈ es
  help : settings.showHelp = true ↔
    .single "-h".toList ∈ es ∨ .single "--help".toList ∈ es
  noPrecision : es.filterMap Entry.value? = [] → settings.style.precision = none
  precision : ∀ value, (es.filterMap Entry.value?).getLast? = some value →
    ∃ digits, Entry.IsPrecision value digits ∧ settings.style.precision = some digits

/-! ## The scan -/

/-- A text that is not the flag for a precision is an entry by itself. -/
lemma entries_single {text : List Char} (h : text ≠ precisionFlag) (rest : List (List Char)) :
    entries (text :: rest) = .single text :: entries rest := by
  rw [entries.eq_def]
  exact if_neg h

/-- Nothing is lost in the scan. -/
lemma flatMap_texts_entries (arguments : List (List Char)) :
    (entries arguments).flatMap Entry.texts = arguments := by
  induction arguments using entries.induct with
  | case1 => rfl
  | case2 => rfl
  | case3 value rest ih =>
    show precisionFlag :: value :: (entries rest).flatMap Entry.texts = _
    rw [ih]
  | case4 text rest hne ih =>
    rw [entries_single hne]
    show text :: (entries rest).flatMap Entry.texts = _
    rw [ih]

/-- Only the value of a last `--precision` can be missing. -/
lemma isComplete_of_mem_entries {arguments : List (List Char)} {e : Entry}
    (h : e ∈ entries arguments) : e.IsComplete ∨ e = .precision none := by
  induction arguments using entries.induct with
  | case1 => cases h
  | case2 => exact .inr (List.mem_singleton.mp h)
  | case3 value rest ih =>
    rcases List.mem_cons.mp h with rfl | h
    · exact .inl .precision
    · exact ih h
  | case4 text rest hne ih =>
    rw [entries_single hne] at h
    rcases List.mem_cons.mp h with rfl | h
    · exact .inl (.single hne)
    · exact ih h

/-- Complete entries are taken as they were put there, whatever follows them. -/
lemma entries_append {es : List Entry} (h : ∀ e ∈ es, e.IsComplete) (after : List (List Char)) :
    entries (es.flatMap Entry.texts ++ after) = es ++ entries after := by
  induction es with
  | nil => rfl
  | cons e es ih =>
    have ih := ih (fun e' he' => h e' (List.mem_cons_of_mem _ he'))
    rw [List.flatMap_cons, List.append_assoc, List.cons_append, ← ih]
    cases h e List.mem_cons_self with
    | single hne => exact entries_single hne _
    | precision => rfl

/-! ## Single arguments -/

/-- The texts that read as an argument of a kind. -/
inductive Argument.Reads : Argument → List Char → Prop where
  | steps : Reads .steps "--steps".toList
  | latex : Reads .latex "--latex".toList
  | precision : Reads .precision precisionFlag
  | shortHelp : Reads .help "-h".toList
  | longHelp : Reads .help "--help".toList
  | unknown {text : List Char} :
    Entry.IsUnknownFlag text →
    Reads .unknown text
  | positional {text : List Char} :
    IsPositional text →
    Reads .positional text

namespace Argument

/-- A text is read as what it stands for. -/
lemma reads_ofText (text : List Char) : (ofText text).Reads text := by
  unfold ofText
  split_ifs with hsteps hlatex hprecision hhelp
  · rw [hsteps]
    exact .steps
  · rw [hlatex]
    exact .latex
  · rw [hprecision]
    exact .precision
  · rcases hhelp with rfl | rfl
    · exact .shortHelp
    · exact .longHelp
  · obtain ⟨hshort, hlong⟩ := not_or.mp hhelp
    split
    · rename_i rest
      exact .unknown ⟨⟨rest, rfl⟩, hsteps, hlatex, hprecision, hlong⟩
    · rename_i hdashes
      refine .positional ⟨?_, hshort⟩
      rintro ⟨rest, rfl⟩
      exact hdashes rest rfl

/-- A text stands for one thing only. -/
lemma Reads.ofText_eq {kind : Argument} {text : List Char} (h : kind.Reads text) :
    ofText text = kind := by
  cases h with
  | steps => rfl
  | latex => rfl
  | precision => rfl
  | shortHelp => rfl
  | longHelp => rfl
  | unknown h =>
    obtain ⟨⟨rest, rfl⟩, hsteps, hlatex, hprecision, hlong⟩ := h
    have hshort : ['-', '-'] ++ rest ≠ "-h".toList := by
      intro heq
      cases heq
    have hprecision : ['-', '-'] ++ rest ≠ "--precision".toList := hprecision
    unfold ofText
    rw [if_neg hsteps, if_neg hlatex, if_neg hprecision, if_neg (not_or.mpr ⟨hshort, hlong⟩)]
    rfl
  | positional h => exact h.ofText_eq

/-- What a text stands for is what it is read as. -/
lemma ofText_eq_iff {kind : Argument} {text : List Char} :
    ofText text = kind ↔ kind.Reads text := by
  constructor
  · rintro rfl
    exact reads_ofText text
  · exact Reads.ofText_eq

end Argument

namespace Entry

/-- A positional argument is found in its entry. -/
lemma positional?_single_of_positional {text : List Char} (h : IsPositional text) :
    positional? (.single text) = some text :=
  if_neg (not_or.mpr ⟨h.not_long, h.not_help⟩)

/-- In other entries there is none. -/
lemma positional?_single_of_not {text : List Char} (h : ¬IsPositional text) :
    positional? (.single text) = none := by
  refine if_pos ?_
  by_contra hneither
  obtain ⟨hlong, hhelp⟩ := not_or.mp hneither
  exact h ⟨hlong, hhelp⟩

/-- The number that digits without a plus stand for, if it is not too large. -/
def digitCount? (digits : List Char) : Option Nat :=
  if !digits.isEmpty && digits.all Char.isDigit then
    if Nat.ofDigitChars 10 digits 0 ≤ maxPrecision then some (Nat.ofDigitChars 10 digits 0)
    else none
  else none

/-- A number of digits is written with digits only and fits into 64 bits. -/
lemma digitCount?_eq_some_iff {digits : List Char} {n : Nat} :
    digitCount? digits = some n ↔ digits ≠ [] ∧ Digits digits ∧
      Nat.ofDigitChars 10 digits 0 ≤ 2 ^ 64 - 1 ∧ Nat.ofDigitChars 10 digits 0 = n := by
  have hdigits : (!digits.isEmpty && digits.all Char.isDigit) = true ↔
      digits ≠ [] ∧ Digits digits := by
    simp [Digits]
  unfold digitCount?
  split_ifs with hall hmax
  · obtain ⟨hne, hd⟩ := hdigits.mp hall
    rw [Option.some.injEq]
    exact ⟨fun h => ⟨hne, hd, hmax, h⟩, fun h => h.2.2.2⟩
  · constructor
    · intro h
      cases h
    · rintro ⟨_, _, hle, _⟩
      exact absurd hle hmax
  · constructor
    · intro h
      cases h
    · rintro ⟨hne, hd, _⟩
      exact absurd (hdigits.mpr ⟨hne, hd⟩) hall

/-- The numbers of digits are those that are read. -/
lemma precision?_eq_some_iff {value : List Char} {n : Nat} :
    PowerRule.precision? value = some n ↔ IsPrecision value n := by
  constructor
  · intro h
    by_cases hplus : ∃ digits, value = '+' :: digits
    · obtain ⟨digits, rfl⟩ := hplus
      obtain ⟨hne, hd, hmax, rfl⟩ := digitCount?_eq_some_iff.mp h
      exact .plus hne hd hmax
    · have hplain : PowerRule.precision? value = digitCount? value := by
        unfold PowerRule.precision?
        split
        · exact absurd ⟨_, rfl⟩ hplus
        · rfl
      obtain ⟨hne, hd, hmax, rfl⟩ := digitCount?_eq_some_iff.mp (hplain.symm.trans h)
      exact .plain hne hd hmax
  · intro h
    cases h with
    | plus hne hd hmax => exact digitCount?_eq_some_iff.mpr ⟨hne, hd, hmax, rfl⟩
    | plain hne hd hmax =>
      unfold PowerRule.precision?
      split
      · -- A plus is no digit.
        have hplus := hd '+' List.mem_cons_self
        cases hplus
      · exact digitCount?_eq_some_iff.mpr ⟨hne, hd, hmax, rfl⟩

/-- A text is one precision at most. -/
lemma IsPrecision.unique {value : List Char} {m n : Nat} (hm : IsPrecision value m)
    (hn : IsPrecision value n) : m = n :=
  Option.some.inj ((precision?_eq_some_iff.mpr hm).symm.trans (precision?_eq_some_iff.mpr hn))

/-- What is wrong with an entry, if anything. -/
def fault? : Entry → Option ArgumentError
  | single text => if Argument.ofText text = .unknown then some (.unknownFlag text) else none
  | precision none => some .missingPrecision
  | precision (some value) =>
    if (PowerRule.precision? value).isNone then some (.invalidPrecision value) else none

/-- The fault that is found is one that the entry has. -/
lemma fault?_eq_some_iff {e : Entry} {error : ArgumentError} :
    e.fault? = some error ↔ e.Fault error := by
  constructor
  · intro h
    cases e with
    | single text =>
      simp only [fault?] at h
      split_ifs at h with hunknown
      cases h
      cases Argument.ofText_eq_iff.mp hunknown with
      | unknown h => exact .unknownFlag h
    | precision value =>
      cases value with
      | none =>
        cases h
        exact .missingPrecision
      | some value =>
        simp only [fault?] at h
        split_ifs at h with hnone
        cases h
        refine .invalidPrecision fun digits hdigits => ?_
        rw [precision?_eq_some_iff.mpr hdigits] at hnone
        cases hnone
  · intro h
    cases h with
    | unknownFlag h => exact if_pos (Argument.Reads.unknown h).ofText_eq
    | missingPrecision => rfl
    | @invalidPrecision value h =>
      refine if_pos ?_
      rw [Option.isNone_iff_eq_none, Option.eq_none_iff_forall_ne_some]
      intro digits hdigits
      exact h digits (precision?_eq_some_iff.mp hdigits)

/-- No fault is found exactly in an entry without one. -/
lemma fault?_eq_none_iff {e : Entry} : e.fault? = none ↔ ∀ error, ¬e.Fault error := by
  rw [Option.eq_none_iff_forall_ne_some]
  exact forall_congr' fun error => not_congr fault?_eq_some_iff

end Entry

namespace Settings

/-- The settings with what an entry asks for. An entry at fault asks for nothing. -/
def add (settings : Settings) : Entry → Settings
  | .single text =>
    match Argument.ofText text with
    | .steps => { settings with showSteps := true }
    | .latex => settings.withLatex
    | .help => { settings with showHelp := true }
    | .positional => settings.withPositional text
    | .unknown => settings
    | .precision => settings
  | .precision value =>
    match value.bind precision? with
    | some digits => settings.withPrecision digits
    | none => settings

/-- The first fault is the result; without one, every entry adds what it asks for. -/
theorem readMore_eq (settings : Settings) (arguments : List (List Char)) :
    settings.readMore arguments =
      match (entries arguments).findSome? Entry.fault? with
      | some error => .error error
      | none => .ok ((entries arguments).foldl add settings) := by
  induction arguments using entries.induct generalizing settings with
  | case1 => rfl
  | case2 => rfl
  | case3 value rest ih =>
    have hentries : entries (precisionFlag :: value :: rest) =
        .precision (some value) :: entries rest := rfl
    rw [readMore, hentries, List.findSome?_cons, List.foldl_cons]
    simp only [Argument.Reads.precision.ofText_eq]
    cases hvalue : precision? value with
    | none => simp [Entry.fault?, hvalue]
    | some digits => simp [Entry.fault?, hvalue, add, ih]
  | case4 text rest hne ih =>
    rw [readMore.eq_def, entries_single hne, List.findSome?_cons, List.foldl_cons]
    cases hkind : Argument.ofText text with
    | precision =>
      cases Argument.ofText_eq_iff.mp hkind with
      | precision => exact absurd rfl hne
    | unknown => simp [Entry.fault?, hkind]
    | steps => simp [Entry.fault?, hkind, add, ih]
    | latex => simp [Entry.fault?, hkind, add, ih]
    | help => simp [Entry.fault?, hkind, add, ih]
    | positional => simp [Entry.fault?, hkind, add, ih]

/-! ## What entries ask for -/

/-- Without arguments the default settings are asked for. -/
lemma askedBy_nil : AskedBy {} [] where
  positional := rfl
  steps := by simp
  latex := by simp [Style.canonical]
  help := by simp
  noPrecision _ := rfl
  precision value h := by cases h

/-- The entries with one more at the end. -/
lemma mem_concat_iff {e e' : Entry} {es : List Entry} :
    e ∈ es ++ [e'] ↔ e ∈ es ∨ e' = e := by
  rw [List.mem_append, List.mem_singleton, eq_comm (a := e)]

/-- A flag asks for what it says and for nothing else. -/
lemma AskedBy.flag {settings settings' : Settings} {es : List Entry} (h : settings.AskedBy es)
    {text : List Char} (htext : ¬IsPositional text)
    (hpositional : settings'.positional = settings.positional)
    (hprecision : settings'.style.precision = settings.style.precision)
    (hsteps : settings'.showSteps = true ↔
      settings.showSteps = true ∨ text = "--steps".toList)
    (hlatex : settings'.style.exponents = .latex ↔
      settings.style.exponents = .latex ∨ text = "--latex".toList)
    (hhelp : settings'.showHelp = true ↔
      settings.showHelp = true ∨ text = "-h".toList ∨ text = "--help".toList) :
    settings'.AskedBy (es ++ [.single text]) := by
  have hvalues : (es ++ [Entry.single text]).filterMap Entry.value? =
      es.filterMap Entry.value? := by
    rw [List.filterMap_append]
    exact List.append_nil _
  refine ⟨?_, ?_, ?_, ?_, ?_, ?_⟩
  · rw [hpositional, h.positional, List.filterMap_append, List.filterMap_cons,
      Entry.positional?_single_of_not htext]
    exact (List.append_nil _).symm
  · rw [hsteps, h.steps, mem_concat_iff, Entry.single.injEq]
  · rw [hlatex, h.latex, mem_concat_iff, Entry.single.injEq]
  · rw [hhelp, h.help, mem_concat_iff, mem_concat_iff, Entry.single.injEq, Entry.single.injEq,
      or_or_or_comm]
  · rw [hvalues, hprecision]
    exact h.noPrecision
  · rw [hvalues, hprecision]
    exact h.precision

/-- A positional argument adds the expression and the variable that it asks for. -/
lemma AskedBy.withPositional {settings : Settings} {es : List Entry} (h : settings.AskedBy es)
    {text : List Char} (htext : IsPositional text) :
    (settings.withPositional text).AskedBy (es ++ [.single text]) := by
  have hvalues : (es ++ [Entry.single text]).filterMap Entry.value? =
      es.filterMap Entry.value? := by
    rw [List.filterMap_append]
    exact List.append_nil _
  have hmem : ∀ flag, ¬IsPositional flag →
      (Entry.single flag ∈ es ++ [.single text] ↔ Entry.single flag ∈ es) := by
    intro flag hflag
    rw [mem_concat_iff, Entry.single.injEq]
    refine or_iff_left ?_
    rintro rfl
    exact hflag htext
  refine ⟨?_, ?_, ?_, ?_, ?_, ?_⟩
  · rw [List.filterMap_append, List.filterMap_cons, Entry.positional?_single_of_positional htext,
      ← h.positional]
    rfl
  · rw [hmem _ (fun h => h.not_long (by decide)), ← h.steps]
    rfl
  · rw [hmem _ (fun h => h.not_long (by decide)), ← h.latex]
    rfl
  · rw [hmem _ (fun h => h.not_help rfl), hmem _ (fun h => h.not_long (by decide)), ← h.help]
    rfl
  · rw [hvalues]
    exact h.noPrecision
  · rw [hvalues]
    exact h.precision

/-- A precision replaces the one before it. -/
lemma AskedBy.withPrecision {settings : Settings} {es : List Entry} (h : settings.AskedBy es)
    {value : List Char} {digits : Nat} (hvalue : Entry.IsPrecision value digits) :
    (settings.withPrecision digits).AskedBy (es ++ [.precision (some value)]) := by
  have hvalues : (es ++ [Entry.precision (some value)]).filterMap Entry.value? =
      es.filterMap Entry.value? ++ [value] := by
    rw [List.filterMap_append]
    rfl
  have hmem : ∀ flag, Entry.single flag ∈ es ++ [.precision (some value)] ↔
      Entry.single flag ∈ es := by
    intro flag
    rw [mem_concat_iff]
    exact or_iff_left (fun h => by cases h)
  refine ⟨?_, ?_, ?_, ?_, ?_, ?_⟩
  · rw [List.filterMap_append, ← h.positional]
    exact (List.append_nil _).symm
  · rw [hmem, ← h.steps]
    rfl
  · rw [hmem, ← h.latex]
    rfl
  · rw [hmem, hmem, ← h.help]
    rfl
  · intro hnil
    rw [hvalues] at hnil
    exact absurd (List.append_eq_nil_iff.mp hnil).2 (List.cons_ne_nil _ _)
  · intro value' hlast
    rw [hvalues, List.getLast?_concat, Option.some.injEq] at hlast
    rw [← hlast]
    exact ⟨digits, hvalue, rfl⟩

/-- An entry without a fault adds what it asks for. -/
lemma AskedBy.add {settings : Settings} {es : List Entry} (h : settings.AskedBy es) {e : Entry}
    (hcomplete : e.IsComplete) (hfault : e.fault? = none) :
    (settings.add e).AskedBy (es ++ [e]) := by
  cases hcomplete with
  | @single text hne =>
    have hreads := Argument.reads_ofText text
    have hlong : ∀ {flag : List Char}, ['-', '-'] <+: flag → ¬IsPositional flag :=
      fun hinitial hpositional => hpositional.not_long hinitial
    unfold Settings.add
    dsimp only
    generalize Argument.ofText text = kind at hreads
    cases hreads with
    | steps =>
      exact h.flag (hlong (by decide)) rfl rfl (iff_of_true rfl (.inr rfl))
        (or_iff_left (by decide)).symm (or_iff_left (by decide)).symm
    | latex =>
      exact h.flag (hlong (by decide)) rfl rfl (or_iff_left (by decide)).symm
        (iff_of_true rfl (.inr rfl)) (or_iff_left (by decide)).symm
    | precision => exact absurd rfl hne
    | shortHelp =>
      exact h.flag (fun h => h.not_help rfl) rfl rfl (or_iff_left (by decide)).symm
        (or_iff_left (by decide)).symm (iff_of_true rfl (.inr (.inl rfl)))
    | longHelp =>
      exact h.flag (hlong (by decide)) rfl rfl (or_iff_left (by decide)).symm
        (or_iff_left (by decide)).symm (iff_of_true rfl (.inr (.inr rfl)))
    | unknown hunknown =>
      exact absurd (Entry.Fault.unknownFlag hunknown) (Entry.fault?_eq_none_iff.mp hfault _)
    | positional hpositional => exact h.withPositional hpositional
  | @precision value =>
    cases hvalue : precision? value with
    | none =>
      have hsome : Entry.fault? (.precision (some value)) = some (.invalidPrecision value) := by
        simp [Entry.fault?, hvalue]
      rw [hsome] at hfault
      cases hfault
    | some digits =>
      have hadd : settings.add (.precision (some value)) = settings.withPrecision digits := by
        simp [Settings.add, hvalue]
      rw [hadd]
      exact h.withPrecision (Entry.precision?_eq_some_iff.mp hvalue)

/-- Without a fault the settings that are read are those that the entries ask for. -/
lemma askedBy_foldl {es : List Entry} (hcomplete : ∀ e ∈ es, e.IsComplete)
    (hfault : ∀ e ∈ es, e.fault? = none) : (es.foldl Settings.add {}).AskedBy es := by
  induction es using List.reverseRecOn with
  | nil => exact askedBy_nil
  | append_singleton es e ih =>
    rw [List.foldl_append, List.foldl_cons, List.foldl_nil]
    refine AskedBy.add (ih ?_ ?_) (hcomplete e (by simp)) (hfault e (by simp))
    · exact fun e' he' => hcomplete e' (List.mem_append_left _ he')
    · exact fun e' he' => hfault e' (List.mem_append_left _ he')

/-- Nothing but what entries ask for is in the settings. -/
lemma AskedBy.unique {settings settings' : Settings} {es : List Entry} (h : settings.AskedBy es)
    (h' : settings'.AskedBy es) : settings = settings' := by
  have hsteps : settings.showSteps = settings'.showSteps :=
    Bool.eq_iff_iff.mpr (h.steps.trans h'.steps.symm)
  have hhelp : settings.showHelp = settings'.showHelp :=
    Bool.eq_iff_iff.mpr (h.help.trans h'.help.symm)
  have hpositional : settings.positional = settings'.positional :=
    h.positional.trans h'.positional.symm
  have hlatex : settings.style.exponents = settings'.style.exponents := by
    have hiff := h.latex.trans h'.latex.symm
    cases hexponents : settings.style.exponents with
    | latex => exact (hiff.mp hexponents).symm
    | plain =>
      cases hexponents' : settings'.style.exponents with
      | latex => exact absurd ((hiff.mpr hexponents').symm.trans hexponents) (by decide)
      | plain => rfl
  have hprecision : settings.style.precision = settings'.style.precision := by
    rcases List.eq_nil_or_concat' (es.filterMap Entry.value?) with hnil | ⟨init, value, hlast⟩
    · rw [h.noPrecision hnil, h'.noPrecision hnil]
    · have hvalue : (es.filterMap Entry.value?).getLast? = some value := by
        rw [hlast, List.getLast?_concat]
      obtain ⟨m, hm, hprecision⟩ := h.precision value hvalue
      obtain ⟨n, hn, hprecision'⟩ := h'.precision value hvalue
      rw [hprecision, hprecision', hm.unique hn]
  obtain ⟨⟨precision, exponents⟩, showSteps, showHelp, positional⟩ := settings
  obtain ⟨⟨precision', exponents'⟩, showSteps', showHelp', positional'⟩ := settings'
  dsimp only at hsteps hhelp hpositional hlatex hprecision
  rw [hsteps, hhelp, hpositional, hlatex, hprecision]

/-- The order of entries matters only among positional arguments and among precisions. -/
lemma AskedBy.congr {settings : Settings} {es es' : List Entry} (h : settings.AskedBy es)
    (hmem : ∀ e, e ∈ es ↔ e ∈ es')
    (hpositional : es.filterMap Entry.positional? = es'.filterMap Entry.positional?)
    (hvalue : es.filterMap Entry.value? = es'.filterMap Entry.value?) : settings.AskedBy es' where
  positional := by rw [h.positional, hpositional]
  steps := by rw [h.steps, hmem]
  latex := by rw [h.latex, hmem]
  help := by rw [h.help, hmem, hmem]
  noPrecision := by rw [← hvalue]; exact h.noPrecision
  precision := by rw [← hvalue]; exact h.precision

/-- Settings are read exactly if no entry has a fault, and they are those that are asked for. -/
lemma read_eq_ok_iff {arguments : List (List Char)} {settings : Settings} :
    read arguments = .ok settings ↔
      (∀ e ∈ entries arguments, e.fault? = none) ∧ settings.AskedBy (entries arguments) := by
  have hasked : (∀ e ∈ entries arguments, e.fault? = none) →
      ((entries arguments).foldl Settings.add {}).AskedBy (entries arguments) := by
    intro hfault
    refine askedBy_foldl (fun e he => ?_) hfault
    refine (isComplete_of_mem_entries he).resolve_right ?_
    rintro rfl
    cases hfault _ he
  rw [read, readMore_eq]
  cases hfirst : (entries arguments).findSome? Entry.fault? with
  | some error =>
    constructor
    · intro h
      cases h
    · rintro ⟨hfault, -⟩
      rw [List.findSome?_eq_none_iff.mpr hfault] at hfirst
      cases hfirst
  | none =>
    have hfault := List.findSome?_eq_none_iff.mp hfirst
    constructor
    · intro h
      cases h
      exact ⟨hfault, hasked hfault⟩
    · rintro ⟨-, h⟩
      rw [h.unique (hasked hfault)]

/-- The error is that of the first entry with a fault. -/
lemma read_eq_error_iff {arguments : List (List Char)} {error : ArgumentError} :
    read arguments = .error error ↔
      ∃ before e after, entries arguments = before ++ e :: after ∧ e.Fault error ∧
        ∀ e' ∈ before, ∀ error', ¬e'.Fault error' := by
  rw [read, readMore_eq]
  cases hfirst : (entries arguments).findSome? Entry.fault? with
  | none =>
    have hfault := List.findSome?_eq_none_iff.mp hfirst
    constructor
    · intro h
      cases h
    · rintro ⟨before, e, after, hentries, hfault', -⟩
      have he := hfault e (by rw [hentries]; simp)
      rw [Entry.fault?_eq_some_iff.mpr hfault'] at he
      cases he
  | some error' =>
    obtain ⟨before, e, after, hentries, hfault, hbefore⟩ := List.findSome?_eq_some_iff.mp hfirst
    constructor
    · intro h
      cases h
      exact ⟨before, e, after, hentries, Entry.fault?_eq_some_iff.mp hfault,
        fun e' he' => Entry.fault?_eq_none_iff.mp (hbefore e' he')⟩
    · rintro ⟨before', e', after', hentries', hfault', hbefore'⟩
      have hfirst' : (entries arguments).findSome? Entry.fault? = some error :=
        List.findSome?_eq_some_iff.mpr ⟨before', e', after', hentries',
          Entry.fault?_eq_some_iff.mpr hfault',
          fun e he => Entry.fault?_eq_none_iff.mpr (hbefore' e he)⟩
      rw [hfirst'] at hfirst
      cases hfirst
      rfl

/-- Arguments are accepted exactly if every flag is known and every precision is one. -/
lemma exists_read_iff {arguments : List (List Char)} :
    (∃ settings, read arguments = .ok settings) ↔
      (∀ text, .single text ∈ entries arguments → ¬Entry.IsUnknownFlag text) ∧
      ∀ value?, .precision value? ∈ entries arguments →
        ∃ value digits, value? = some value ∧ Entry.IsPrecision value digits := by
  constructor
  · rintro ⟨settings, h⟩
    have hfault : ∀ e ∈ entries arguments, ∀ error, ¬e.Fault error :=
      fun e he => Entry.fault?_eq_none_iff.mp ((read_eq_ok_iff.mp h).1 e he)
    refine ⟨fun text htext hunknown => hfault _ htext _ (.unknownFlag hunknown), ?_⟩
    intro value? hvalue
    cases value? with
    | none => exact absurd .missingPrecision (hfault _ hvalue _)
    | some value =>
      by_contra hnone
      refine hfault _ hvalue _ (.invalidPrecision fun digits hdigits => ?_)
      exact hnone ⟨value, digits, rfl, hdigits⟩
  · rintro ⟨hflags, hvalues⟩
    cases hread : read arguments with
    | ok settings => exact ⟨settings, rfl⟩
    | error error =>
      obtain ⟨before, e, after, hentries, hfault, -⟩ := read_eq_error_iff.mp hread
      have he : e ∈ entries arguments := by rw [hentries]; simp
      cases hfault with
      | unknownFlag hunknown => exact absurd hunknown (hflags _ he)
      | missingPrecision =>
        obtain ⟨value, digits, hvalue, -⟩ := hvalues none he
        cases hvalue
      | invalidPrecision hinvalid =>
        obtain ⟨value, digits, hvalue, hdigits⟩ := hvalues _ he
        cases hvalue
        exact absurd hdigits (hinvalid digits)

/-- An entry that is not positional may stand anywhere, if the order of the precisions stays. -/
lemma read_move {before middle : List Entry} {e : Entry} (after : List (List Char))
    (hcomplete : ∀ e' ∈ before ++ e :: middle, e'.IsComplete) (hpositional : e.positional? = none)
    (hvalues : (e :: middle).filterMap Entry.value? = (middle ++ [e]).filterMap Entry.value?)
    (settings : Settings) :
    read ((before ++ e :: middle).flatMap Entry.texts ++ after) = .ok settings ↔
      read ((before ++ (middle ++ [e])).flatMap Entry.texts ++ after) = .ok settings := by
  have hmem : ∀ e', e' ∈ before ++ e :: middle ++ entries after ↔
      e' ∈ before ++ (middle ++ [e]) ++ entries after := by
    intro e'
    simp only [List.mem_append, List.mem_cons, List.not_mem_nil, or_false]
    rw [or_comm (a := e' = e)]
  have hcomplete' : ∀ e' ∈ before ++ (middle ++ [e]), e'.IsComplete := by
    intro e' he'
    refine hcomplete e' ?_
    simp only [List.mem_append, List.mem_cons, List.not_mem_nil, or_false] at he' ⊢
    rwa [or_comm (a := e' = e)]
  have hpositionals : (before ++ e :: middle ++ entries after).filterMap Entry.positional? =
      (before ++ (middle ++ [e]) ++ entries after).filterMap Entry.positional? := by
    simp [hpositional]
  have hvalues' : (before ++ e :: middle ++ entries after).filterMap Entry.value? =
      (before ++ (middle ++ [e]) ++ entries after).filterMap Entry.value? := by
    rw [List.filterMap_append] at hvalues
    rw [List.filterMap_append, List.filterMap_append, hvalues, List.filterMap_append,
      List.filterMap_append, List.filterMap_append]
  rw [read_eq_ok_iff, read_eq_ok_iff, entries_append hcomplete, entries_append hcomplete']
  constructor
  · rintro ⟨hfault, hasked⟩
    exact ⟨fun e' he' => hfault e' ((hmem e').mpr he'), hasked.congr hmem hpositionals hvalues'⟩
  · rintro ⟨hfault, hasked⟩
    exact ⟨fun e' he' => hfault e' ((hmem e').mp he'),
      hasked.congr (fun e' => (hmem e').symm) hpositionals.symm hvalues'.symm⟩

end Settings

open Settings in
/-- Arguments are taken from left to right, `--precision` with the argument after it, whatever that
is. They are accepted exactly if no other one starts with two dashes but the flags that there are,
and every `--precision` has a number of digits after it. Then the settings are those that the
entries ask for; otherwise the error is that of the first entry at fault. An entry that is not
positional may stand anywhere between others, as long as the order of the precisions stays. -/
theorem read_arguments (arguments : List (List Char)) :
    (entries arguments).flatMap Entry.texts = arguments ∧
    ((∃ settings, Settings.read arguments = .ok settings) ↔
      (∀ text, .single text ∈ entries arguments → ¬Entry.IsUnknownFlag text) ∧
      ∀ value?, .precision value? ∈ entries arguments →
        ∃ value digits, value? = some value ∧ Entry.IsPrecision value digits) ∧
    (∀ settings, Settings.read arguments = .ok settings →
      settings.AskedBy (entries arguments)) ∧
    (∀ error, Settings.read arguments = .error error ↔
      ∃ before e after, entries arguments = before ++ e :: after ∧ e.Fault error ∧
        ∀ e' ∈ before, ∀ error', ¬e'.Fault error') ∧
    ∀ (before middle : List Entry) (flag : Entry) (settings : Settings),
      (∀ e ∈ before ++ flag :: middle, e.IsComplete) → flag.positional? = none →
      (flag :: middle).filterMap Entry.value? = (middle ++ [flag]).filterMap Entry.value? →
      (Settings.read ((before ++ flag :: middle).flatMap Entry.texts ++ arguments) = .ok settings ↔
        Settings.read ((before ++ (middle ++ [flag])).flatMap Entry.texts ++ arguments) =
          .ok settings) := by
  refine ⟨flatMap_texts_entries arguments, exists_read_iff, ?_, fun _ => read_eq_error_iff, ?_⟩
  · intro settings h
    exact (read_eq_ok_iff.mp h).2
  · intro before middle flag settings hcomplete hpositional hvalues
    exact read_move arguments hcomplete hpositional hvalues settings

/-- A flag moves across a precision, to the place before the positional arguments that follow. -/
theorem read_arguments_moved :
    (∀ e ∈ [Entry.single "-x^2".toList] ++
        Entry.single "--latex".toList :: [Entry.precision (some "+07".toList)], e.IsComplete) ∧
    (Entry.single "--latex".toList).positional? = none ∧
    Settings.read ["-x^2".toList, "--precision".toList, "+07".toList, "--latex".toList,
      "x".toList, "--precision".toList, "0".toList] =
        .ok ⟨⟨some 0, .latex⟩, false, false, ["-x^2".toList, "x".toList]⟩ ∧
    Settings.read ["--precision".toList, "--steps".toList] =
      .error (.invalidPrecision "--steps".toList) ∧
    ∃ settings, Settings.read ["x".toList, "--precision".toList, "0".toList] = .ok settings ∧
      settings.AskedBy [.single "x".toList, .precision (some "0".toList)] := by
  have hcomplete : ∀ e ∈ [Entry.single "-x^2".toList] ++
      Entry.single "--latex".toList :: [Entry.precision (some "+07".toList)], e.IsComplete := by
    intro e he
    simp only [List.cons_append, List.nil_append, List.mem_cons, List.not_mem_nil, or_false] at he
    rcases he with rfl | rfl | rfl
    · exact .single (by decide)
    · exact .single (by decide)
    · exact .precision
  obtain ⟨-, -, hasked, -, hmove⟩ :=
    read_arguments ["x".toList, "--precision".toList, "0".toList]
  obtain ⟨-, -, -, herror, -⟩ := read_arguments ["--precision".toList, "--steps".toList]
  refine ⟨hcomplete, rfl, ?_, ?_, _, rfl, hasked _ rfl⟩
  · exact (hmove _ _ _ _ hcomplete rfl rfl).mp (by decide +kernel)
  · refine (herror _).mpr ⟨[], _, [], rfl, .invalidPrecision fun digits hdigits => ?_, ?_⟩
    · cases Entry.precision?_eq_some_iff.mpr hdigits
    · intro e he
      cases he

end PowerRule
