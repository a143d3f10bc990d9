import Mathlib.Tactic.Lemma
import PowerRule.Proofs.Reading

/-!
# What cannot be read as a term

`Misreads` lists what is wrong with a term that cannot be read, in the order in which it is noticed:
there is no body, then what precedes the variable is no coefficient, then what follows it is no
exponent. `readTerm_eq_error_iff` says that these are the errors of reading, with their places.
-/

namespace PowerRule

/-- What follows the variable, the text that is reported for it, and what is wrong with it. -/
inductive MisreadsTrailing : List Char → List Char → ExponentIssue → Prop where
  | noCaret {text : List Char} :
    text ≠ [] →
    text.head? ≠ some '^' →
    MisreadsTrailing text text .notANumber
  | afterCaret {text : List Char} {issue : ExponentIssue} :
    exponentOfText text = .error issue →
    MisreadsTrailing ('^' :: text) text issue

/-- The error of a term that cannot be read. -/
inductive Misreads (var : Char) (raw : RawTerm) : Error → Prop where
  | empty :
    raw.body = [] →
    Misreads var raw ⟨.emptyTerm, [raw.span]⟩
  | constant :
    raw.body ≠ [] →
    var ∉ raw.body →
    coefficient? raw.body = none →
    Misreads var raw ⟨.malformedCoefficient raw.body, [Span.ofText raw.bodyStart raw.body]⟩
  | coefficient {leading trailing : List Char} :
    raw.body = leading ++ var :: trailing →
    var ∉ leading →
    leading ≠ [] →
    coefficient? leading = none →
    Misreads var raw ⟨.malformedCoefficient leading, [Span.ofText raw.bodyStart leading]⟩
  | exponent {leading trailing : List Char} {m : Magnitude} {text : List Char}
      {issue : ExponentIssue} :
    raw.body = leading ++ var :: trailing →
    var ∉ leading →
    ReadsLeading leading m →
    MisreadsTrailing trailing text issue →
    Misreads var raw ⟨.malformedExponent text issue,
      [Span.ofText (raw.bodyStart + byteLength leading + var.utf8Size) trailing]⟩

/-- A coefficient is refused exactly if it is none. -/
lemma readCoefficient_eq_error_iff {start : Nat} {text : List Char} {e : Error} :
    readCoefficient start text = .error e ↔
      coefficient? text = none ∧ e = ⟨.malformedCoefficient text, [Span.ofText start text]⟩ := by
  unfold readCoefficient
  cases coefficient? text with
  | some m =>
    constructor
    · intro h
      cases h
    · rintro ⟨h, _⟩
      cases h
  | none =>
    constructor
    · intro h
      cases h
      exact ⟨rfl, rfl⟩
    · rintro ⟨_, rfl⟩
      rfl

/-- What stands before the variable is refused exactly if it is neither nothing nor a coefficient.
-/
lemma readLeading_eq_error_iff {start : Nat} {text : List Char} {e : Error} :
    readLeading start text = .error e ↔
      text ≠ [] ∧ coefficient? text = none ∧
        e = ⟨.malformedCoefficient text, [Span.ofText start text]⟩ := by
  cases text with
  | nil =>
    constructor
    · intro h
      cases h
    · rintro ⟨h, _⟩
      exact absurd rfl h
  | cons c rest =>
    rw [and_iff_right (List.cons_ne_nil _ _)]
    exact readCoefficient_eq_error_iff

/-- What stands after the variable is refused exactly if it is misread. -/
lemma readExponent_eq_error_iff {start : Nat} {trailing : List Char} {e : Error} :
    readExponent start trailing = .error e ↔
      ∃ text issue, MisreadsTrailing trailing text issue ∧
        e = ⟨.malformedExponent text issue, [Span.ofText start trailing]⟩ := by
  constructor
  · intro h
    unfold readExponent at h
    dsimp only at h
    split at h
    · cases h
    · rename_i written
      cases hw : exponentOfText written with
      | ok n =>
        rw [hw] at h
        cases h
      | error issue =>
        rw [hw] at h
        cases h
        exact ⟨written, issue, .afterCaret hw, rfl⟩
    · rename_i hne hcaret
      cases h
      refine ⟨trailing, .notANumber, .noCaret hne ?_, rfl⟩
      intro hhead
      obtain ⟨rest, rfl⟩ := List.head?_eq_some_iff.mp hhead
      exact hcaret rest rfl
  · rintro ⟨text, issue, h, rfl⟩
    cases h with
    | noCaret hne hhead =>
      unfold readExponent
      dsimp only
      split
      · exact absurd rfl hne
      · exact absurd rfl hhead
      · rfl
    | afterCaret hissue =>
      simp only [readExponent, hissue]
      rfl

/-- A term is not read exactly if something is wrong with it, and that is reported. -/
theorem readTerm_eq_error_iff {var : Char} {raw : RawTerm} {e : Error} :
    readTerm var raw = .error e ↔ Misreads var raw e := by
  constructor
  · intro h
    by_cases hne : raw.body = []
    · rw [readTerm_of_nil hne] at h
      cases h
      exact .empty hne
    rcases notMem_or_divided var raw.body with hnot | ⟨leading, trailing, hbody, hnot⟩
    · rw [readTerm_eq_constant hne hnot] at h
      cases hm : readCoefficient raw.bodyStart raw.body with
      | ok m =>
        rw [hm] at h
        cases h
      | error e' =>
        rw [hm] at h
        cases h
        obtain ⟨hnone, rfl⟩ := readCoefficient_eq_error_iff.mp hm
        exact .constant hne hnot hnone
    · rw [readTerm_eq_power hbody hnot] at h
      cases hm : readLeading raw.bodyStart leading with
      | error e' =>
        rw [hm] at h
        cases h
        obtain ⟨hleading, hnone, rfl⟩ := readLeading_eq_error_iff.mp hm
        exact .coefficient hbody hnot hleading hnone
      | ok m =>
        rw [hm] at h
        cases hn : readExponent (raw.bodyStart + byteLength leading + var.utf8Size) trailing with
        | ok n =>
          rw [hn] at h
          cases h
        | error e' =>
          rw [hn] at h
          cases h
          obtain ⟨text, issue, htrailing, rfl⟩ := readExponent_eq_error_iff.mp hn
          exact .exponent hbody hnot (readLeading_eq_ok_iff.mp hm) htrailing
  · intro h
    cases h with
    | empty hnil => exact readTerm_of_nil hnil
    | constant hne hnot hnone =>
      rw [readTerm_eq_constant hne hnot, readCoefficient_eq_error_iff.mpr ⟨hnone, rfl⟩]
      rfl
    | coefficient hbody hnot hleading hnone =>
      rw [readTerm_eq_power hbody hnot, readLeading_eq_error_iff.mpr ⟨hleading, hnone, rfl⟩]
      rfl
    | exponent hbody hnot hm htrailing =>
      rw [readTerm_eq_power hbody hnot, readLeading_eq_ok_iff.mpr hm]
      show (do
        let n ← readExponent _ _
        return Term.power raw.sign _ n : Except Error Term) = _
      rw [readExponent_eq_error_iff.mpr ⟨_, _, htrailing, rfl⟩]
      rfl

/-! ## Exponents -/

/-- A numeral is an exponent if its decimal is. -/
lemma exponentOfText_of_numeral {text : List Char} (h : Numeral text) :
    exponentOfText text = exponentOf (Decimal.ofNumeral text) := by
  unfold exponentOfText
  rw [h.ofText?_eq]

/-- Other texts are missing, negative or not numbers. -/
lemma exponentOfText_of_not_numeral {text : List Char} :
    ¬Numeral text →
      exponentOfText text =
        match text with
        | [] => .error .missing
        | '-' :: digits => .error (if isNumeral digits then .negative else .notANumber)
        | _ => .error .notANumber := by
  intro h
  have hnone : Decimal.ofText? text = none := by
    rw [Option.eq_none_iff_forall_ne_some]
    intro d hd
    exact h (Decimal.ofText?_eq_some hd).1
  unfold exponentOfText
  generalize Decimal.ofText? text = d at hnone
  subst hnone
  rfl

/-- A value is refused if it is not whole or not allowed. -/
lemma exponentOfValue_eq_error_iff {value : Option Nat} {issue : ExponentIssue} :
    exponentOfValue value = .error issue ↔
      value = none ∧ issue = .fractional ∨
        ∃ n, value = some n ∧ maxExponent < n ∧ issue = .tooLarge := by
  cases value with
  | none =>
    constructor
    · intro h
      cases h
      exact .inl ⟨rfl, rfl⟩
    · rintro (⟨_, rfl⟩ | ⟨_, h, _⟩)
      · rfl
      · cases h
  | some n =>
    unfold exponentOfValue
    dsimp only
    split
    · rename_i hlt
      constructor
      · intro h
        cases h
        exact .inr ⟨n, rfl, hlt, rfl⟩
      · rintro (⟨h, _⟩ | ⟨_, _, _, rfl⟩)
        · cases h
        · rfl
    · rename_i hle
      constructor
      · intro h
        cases h
      · rintro (⟨h, _⟩ | ⟨_, h, hlt, _⟩)
        · cases h
        · cases h
          exact absurd hlt hle

/-- An exponent is reported as missing exactly if nothing follows the caret. -/
lemma exponentOfText_eq_missing_iff {text : List Char} :
    exponentOfText text = .error .missing ↔ text = [] := by
  constructor
  · intro h
    by_cases hn : Numeral text
    · rw [exponentOfText_of_numeral hn, exponentOf, exponentOfValue_eq_error_iff] at h
      rcases h with ⟨_, h⟩ | ⟨_, _, _, h⟩
      · cases h
      · cases h
    · rw [exponentOfText_of_not_numeral hn] at h
      split at h
      · rfl
      · split at h
        · cases h
        · cases h
      · cases h
  · rintro rfl
    rw [exponentOfText_of_not_numeral fun h => h.ne_nil rfl]

end PowerRule
