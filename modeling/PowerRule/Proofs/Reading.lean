import Mathlib.Tactic.Lemma
import PowerRule.Derivative
import PowerRule.Proofs.Numeral
import PowerRule.Proofs.Splitting

/-!
# What is read as a term

`Reads` is the grammar of terms with what they stand for: a numeral without the variable, or a
coefficient, the variable and an exponent, each of which may be left out. Reading a term succeeds
exactly on this grammar (`readTerm_eq_ok_iff`), and an expression is read term by term
(`readTerms_eq_ok_iff`) up to the first that is not one (`readTerms_eq_error_iff`).
-/

namespace PowerRule

/-! ## The grammar of terms -/

/-- What precedes the variable, and the coefficient that it stands for. -/
inductive ReadsLeading : List Char → Magnitude → Prop where
  | missing :
    ReadsLeading [] .one
  | written {text : List Char} {m : Magnitude} :
    coefficient? text = some m →
    ReadsLeading text m

/-- What follows the variable, and the exponent that it stands for. -/
inductive ReadsTrailing : List Char → Nat → Prop where
  | missing :
    ReadsTrailing [] 1
  | written {text : List Char} {n : Nat} :
    exponentOfText text = .ok n →
    ReadsTrailing ('^' :: text) n

/-- The body of a term of the given sign, and the term. -/
inductive Reads (var : Char) (sign : Sign) : List Char → Term → Prop where
  | constant {body : List Char} {m : Magnitude} :
    var ∉ body →
    coefficient? body = some m →
    Reads var sign body (.constant sign m)
  | power {leading trailing : List Char} {m : Magnitude} {n : Nat} :
    var ∉ leading →
    ReadsLeading leading m →
    ReadsTrailing trailing n →
    Reads var sign (leading ++ var :: trailing) (.power sign m n)

/-- Coefficients are numerals. -/
lemma coefficient?_eq_some_iff {text : List Char} {m : Magnitude} :
    coefficient? text = some m ↔
      Numeral text ∧ (Decimal.ofNumeral text).nearest? = some m := by
  constructor
  · intro h
    obtain ⟨d, hd, hm⟩ := Option.bind_eq_some_iff.mp h
    obtain ⟨hn, rfl⟩ := Decimal.ofText?_eq_some hd
    exact ⟨hn, hm⟩
  · rintro ⟨hn, hm⟩
    rw [coefficient?, hn.ofText?_eq, Option.bind_some, hm]

/-- A value is an exponent if it is whole and allowed. -/
lemma exponentOfValue_eq_ok_iff {value : Option Nat} {n : Nat} :
    exponentOfValue value = .ok n ↔ n ≤ maxExponent ∧ value = some n := by
  cases value with
  | none => simp [exponentOfValue]
  | some k =>
    unfold exponentOfValue
    dsimp only
    split
    · rename_i hlt
      constructor
      · intro h
        cases h
      · rintro ⟨hle, hk⟩
        cases hk
        exact absurd hle (Nat.not_le_of_lt hlt)
    · rename_i hle
      constructor
      · intro h
        cases h
        exact ⟨Nat.le_of_not_lt hle, rfl⟩
      · rintro ⟨_, hk⟩
        cases hk
        rfl

/-- Exponents are numerals, of a whole value in range. -/
lemma exponentOfText_eq_ok_iff {text : List Char} {n : Nat} :
    exponentOfText text = .ok n ↔
      Numeral text ∧ n ≤ maxExponent ∧
        (Decimal.ofNumeral text).nearest?.bind Magnitude.toNat? = some n := by
  unfold exponentOfText
  cases hd : Decimal.ofText? text with
  | none =>
    constructor
    · intro h
      dsimp only at h
      split at h <;> cases h
    · rintro ⟨hn, -⟩
      rw [hn.ofText?_eq] at hd
      cases hd
  | some d =>
    obtain ⟨hn, rfl⟩ := Decimal.ofText?_eq_some hd
    dsimp only
    rw [exponentOf, exponentOfValue_eq_ok_iff]
    exact ⟨fun h => ⟨hn, h⟩, fun h => h.2⟩

/-- Before the variable stands a numeral or nothing. -/
lemma ReadsLeading.numeral {text : List Char} {m : Magnitude} (h : ReadsLeading text m) :
    text = [] ∨ Numeral text := by
  cases h with
  | missing => exact .inl rfl
  | written hm => exact .inr (coefficient?_eq_some_iff.mp hm).1

/-- What stands before the variable is read by its rules. -/
lemma readLeading_eq_ok_iff {start : Nat} {text : List Char} {m : Magnitude} :
    readLeading start text = .ok m ↔ ReadsLeading text m := by
  constructor
  · intro h
    unfold readLeading at h
    split at h
    · rw [← Except.ok.inj h]
      exact .missing
    · unfold readCoefficient at h
      cases hk : coefficient? text with
      | none =>
        rw [hk] at h
        cases h
      | some k =>
        rw [hk] at h
        cases h
        exact .written hk
  · intro h
    cases h with
    | missing => rfl
    | written hm =>
      obtain ⟨c, rest, rfl⟩ :=
        List.exists_cons_of_ne_nil (coefficient?_eq_some_iff.mp hm).1.ne_nil
      simp only [readLeading, readCoefficient, hm]

/-- What stands after the variable is read by its rules. -/
lemma readExponent_eq_ok_iff {start : Nat} {text : List Char} {n : Nat} :
    readExponent start text = .ok n ↔ ReadsTrailing text n := by
  constructor
  · intro h
    unfold readExponent at h
    dsimp only at h
    split at h
    · cases h
      exact .missing
    · rename_i written
      cases hw : exponentOfText written with
      | error issue =>
        rw [hw] at h
        cases h
      | ok k =>
        rw [hw] at h
        cases h
        exact .written hw
    · cases h
  · intro h
    cases h with
    | missing => rfl
    | written hn =>
      simp only [readExponent, hn]
      rfl

/-- An exponent that is read is allowed. -/
lemma ReadsTrailing.le_maxExponent {text : List Char} {n : Nat} (h : ReadsTrailing text n) :
    n ≤ maxExponent := by
  cases h with
  | missing => decide
  | written hn => exact (exponentOfText_eq_ok_iff.mp hn).2.1

/-- The exponent of a term that is read is allowed. -/
lemma Reads.exponent_le {var : Char} {sign : Sign} {body : List Char} {t : Term}
    (h : Reads var sign body t) :
    t.exponent ≤ maxExponent := by
  cases h with
  | constant _ _ => exact Nat.zero_le _
  | power _ _ hn => exact hn.le_maxExponent

/-! ## Where the variable stands -/

/-- In a text without the variable every character is another one. -/
lemma bne_var_of_notMem {var : Char} {text : List Char} (h : var ∉ text) :
    ∀ c ∈ text, (c != var) = true := by
  intro c hc
  apply bne_iff_ne.mpr
  rintro rfl
  exact h hc

/-- What stands before the first variable. -/
lemma takeWhile_ne_var {var : Char} {leading : List Char} (h : var ∉ leading)
    (trailing : List Char) :
    (leading ++ var :: trailing).takeWhile (· != var) = leading := by
  rw [List.takeWhile_append_of_pos (bne_var_of_notMem h)]
  simp

/-- What stands from the first variable on. -/
lemma dropWhile_ne_var {var : Char} {leading : List Char} (h : var ∉ leading)
    (trailing : List Char) :
    (leading ++ var :: trailing).dropWhile (· != var) = var :: trailing := by
  rw [List.dropWhile_append_of_pos (bne_var_of_notMem h)]
  simp

/-- A text either lacks the variable or is divided at its first occurrence. -/
lemma notMem_or_divided (var : Char) (body : List Char) :
    var ∉ body ∨ ∃ leading trailing, body = leading ++ var :: trailing ∧ var ∉ leading := by
  by_cases h : var ∈ body
  · obtain ⟨leading, trailing, heq, hnot⟩ := List.eq_append_cons_of_mem h
    exact .inr ⟨leading, trailing, heq, hnot⟩
  · exact .inl h

/-- Nothing can be read from an empty body. -/
lemma readTerm_of_nil {var : Char} {raw : RawTerm} (h : raw.body = []) :
    readTerm var raw = .error ⟨.emptyTerm, [raw.span]⟩ := by
  simp [readTerm, h]

/-- Without the variable, a coefficient is read. -/
lemma readTerm_eq_constant {var : Char} {raw : RawTerm} (hne : raw.body ≠ [])
    (h : var ∉ raw.body) :
    readTerm var raw = (readCoefficient raw.bodyStart raw.body).map (Term.constant raw.sign) := by
  have hempty : raw.body.isEmpty = false := by simpa using hne
  have hdrop : raw.body.dropWhile (· != var) = [] := by
    rw [List.dropWhile_eq_nil_iff]
    exact bne_var_of_notMem h
  simp only [readTerm, hempty, hdrop, Bool.false_eq_true, if_false]
  rfl

/-- At the variable, what precedes and what follows it are read apart. -/
lemma readTerm_eq_power {var : Char} {raw : RawTerm} {leading trailing : List Char}
    (hbody : raw.body = leading ++ var :: trailing) (h : var ∉ leading) :
    readTerm var raw = do
      let m ← readLeading raw.bodyStart leading
      let n ← readExponent (raw.bodyStart + byteLength leading + var.utf8Size) trailing
      return .power raw.sign m n := by
  have hempty : (leading ++ var :: trailing).isEmpty = false := by simp
  simp only [readTerm, hbody, hempty, takeWhile_ne_var h, dropWhile_ne_var h, Bool.false_eq_true,
    if_false]

/-- A term without the variable is a constant. -/
lemma readTerm_of_notMem {var : Char} {raw : RawTerm} {t : Term} (hne : raw.body ≠ [])
    (h : var ∉ raw.body) :
    readTerm var raw = .ok t ↔
      ∃ m, coefficient? raw.body = some m ∧ t = .constant raw.sign m := by
  rw [readTerm_eq_constant hne h, readCoefficient]
  cases hm : coefficient? raw.body with
  | none =>
    constructor
    · intro h
      cases h
    · rintro ⟨m, hm, _⟩
      cases hm
  | some m =>
    constructor
    · intro h
      cases h
      exact ⟨m, rfl, rfl⟩
    · rintro ⟨_, hm, rfl⟩
      rw [Option.some.inj hm]
      rfl

/-- A term with the variable is read in two parts. -/
lemma readTerm_of_divided {var : Char} {raw : RawTerm} {t : Term} {leading trailing : List Char}
    (hbody : raw.body = leading ++ var :: trailing) (h : var ∉ leading) :
    readTerm var raw = .ok t ↔
      ∃ m n, ReadsLeading leading m ∧ ReadsTrailing trailing n ∧ t = .power raw.sign m n := by
  rw [readTerm_eq_power hbody h]
  constructor
  · intro h
    cases hm : readLeading raw.bodyStart leading with
    | error e =>
      rw [hm] at h
      cases h
    | ok m =>
      rw [hm] at h
      cases hn : readExponent (raw.bodyStart + byteLength leading + var.utf8Size) trailing with
      | error e =>
        rw [hn] at h
        cases h
      | ok n =>
        rw [hn] at h
        cases h
        exact ⟨m, n, readLeading_eq_ok_iff.mp hm, readExponent_eq_ok_iff.mp hn, rfl⟩
  · rintro ⟨m, n, hm, hn, rfl⟩
    rw [readLeading_eq_ok_iff.mpr hm]
    show (do
      let n ← readExponent _ _
      return Term.power raw.sign _ n : Except Error Term) = _
    rw [readExponent_eq_ok_iff.mpr hn]
    rfl

/-- A term is read exactly if its body is in the grammar. -/
theorem readTerm_eq_ok_iff {var : Char} {raw : RawTerm} {t : Term} :
    readTerm var raw = .ok t ↔ Reads var raw.sign raw.body t := by
  constructor
  · intro h
    by_cases hne : raw.body = []
    · rw [readTerm_of_nil hne] at h
      cases h
    rcases notMem_or_divided var raw.body with hnot | ⟨leading, trailing, hbody, hnot⟩
    · obtain ⟨m, hm, rfl⟩ := (readTerm_of_notMem hne hnot).mp h
      exact .constant hnot hm
    · obtain ⟨m, n, hm, hn, rfl⟩ := (readTerm_of_divided hbody hnot).mp h
      rw [hbody]
      exact .power hnot hm hn
  · intro h
    generalize hbody : raw.body = body at h
    cases h with
    | @constant _ m hnot hm =>
      rw [← hbody] at hnot hm
      have hne : raw.body ≠ [] := (coefficient?_eq_some_iff.mp hm).1.ne_nil
      exact (readTerm_of_notMem hne hnot).mpr ⟨m, hm, rfl⟩
    | @power leading trailing m n hnot hm hn =>
      exact (readTerm_of_divided hbody hnot).mpr ⟨m, n, hm, hn, rfl⟩

/-! ## Expressions -/

/-- The terms that are read from raw terms, in order, each beside its raw term. -/
def ReadsAll (var : Char) (raws : List RawTerm) (terms : List (RawTerm × Term)) : Prop :=
  terms.map Prod.fst = raws ∧ ∀ r ∈ terms, readTerm var r.1 = .ok r.2

/-- Whether terms are read from texts can be decided. -/
instance (var : Char) (raws : List RawTerm) (terms : List (RawTerm × Term)) :
    Decidable (ReadsAll var raws terms) :=
  inferInstanceAs (Decidable (_ ∧ _))

/-- The raw terms beside what is read from them; the error of the first that cannot be read. -/
def readAll (var : Char) (raws : List RawTerm) : Except Error (List (RawTerm × Term)) :=
  raws.mapM fun raw => return (raw, ← readTerm var raw)

section

variable {var : Char} {raw : RawTerm} {raws : List RawTerm} {terms : List (RawTerm × Term)}

/-- After a term that is read the others are. -/
lemma readAll_cons_of_ok {t : Term} (h : readTerm var raw = .ok t) :
    readAll var (raw :: raws) = (readAll var raws).map ((raw, t) :: ·) := by
  rw [readAll, List.mapM_cons, h]
  rfl

/-- A term that cannot be read ends the reading. -/
lemma readAll_cons_of_error {e : Error} (h : readTerm var raw = .error e) :
    readAll var (raw :: raws) = .error e := by
  rw [readAll, List.mapM_cons, h]
  rfl

/-- A term that is read comes before the others. -/
lemma ReadsAll.cons {t : Term} (ht : readTerm var raw = .ok t) (h : ReadsAll var raws terms) :
    ReadsAll var (raw :: raws) ((raw, t) :: terms) := by
  obtain ⟨hmap, hread⟩ := h
  refine ⟨by rw [List.map_cons, hmap], ?_⟩
  intro r hr
  rcases List.mem_cons.mp hr with rfl | hr
  · exact ht
  · exact hread r hr

/-- If all terms are read, the first is and the others are. -/
lemma ReadsAll.of_cons (h : ReadsAll var (raw :: raws) terms) :
    ∃ t rest, terms = (raw, t) :: rest ∧ readTerm var raw = .ok t ∧ ReadsAll var raws rest := by
  obtain ⟨hmap, hread⟩ := h
  obtain ⟨⟨_, t⟩, rest, rfl, rfl, hrest⟩ := List.map_eq_cons_iff.mp hmap
  refine ⟨t, rest, rfl, hread _ List.mem_cons_self, hrest, ?_⟩
  intro r hr
  exact hread r (List.mem_cons_of_mem _ hr)

/-- Terms are read by the rules for each. -/
lemma readAll_eq_ok_iff : readAll var raws = .ok terms ↔ ReadsAll var raws terms := by
  induction raws generalizing terms with
  | nil =>
    constructor
    · intro h
      cases h
      exact ⟨rfl, by simp⟩
    · rintro ⟨hmap, -⟩
      rw [List.map_eq_nil_iff.mp hmap]
      rfl
  | cons raw raws ih =>
    constructor
    · intro h
      cases ht : readTerm var raw with
      | error e =>
        rw [readAll_cons_of_error ht] at h
        cases h
      | ok t =>
        rw [readAll_cons_of_ok ht] at h
        cases hr : readAll var raws with
        | error e =>
          rw [hr] at h
          cases h
        | ok rest =>
          rw [hr] at h
          cases h
          exact .cons ht (ih.mp hr)
    · intro h
      obtain ⟨t, rest, rfl, ht, hrest⟩ := h.of_cons
      rw [readAll_cons_of_ok ht, ih.mpr hrest]
      rfl

/-- Raw terms of which each can be read can all be read. -/
lemma exists_readsAll (h : ∀ raw ∈ raws, ∃ t, readTerm var raw = .ok t) :
    ∃ terms, ReadsAll var raws terms := by
  induction raws with
  | nil => exact ⟨[], rfl, by simp⟩
  | cons raw rest ih =>
    obtain ⟨t, ht⟩ := h raw List.mem_cons_self
    obtain ⟨terms, hterms⟩ := ih fun r hr => h r (List.mem_cons_of_mem _ hr)
    exact ⟨(raw, t) :: terms, .cons ht hterms⟩

/-- The first raw term that cannot be read ends the reading. -/
lemma readAll_of_error {before after : List RawTerm} {e : Error}
    (hbefore : ∀ r ∈ before, ∃ t, readTerm var r = .ok t) (h : readTerm var raw = .error e) :
    readAll var (before ++ raw :: after) = .error e := by
  induction before with
  | nil => exact readAll_cons_of_error h
  | cons r before ih =>
    obtain ⟨t, ht⟩ := hbefore r List.mem_cons_self
    rw [List.cons_append, readAll_cons_of_ok ht,
      ih fun r hr => hbefore r (List.mem_cons_of_mem _ hr)]
    rfl

/-- An error is that of the first term that cannot be read. -/
lemma exists_first_of_error {e : Error} (h : readAll var raws = .error e) :
    ∃ before raw after, raws = before ++ raw :: after ∧
      (∀ r ∈ before, ∃ t, readTerm var r = .ok t) ∧ readTerm var raw = .error e := by
  induction raws with
  | nil => cases h
  | cons raw raws ih =>
    cases ht : readTerm var raw with
    | error e' =>
      rw [readAll_cons_of_error ht] at h
      cases h
      exact ⟨[], raw, raws, rfl, by simp, ht⟩
    | ok t =>
      rw [readAll_cons_of_ok ht] at h
      cases hr : readAll var raws with
      | ok rest =>
        rw [hr] at h
        cases h
      | error e' =>
        rw [hr] at h
        cases h
        obtain ⟨before, raw', after, rfl, hok, herr⟩ := ih hr
        refine ⟨raw :: before, raw', after, rfl, ?_, herr⟩
        intro r hmem
        rcases List.mem_cons.mp hmem with rfl | hmem
        · exact ⟨t, ht⟩
        · exact hok r hmem

end

/-- The terms of an expression, if they can be read. -/
def termsOf (var : Char) (expression : List Char) : List (RawTerm × Term) :=
  (readTerms var expression).toOption.getD []

/-- An expression is read exactly if each of its terms is. -/
theorem readTerms_eq_ok_iff {var : Char} {expression : List Char}
    {terms : List (RawTerm × Term)} :
    readTerms var expression = .ok terms ↔ ReadsAll var (splitTerms expression) terms :=
  readAll_eq_ok_iff

/-- Otherwise the error is that of the first term that is not read. -/
theorem readTerms_eq_error_iff {var : Char} {expression : List Char} {e : Error} :
    readTerms var expression = .error e ↔
      ∃ before raw after, splitTerms expression = before ++ raw :: after ∧
        (∀ r ∈ before, ∃ t, readTerm var r = .ok t) ∧ readTerm var raw = .error e := by
  constructor
  · exact exists_first_of_error
  · rintro ⟨before, raw, after, hsplit, hbefore, herror⟩
    show readAll var (splitTerms expression) = .error e
    rw [hsplit]
    exact readAll_of_error hbefore herror

end PowerRule
