import Mathlib.Tactic.Lemma
import PowerRule.Proofs.Trace
import PowerRule.Proofs.Derivative
import PowerRule.Proofs.Misreading
import PowerRule.Proofs.Offsets
import PowerRule.Proofs.Pieces
import PowerRule.Proofs.RoundTrip

/-!
# Other names for the variable

Which letter the variable is does not matter. An expression in which it is replaced by a letter that
does not occur is cut at the same places (`KeepsCuts.splitTerms_map`), its terms are read as the
same terms or with the same faults (`readTerm_rename`), and so its derivative has the same steps and
coefficients. `derive_rename` puts this together, with the texts of the derivative.
-/

namespace PowerRule

attribute [local irreducible] twoTo tenTo

/-- The other name for the variable; all other characters stay. -/
def rename (var new c : Char) : Char := if c = var then new else c

/-- The same fault, in a text with other characters. -/
def ErrorKind.relabel (f : Char → Char) : ErrorKind → ErrorKind
  | malformedCoefficient text => malformedCoefficient (text.map f)
  | malformedExponent text issue => malformedExponent (text.map f) issue
  | emptyTerm => emptyTerm
  | coefficientOverflow => coefficientOverflow

/-- The same error at the same places, in a text with other characters. -/
def Error.relabel (f : Char → Char) (e : Error) : Error := ⟨e.kind.relabel f, e.spans⟩

/-! ## Characters -/

section

variable {var new : Char}

/-- The old variable becomes the new one. -/
lemma rename_self (var new : Char) : rename var new var = new := if_pos rfl

/-- A text without the variable stays as it is. -/
lemma map_rename_of_notMem {text : List Char} (h : var ∉ text) :
    text.map (rename var new) = text := by
  apply map_eq_self
  intro c hc
  apply if_neg
  rintro rfl
  exact h hc

/-- A character that is neither of the names is kept, and no other becomes it. -/
lemma rename_eq_iff {c d : Char} (hvar : var ≠ d) (hnew : new ≠ d) :
    rename var new c = d ↔ c = d := by
  unfold rename
  split
  · rename_i hc
    subst hc
    exact iff_of_false hnew hvar
  · rfl

end

/-- Two names for a variable that are written with as many bytes. -/
structure Renaming (var new : Char) : Prop where
  var_plain : PlainVariable var
  new_plain : PlainVariable new
  utf8Size_eq : new.utf8Size = var.utf8Size

/-- A letter is one byte long. -/
lemma utf8Size_of_isAlpha {c : Char} (h : c.isAlpha = true) : c.utf8Size = 1 := by
  rw [Char.utf8Size_eq_one_iff, UInt32.le_iff_toNat_le]
  rcases (Bool.or_eq_true _ _).mp h with hupper | hlower
  · have hz : c.val.toNat ≤ 90 := (of_decide_eq_true hupper).2
    exact Nat.le_trans hz (by decide)
  · have hz : c.val.toNat ≤ 122 := of_decide_eq_true ((Bool.and_eq_true _ _).mp hlower).2
    exact Nat.le_trans hz (by decide)

/-- A letter may be renamed to any other. -/
lemma Renaming.of_isAlpha {var new : Char} (hvar : var.isAlpha = true) (hnew : new.isAlpha = true) :
    Renaming var new where
  var_plain := .of_isAlpha hvar
  new_plain := .of_isAlpha hnew
  utf8Size_eq := by rw [utf8Size_of_isAlpha hvar, utf8Size_of_isAlpha hnew]

namespace Renaming

variable {var new : Char} (h : Renaming var new)

include h

/-- A sign comes from the same sign only. -/
lemma eq_sign_iff {c s : Char} (hs : IsSignMark s) : rename var new c = s ↔ c = s := by
  apply rename_eq_iff
  · rintro rfl
    exact h.var_plain.not_sign hs
  · rintro rfl
    exact h.new_plain.not_sign hs

/-- A caret comes from a caret only. -/
lemma eq_caret_iff {c : Char} : rename var new c = '^' ↔ c = '^' :=
  rename_eq_iff h.var_plain.not_caret h.new_plain.not_caret

/-- With another variable, an expression is cut at the same places. -/
lemma keepsCuts : KeepsCuts (rename var new) where
  utf8Size_eq c := by
    unfold rename
    split
    · rename_i hc
      rw [hc, h.utf8Size_eq]
    · rfl
  isSignMark_iff c := or_congr (h.eq_sign_iff (.inl rfl)) (h.eq_sign_iff (.inr rfl))
  eq_caret_iff _ := h.eq_caret_iff

/-! ## Numerals -/

/-- A numeral stays as it is. -/
lemma map_of_numeral {text : List Char} (hn : Numeral text) : text.map (rename var new) = text :=
  map_rename_of_notMem (h.var_plain.notMem_numeral hn)

/-- The new name does not make a numeral of anything else. -/
lemma numeral_map_iff {text : List Char} : Numeral (text.map (rename var new)) ↔ Numeral text := by
  constructor
  · intro hn
    have hnot : var ∉ text := by
      intro hmem
      have hnew := List.mem_map_of_mem (f := rename var new) hmem
      rw [rename_self] at hnew
      exact h.new_plain.notMem_numeral hn hnew
    rwa [map_rename_of_notMem hnot] at hn
  · intro hn
    rwa [h.map_of_numeral hn]

/-- A text is a numeral before and after. -/
lemma isNumeral_map (text : List Char) :
    isNumeral (text.map (rename var new)) = isNumeral text := by
  rw [Bool.eq_iff_iff, isNumeral_iff, isNumeral_iff, h.numeral_map_iff]

/-- It is the same decimal before and after. -/
lemma ofText?_map (text : List Char) :
    Decimal.ofText? (text.map (rename var new)) = Decimal.ofText? text := by
  unfold Decimal.ofText?
  rw [h.isNumeral_map]
  split
  · rename_i hn
    rw [h.map_of_numeral (isNumeral_iff.mp hn)]
  · rfl

/-- It is the same coefficient before and after. -/
lemma coefficient?_map (text : List Char) :
    coefficient? (text.map (rename var new)) = coefficient? text := by
  rw [coefficient?, coefficient?, h.ofText?_map]

/-! ## Terms -/

/-- A coefficient is read as before, but that errors name the new variable. -/
lemma readCoefficient_map (start : Nat) (text : List Char) :
    readCoefficient start (text.map (rename var new)) =
      (readCoefficient start text).mapError (Error.relabel (rename var new)) := by
  unfold readCoefficient
  rw [h.coefficient?_map, Span.ofText, h.keepsCuts.byteLength_map]
  cases coefficient? text with
  | some m => rfl
  | none => rfl

/-- So is what stands before the variable. -/
lemma readLeading_map (start : Nat) (text : List Char) :
    readLeading start (text.map (rename var new)) =
      (readLeading start text).mapError (Error.relabel (rename var new)) := by
  cases text with
  | nil => rfl
  | cons c rest => exact h.readCoefficient_map start (c :: rest)

/-- A text is the same exponent before and after. -/
lemma exponentOfText_map (text : List Char) :
    exponentOfText (text.map (rename var new)) = exponentOfText text := by
  by_cases hn : Numeral text
  · rw [h.map_of_numeral hn]
  · rw [exponentOfText_of_not_numeral hn,
      exponentOfText_of_not_numeral (h.numeral_map_iff.not.mpr hn)]
    cases text with
    | nil => rfl
    | cons c rest =>
      rw [List.map_cons]
      by_cases hc : c = '-'
      · subst hc
        have hminus : rename var new '-' = '-' := (h.eq_sign_iff (.inr rfl)).mpr rfl
        rw [hminus]
        show Except.error (if isNumeral _ then _ else _) = _
        rw [h.isNumeral_map]
        rfl
      · have hminus : rename var new c ≠ '-' := fun hr => hc ((h.eq_sign_iff (.inr rfl)).mp hr)
        simp [hc, hminus]

/-- An exponent is read as before, but that errors name the new variable. -/
lemma readExponent_map (start : Nat) (text : List Char) :
    readExponent start (text.map (rename var new)) =
      (readExponent start text).mapError (Error.relabel (rename var new)) := by
  cases text with
  | nil => rfl
  | cons c rest =>
    have hspan : Span.ofText start ((c :: rest).map (rename var new)) =
        Span.ofText start (c :: rest) := by
      rw [Span.ofText, Span.ofText, h.keepsCuts.byteLength_map]
    rw [List.map_cons] at hspan ⊢
    by_cases hc : c = '^'
    · subst hc
      have hcaret : rename var new '^' = '^' := h.eq_caret_iff.mpr rfl
      rw [hcaret] at hspan ⊢
      rw [readExponent, readExponent, hspan, h.exponentOfText_map]
      cases exponentOfText rest with
      | ok n => rfl
      | error issue => rfl
    · have hmalformed : ∀ d text, d ≠ '^' → readExponent start (d :: text) =
          .error ⟨.malformedExponent (d :: text) .notANumber, [Span.ofText start (d :: text)]⟩ :=
        fun d text hd => readExponent_eq_error_iff.mpr
          ⟨_, _, .noCaret (List.cons_ne_nil _ _) (by simpa using hd), rfl⟩
      rw [hmalformed c rest hc, hmalformed _ _ fun hr => hc (h.eq_caret_iff.mp hr), hspan]
      rfl

/-- A term keeps its sign. -/
lemma sign_relabel (raw : RawTerm) : (raw.relabel (rename var new)).sign = raw.sign := by
  obtain ⟨start, text⟩ := raw
  cases text with
  | nil => rfl
  | cons c rest =>
    by_cases hc : c = '-'
    · subst hc
      have hminus : rename var new '-' = '-' := (h.eq_sign_iff (.inr rfl)).mpr rfl
      simp [RawTerm.relabel, RawTerm.sign, hminus]
    · have hminus : rename var new c ≠ '-' := fun hr => hc ((h.eq_sign_iff (.inr rfl)).mp hr)
      simp [RawTerm.relabel, RawTerm.sign, hc, hminus]

/-- A term is read as the same term or has the same fault, if the new name does not occur in it. -/
theorem readTerm_rename {raw : RawTerm} (hnew : new ∉ raw.body) :
    readTerm new (raw.relabel (rename var new)) =
      (readTerm var raw).mapError (Error.relabel (rename var new)) := by
  have hbody := h.keepsCuts.body_relabel raw
  by_cases hnil : raw.body = []
  · rw [hnil] at hbody
    rw [readTerm_of_nil hnil, readTerm_of_nil hbody, h.keepsCuts.span_relabel]
    rfl
  rcases notMem_or_divided var raw.body with hnot | ⟨leading, trailing, hdivided, hnot⟩
  · have hnil' : (raw.relabel (rename var new)).body ≠ [] := by
      rwa [hbody, Ne, List.map_eq_nil_iff]
    have hnot' : new ∉ (raw.relabel (rename var new)).body := by
      rwa [hbody, map_rename_of_notMem hnot]
    rw [readTerm_eq_constant hnil hnot, readTerm_eq_constant hnil' hnot', hbody,
      h.sign_relabel, h.keepsCuts.bodyStart_relabel, h.readCoefficient_map]
    cases readCoefficient raw.bodyStart raw.body with
    | ok m => rfl
    | error e => rfl
  · -- No new name comes before the old one, so the body is divided at the same place.
    have hdivided' : (raw.relabel (rename var new)).body =
        leading.map (rename var new) ++ new :: trailing.map (rename var new) := by
      rw [hbody, hdivided, List.map_append, List.map_cons, rename_self]
    have hnot' : new ∉ leading.map (rename var new) := by
      rw [map_rename_of_notMem hnot]
      intro hmem
      rw [hdivided] at hnew
      exact hnew (List.mem_append_left _ hmem)
    rw [readTerm_eq_power hdivided hnot, readTerm_eq_power hdivided' hnot', h.sign_relabel,
      h.keepsCuts.bodyStart_relabel, h.keepsCuts.byteLength_map, h.utf8Size_eq,
      h.readExponent_map, h.readLeading_map]
    cases readLeading raw.bodyStart leading with
    | error e => rfl
    | ok m =>
      cases readExponent (raw.bodyStart + byteLength leading + var.utf8Size) trailing with
      | error e => rfl
      | ok n => rfl

/-- All terms are read as before, in texts with the new variable. -/
lemma readAll_rename {raws : List RawTerm} (hnew : ∀ raw ∈ raws, new ∉ raw.body) :
    readAll new (raws.map (RawTerm.relabel (rename var new))) =
      ((readAll var raws).map (List.map (Prod.map (RawTerm.relabel (rename var new)) id))).mapError
        (Error.relabel (rename var new)) := by
  induction raws with
  | nil => rfl
  | cons raw rest ih =>
    have hraw := h.readTerm_rename (hnew raw List.mem_cons_self)
    have hrest := ih fun r hr => hnew r (List.mem_cons_of_mem _ hr)
    rw [List.map_cons]
    cases ht : readTerm var raw with
    | error e =>
      rw [ht] at hraw
      rw [readAll_cons_of_error ht, readAll_cons_of_error hraw]
      rfl
    | ok t =>
      rw [ht] at hraw
      rw [readAll_cons_of_ok ht, readAll_cons_of_ok hraw, hrest]
      cases readAll var rest with
      | error e => rfl
      | ok terms => rfl

/-- An expression is read as the same terms or has the same fault. -/
theorem readTerms_rename {expression : List Char} (hnew : new ∉ expression) :
    readTerms new (expression.map (rename var new)) =
      ((readTerms var expression).map
        (List.map (Prod.map (RawTerm.relabel (rename var new)) id))).mapError
          (Error.relabel (rename var new)) := by
  show readAll new (splitTerms (expression.map (rename var new))) = _
  rw [h.keepsCuts.splitTerms_map]
  apply h.readAll_rename
  intro raw hraw hmem
  obtain ⟨before, after, hexpression, _⟩ :=
    Span.slice?_eq_some_iff.mp (slice?_of_mem_splitTerms hraw)
  obtain ⟨sign, htext, _⟩ := raw.exists_sign
  apply hnew
  rw [← hexpression, htext]
  simp [hmem]

end Renaming

/-! ## Derivatives -/

/-- Only the places of terms matter when they are differentiated, not their texts. -/
lemma differentiateTerms_relabel {f : Char → Char} (hf : KeepsCuts f)
    (terms : List (RawTerm × Term)) :
    differentiateTerms (terms.map (Prod.map (RawTerm.relabel f) id)) =
      differentiateTerms terms := by
  induction terms with
  | nil => rfl
  | cons r rest ih =>
    obtain ⟨raw, t⟩ := r
    rw [List.map_cons, Prod.map_apply, differentiateTerms, differentiateTerms, ih,
      hf.span_relabel]
    rfl

/-- The derivative of terms does not depend on their texts. -/
lemma deriveTerms_relabel {f : Char → Char} (hf : KeepsCuts f) (terms : List (RawTerm × Term)) :
    deriveTerms (terms.map (Prod.map (RawTerm.relabel f) id)) = deriveTerms terms := by
  rw [deriveTerms, deriveTerms, differentiateTerms_relabel hf]

/-- The errors of terms that were read have no text. -/
lemma mapError_deriveTerms (f : Char → Char) (terms : List (RawTerm × Term)) :
    (deriveTerms terms).result.mapError (Error.relabel f) = (deriveTerms terms).result := by
  rcases finiteProducts_or_first terms with hfinite | ⟨before, r, after, rfl, hbefore, hr⟩
  · rw [deriveTerms, differentiateTerms_of_finite hfinite]
    show (sumContributions _).mapError _ = sumContributions _
    rw [sumContributions_eq]
    cases (formalSum terms).terms.find? (!·.coefficient.isFinite) with
    | none => rfl
    | some m => rfl
  · rw [deriveTerms, differentiateTerms_of_overflow hbefore hr]
    rfl

/-- A derivation has the same steps and the same result, but that errors name the new variable. -/
lemma Renaming.derive_eq {var new : Char} (h : Renaming var new) {expression : List Char}
    (hnew : new ∉ expression) :
    derive new (expression.map (rename var new)) =
      ⟨(derive var expression).steps,
        (derive var expression).result.mapError (Error.relabel (rename var new))⟩ := by
  rw [derive, h.readTerms_rename hnew, derive]
  cases readTerms var expression with
  | error e => rfl
  | ok terms =>
    show deriveTerms (terms.map _) = _
    rw [deriveTerms_relabel h.keepsCuts, mapError_deriveTerms]

/-! ## Texts of derivatives -/

section

variable {var new : Char} (hvar : var.isAlpha = true)

include hvar

/-- A monomial is written with the new variable. -/
lemma map_rename_unsignedText (style : Style) {magnitude : List Char} (hn : Numeral magnitude)
    (n : Nat) :
    (Monomial.unsignedText style var magnitude n).map (rename var new) =
      Monomial.unsignedText style new magnitude n := by
  have hmagnitude : magnitude.map (rename var new) = magnitude :=
    map_rename_of_notMem ((PlainVariable.of_isAlpha hvar).notMem_numeral hn)
  unfold Monomial.unsignedText
  split
  · exact hmagnitude
  · have hpower : var ∉ style.exponents.power n :=
      notMem_power (.of_isAlpha hvar) (by constructor <;> rintro rfl <;> cases hvar) _ n
    rw [List.map_append, List.map_cons, rename_self, map_rename_of_notMem hpower]
    split
    · rfl
    · rw [hmagnitude]

/-- Signs stay as they are. -/
lemma map_rename_signText (first : Bool) (m : Monomial) :
    (m.signText first).map (rename var new) = m.signText first :=
  map_rename_of_notMem (notMem_signText (.of_isAlpha hvar) first m)

/-- The terms of a polynomial are written with the new variable. -/
lemma map_rename_termTexts (style : Style) (first : Bool) {ms : List Monomial}
    (hfinite : ∀ m ∈ ms, m.coefficient.isFinite = true) :
    (Polynomial.termTexts style var first ms).map (List.map (rename var new)) =
      Polynomial.termTexts style new first ms := by
  induction ms generalizing first with
  | nil => rfl
  | cons m rest ih =>
    obtain ⟨c, hc, _⟩ := m.coefficient?_magnitudeText style (hfinite m List.mem_cons_self)
    have hrest := ih false fun t ht => hfinite t (List.mem_cons_of_mem _ ht)
    rw [Polynomial.termTexts, List.map_cons, hrest, Monomial.termText, List.map_append,
      map_rename_signText hvar,
      map_rename_unsignedText hvar style (coefficient?_eq_some_iff.mp hc).1]
    rfl

/-- A polynomial in the new variable is written like the one in the old. -/
lemma map_rename_format (style : Style) {p : Polynomial}
    (hfinite : ∀ m ∈ p.terms, m.coefficient.isFinite = true) :
    (p.format style var).map (rename var new) = p.format style new := by
  rw [Polynomial.format, Polynomial.format, Polynomial.formatTerms_eq_flatten,
    Polynomial.formatTerms_eq_flatten, List.map_flatten,
    map_rename_termTexts hvar style true fun m hm => hfinite m (List.mem_of_mem_filter hm)]

end

/-- The variable may be renamed to a letter that does not occur. The steps stay the same, whoever
collects them, and so does the polynomial; an error has the same places and is of the same kind,
with the variable renamed in its text. So the text of the derivative, in any style, is that of the
old one with the variable renamed. -/
theorem derive_rename {var new : Char} (hvar : var.isAlpha = true) (hnew : new.isAlpha = true)
    {expression : List Char} (hfresh : new ∉ expression) :
    (∀ {σ : Type} (c : Collector σ) (state : σ),
      deriveInto c state new (expression.map (rename var new)) =
        ((deriveInto c state var expression).1,
          (deriveInto c state var expression).2.mapError (Error.relabel (rename var new)))) ∧
    derive new (expression.map (rename var new)) =
      ⟨(derive var expression).steps,
        (derive var expression).result.mapError (Error.relabel (rename var new))⟩ ∧
    ∀ style, differentiateWith style new (expression.map (rename var new)) =
      ((differentiateWith style var expression).map (List.map (rename var new))).mapError
        (Error.relabel (rename var new)) := by
  have h : Renaming var new := .of_isAlpha hvar hnew
  have hderive := h.derive_eq hfresh
  refine ⟨?_, hderive, ?_⟩
  · intro σ c state
    rw [deriveInto_eq, deriveInto_eq, hderive]
  · intro style
    rw [differentiateWith, differentiateWith, derivative, hderive]
    show ((derivative var expression).mapError _).map _ = _
    cases hderivative : derivative var expression with
    | error e => rfl
    | ok p =>
      have htext : (p.format style var).map (rename var new) = p.format style new :=
        map_rename_format hvar style (isFinite_of_derivative hderivative)
      exact congrArg Except.ok htext.symm

/-- A derivative in `e` in place of `x`, and an error that names `e`. -/
theorem derive_rename_e :
    'x'.isAlpha = true ∧ 'e'.isAlpha = true ∧
    'e' ∉ "1.5x^2-3x".toList ∧ 'e' ∉ "2x-x^x".toList ∧
    differentiateWith .canonical 'e' "1.5e^2-3e".toList = .ok "3e-3".toList ∧
    derivative 'e' "2e-e^e".toList =
      .error ⟨.malformedExponent "e".toList .notANumber, [⟨4, 6⟩]⟩ := by
  have hx : 'x'.isAlpha = true := rfl
  have he : 'e'.isAlpha = true := rfl
  have hfresh : 'e' ∉ "1.5x^2-3x".toList := by decide
  have hfresh' : 'e' ∉ "2x-x^x".toList := by decide
  refine ⟨hx, he, hfresh, hfresh', ?_, ?_⟩
  · have hrename := (derive_rename hx he hfresh).2.2 .canonical
    have hold : differentiateWith .canonical 'x' "1.5x^2-3x".toList = .ok "3x-3".toList := by
      decide +kernel
    rw [hold] at hrename
    exact hrename
  · have hrename := congrArg Derivation.result (derive_rename hx he hfresh').2.1
    have hread : readTerms 'x' "2x-x^x".toList =
        .error ⟨.malformedExponent "x".toList .notANumber, [⟨4, 6⟩]⟩ := by
      decide +kernel
    have hold : (derive 'x' "2x-x^x".toList).result =
        .error ⟨.malformedExponent "x".toList .notANumber, [⟨4, 6⟩]⟩ := by
      rw [derive, hread]
    dsimp only at hrename
    rw [hold] at hrename
    exact hrename

end PowerRule
