import Mathlib.Tactic.Lemma
import PowerRule.Proofs.MonomialText

/-!
# Exponents in braces

The two styles of exponents differ in braces only. `braceExponents` puts braces around the digits
that follow a caret, in any text; `bracedTexts` are the texts that stand in braces. What is written
with braces is what is written without them and then braced, the texts in braces are the exponents
from two on, and without the braces it is read back (`Polynomial.latexOf_format`).
-/

namespace PowerRule

attribute [local irreducible] twoTo tenTo

/-- The text with braces around the digits it starts with, if there are any. -/
def braceDigits (text : List Char) : List Char :=
  let digits := text.takeWhile Char.isDigit
  if digits = [] then text
  else '\x7b' :: digits ++ '\x7d' :: text.dropWhile Char.isDigit

/-- The text with braces around all digits that follow a caret. -/
def braceExponents : List Char → List Char
  | [] => []
  | c :: rest =>
    -- Bracing does not change the digits that the rest starts with.
    if c = '^' then c :: braceDigits (braceExponents rest)
    else c :: braceExponents rest

/-- The texts between an opening brace and the next closing one. -/
def bracedTexts : List Char → List (List Char)
  | [] => []
  | c :: rest =>
    if c = '\x7b' then rest.takeWhile (· != '\x7d') :: bracedTexts rest
    else bracedTexts rest

/-- The text without its braces. -/
def eraseBraces (text : List Char) : List Char := text.filter fun c => c != '\x7b' && c != '\x7d'

/-- `latex` is `plain` with the digits after carets in braces, `exponents` are in these braces, and
without them it is `plain` again. -/
structure BracesExponents (plain latex : List Char) (exponents : List Nat) : Prop where
  braced : latex = braceExponents plain
  bracedTexts_eq : bracedTexts latex = exponents.map (Nat.toDigits 10)
  erased : eraseBraces latex = plain

/-- The text is read term by term as the monomials. Without a term the text is empty. -/
inductive ReadsAs (var : Char) : List Char → List Monomial → Prop where
  | empty :
    ReadsAs var [] []
  | terms {text : List Char} {read : List (RawTerm × Term)} :
    readTerms var text = .ok read →
    ReadsAs var text (read.map fun r => r.2.toMonomial)

/-- `plain` is read as the monomials, and `latex` is the same text with their exponents in braces.
The exponents zero and one are not written. -/
structure LatexOf (var : Char) (plain latex : List Char) (monomials : List Monomial) : Prop extends
    BracesExponents plain latex ((monomials.map Monomial.exponent).filter (2 ≤ ·)) where
  reads : ReadsAs var plain monomials

/-! ## Bracing in steps -/

/-- A text in which braces are neither found nor put. -/
def Unmarked (text : List Char) : Prop := ∀ c ∈ text, c ≠ '^' ∧ c ≠ '\x7b' ∧ c ≠ '\x7d'

namespace Unmarked

variable {text : List Char}

/-- Texts without carets and braces have none together. -/
lemma append {other : List Char} (h : Unmarked text) (hother : Unmarked other) :
    Unmarked (text ++ other) := by
  intro c hc
  rcases List.mem_append.mp hc with hc | hc
  · exact h c hc
  · exact hother c hc

/-- Digits and points are no marks. -/
lemma of_digits_points (h : ∀ c ∈ text, c.isDigit = true ∨ c = '.') : Unmarked text := by
  intro c hc
  rcases h c hc with hd | rfl
  · refine ⟨?_, ?_, ?_⟩ <;> rintro rfl <;> cases hd
  · decide

/-- A numeral has none. -/
lemma of_numeral (h : Numeral text) : Unmarked text := of_digits_points fun _ hc => h.mem hc

/-- Digits have none. -/
lemma of_digits (h : Digits text) : Unmarked text := of_digits_points fun c hc => .inl (h c hc)

/-- Such a text stays as it is before exponents in braces. -/
lemma braceExponents_append (h : Unmarked text) (rest : List Char) :
    braceExponents (text ++ rest) = text ++ braceExponents rest := by
  induction text with
  | nil => rfl
  | cons c text ih =>
    have hc := (h c List.mem_cons_self).1
    have htext := ih fun d hd => h d (List.mem_cons_of_mem _ hd)
    rw [List.cons_append, braceExponents, if_neg hc, htext, List.cons_append]

/-- There is nothing in braces in it. -/
lemma bracedTexts_append (h : Unmarked text) (rest : List Char) :
    bracedTexts (text ++ rest) = bracedTexts rest := by
  induction text with
  | nil => rfl
  | cons c text ih =>
    have hc := (h c List.mem_cons_self).2.1
    have htext := ih fun d hd => h d (List.mem_cons_of_mem _ hd)
    rw [List.cons_append, bracedTexts, if_neg hc, htext]

/-- It has no braces to erase. -/
lemma eraseBraces_append (h : Unmarked text) (rest : List Char) :
    eraseBraces (text ++ rest) = text ++ eraseBraces rest := by
  have htext : text.filter (fun c => c != '\x7b' && c != '\x7d') = text := by
    rw [List.filter_eq_self]
    intro c hc
    obtain ⟨_, hopen, hclose⟩ := h c hc
    simp [hopen, hclose]
  rw [eraseBraces, List.filter_append, htext, eraseBraces]

end Unmarked

/-- Braces are put behind carets only, so that a text starts as before. -/
lemma head?_braceExponents (text : List Char) : (braceExponents text).head? = text.head? := by
  cases text with
  | nil => rfl
  | cons c rest =>
    rw [braceExponents]
    split <;> rfl

/-- A text that does not start with a digit. -/
def StartsPastDigits (text : List Char) : Prop := ∀ c, text.head? = some c → c.isDigit = false

/-- There are no digits at its start. -/
lemma StartsPastDigits.takeWhile_eq {text : List Char} (h : StartsPastDigits text) :
    text.takeWhile Char.isDigit = [] := by
  cases text with
  | nil => rfl
  | cons c rest => rw [List.takeWhile_cons_of_neg (by simp [h c rfl])]

/-- All of it is past the digits. -/
lemma StartsPastDigits.dropWhile_eq {text : List Char} (h : StartsPastDigits text) :
    text.dropWhile Char.isDigit = text := by
  cases text with
  | nil => rfl
  | cons c rest => rw [List.dropWhile_cons_of_neg (by simp [h c rfl])]

/-- The digits after a caret are braced up to where they end. -/
lemma braceExponents_caret {digits rest : List Char} (hne : digits ≠ []) (hd : Digits digits)
    (hrest : StartsPastDigits rest) :
    braceExponents ('^' :: digits ++ rest) =
      '^' :: '\x7b' :: digits ++ '\x7d' :: braceExponents rest := by
  have hrest' : StartsPastDigits (braceExponents rest) := by
    intro c hc
    rw [head?_braceExponents] at hc
    exact hrest c hc
  rw [List.cons_append, braceExponents, if_pos rfl, (Unmarked.of_digits hd).braceExponents_append,
    braceDigits, hd.takeWhile_append, hrest'.takeWhile_eq, hd.dropWhile_append,
    hrest'.dropWhile_eq, List.append_nil, if_neg hne]
  rfl

namespace BracesExponents

variable {plain latex : List Char} {exponents : List Nat}

/-- In an empty text there are no exponents. -/
lemma nil : BracesExponents [] [] [] where
  braced := rfl
  bracedTexts_eq := rfl
  erased := rfl

/-- What holds no caret and no brace may come before both texts. -/
lemma prepend {text : List Char} (htext : Unmarked text)
    (h : BracesExponents plain latex exponents) :
    BracesExponents (text ++ plain) (text ++ latex) exponents where
  braced := by rw [htext.braceExponents_append, h.braced]
  bracedTexts_eq := by rw [htext.bracedTexts_append, h.bracedTexts_eq]
  erased := by rw [htext.eraseBraces_append, h.erased]

/-- An exponent may come before both texts, in braces before one of them, if no further digit
follows it. -/
lemma caret (h : BracesExponents plain latex exponents) (hplain : StartsPastDigits plain)
    (n : Nat) :
    BracesExponents ('^' :: Nat.toDigits 10 n ++ plain)
      ('^' :: '\x7b' :: Nat.toDigits 10 n ++ '\x7d' :: latex) (n :: exponents) := by
  have hdigits := Digits.toDigits n
  have hunmarked := Unmarked.of_digits hdigits
  have hclosed : ∀ c ∈ Nat.toDigits 10 n, (c != '\x7d') = true := by
    intro c hc
    simpa using (hunmarked c hc).2.2
  refine ⟨?_, ?_, ?_⟩
  · rw [braceExponents_caret Nat.toDigits_ne_nil hdigits hplain, h.braced]
  · have hbraced : (Nat.toDigits 10 n ++ '\x7d' :: latex).takeWhile (· != '\x7d') =
        Nat.toDigits 10 n := by
      rw [List.takeWhile_append_of_pos hclosed]
      simp
    have hlatex : bracedTexts ('\x7d' :: latex) = exponents.map (Nat.toDigits 10) :=
      h.bracedTexts_eq
    show bracedTexts ('\x7b' :: (Nat.toDigits 10 n ++ '\x7d' :: latex)) = _
    rw [bracedTexts, if_pos rfl, hbraced, hunmarked.bracedTexts_append, hlatex, List.map_cons]
  · have hlatex : eraseBraces ('\x7d' :: latex) = plain := h.erased
    show '^' :: eraseBraces (Nat.toDigits 10 n ++ '\x7d' :: latex) = _
    rw [hunmarked.eraseBraces_append, hlatex]
    rfl

end BracesExponents

/-! ## Terms with braces -/

/-- Signs are neither carets nor braces. -/
lemma unmarked_signText (first : Bool) (m : Monomial) : Unmarked (m.signText first) := by
  unfold Monomial.signText
  split_ifs <;> simp [Unmarked]

/-- A term that follows another one starts with a sign. -/
lemma Polynomial.startsPastDigits_termTexts (style : Style) (var : Char) (ms : List Monomial) :
    StartsPastDigits (termTexts style var false ms).flatten := by
  cases ms with
  | nil => exact nofun
  | cons m rest =>
    intro c hc
    rw [termTexts, List.flatten_cons, Monomial.termText, Monomial.signText] at hc
    split at hc
    · cases hc
      rfl
    · cases hc
      rfl

section

variable {var : Char} (hvar : PlainVariable var) (hbraces : var ≠ '\x7b' ∧ var ≠ '\x7d')
  (precision : Option Nat)

include hvar hbraces

/-- A term comes before both texts with its exponent, if that is written. -/
lemma BracesExponents.unsignedText {plain latex : List Char} {exponents : List Nat}
    (h : BracesExponents plain latex (exponents.filter (2 ≤ ·))) (hplain : StartsPastDigits plain)
    {magnitude : List Char} (hn : Numeral magnitude) (n : Nat) :
    BracesExponents (Monomial.unsignedText ⟨precision, .plain⟩ var magnitude n ++ plain)
      (Monomial.unsignedText ⟨precision, .latex⟩ var magnitude n ++ latex)
      ((n :: exponents).filter (2 ≤ ·)) := by
  have hmagnitude := Unmarked.of_numeral hn
  have hleading : Unmarked ((if magnitude = ['1'] then [] else magnitude) ++ [var]) := by
    refine .append ?_ ?_
    · split
      · exact nofun
      · exact hmagnitude
    · intro c hc
      rw [List.mem_singleton.mp hc]
      exact ⟨hvar.not_caret, hbraces⟩
  unfold Monomial.unsignedText ExponentStyle.power
  by_cases hzero : n = 0
  · rw [if_pos hzero, if_pos hzero, List.filter_cons_of_neg (by simp [hzero])]
    exact h.prepend hmagnitude
  · rw [if_neg hzero, if_neg hzero]
    by_cases hone : n = 1
    · rw [if_pos hone, if_pos hone, List.filter_cons_of_neg (by simp [hone])]
      exact h.prepend hleading
    · rw [if_neg hone, if_neg hone, List.filter_cons_of_pos (by simp; omega)]
      have hcaret := (h.caret hplain n).prepend hleading
      simpa using hcaret

/-- Written one after the other, terms have their exponents from two on in braces. -/
lemma Polynomial.bracesExponents_termTexts {ms : List Monomial}
    (hfinite : ∀ m ∈ ms, m.coefficient.isFinite = true) (first : Bool) :
    BracesExponents (termTexts ⟨precision, .plain⟩ var first ms).flatten
      (termTexts ⟨precision, .latex⟩ var first ms).flatten
      ((ms.map Monomial.exponent).filter (2 ≤ ·)) := by
  induction ms generalizing first with
  | nil => exact .nil
  | cons m rest ih =>
    have hrest := ih (fun t ht => hfinite t (List.mem_cons_of_mem _ ht)) false
    obtain ⟨_, hmagnitude, _⟩ := m.coefficient?_magnitudeText ⟨precision, .plain⟩
      (hfinite m List.mem_cons_self)
    have hnumeral := (coefficient?_eq_some_iff.mp hmagnitude).1
    have hunsigned := hrest.unsignedText hvar hbraces precision
      (startsPastDigits_termTexts _ var rest) hnumeral m.exponent
    have hterm := hunsigned.prepend (unmarked_signText first m)
    rw [← List.append_assoc, ← List.append_assoc] at hterm
    exact hterm

end

/-! ## Single terms -/

namespace Monomial

/-- The polynomial with this term only. -/
def toPolynomial (m : Monomial) : Polynomial := ⟨[m], List.pairwise_singleton _ m⟩

/-- A term that survives is written on its own as in the polynomial with this term only. -/
lemma format_toPolynomial {style : Style} {m : Monomial} (h : m.survives style = true)
    (var : Char) :
    m.toPolynomial.format style var = m.format style var := by
  have hsurvivors : m.toPolynomial.terms.filter (survives style) = [m] := by simp [toPolynomial, h]
  rw [Polynomial.format, Polynomial.formatTerms_eq_flatten, hsurvivors, Polynomial.termTexts,
    termText_eq_format h]
  exact List.append_nil _

/-- The monomial that a written one is read as: zero has no exponent. -/
def rereadAlone (style : Style) (m : Monomial) : Monomial :=
  if m.magnitudeText style = ['0'] then ⟨.zero, 0⟩ else m.reread style

end Monomial

/-- A zero on its own is read as the constant zero. -/
lemma readsAs_zero {var : Char} (hvar : PlainVariable var) : ReadsAs var ['0'] [⟨.zero, 0⟩] := by
  have hzero : coefficient? ['0'] = some .zero := by
    rw [Monomial.coefficient?_zero]
    exact congrArg some (Magnitude.ext (Nat.zero_mul _))
  have hnumeral := (coefficient?_eq_some_iff.mp hzero).1
  have hread : ∀ start, readTerm var ⟨start, ['0']⟩ = .ok (.constant .positive .zero) :=
    fun start => readTerm_eq_ok_iff.mpr (.constant (hvar.notMem_numeral hnumeral) hzero)
  have hall : List.Forall₂ (fun text t => ∀ start, readTerm var ⟨start, text⟩ = .ok t)
      [['0']] [.constant .positive .zero] := .cons hread .nil
  obtain ⟨read, hok, hsnd⟩ :=
    readTerms_flatten (.inl hnumeral.termBody) (List.forall_mem_nil _) hall
  have hterms := ReadsAs.terms hok
  have hmap : read.map (fun r => r.2.toMonomial) = [⟨.zero, 0⟩] := by
    have h := congrArg (List.map Term.toMonomial) hsnd
    rw [List.map_map] at h
    exact h
  rw [hmap] at hterms
  exact hterms

namespace Polynomial

section

variable {var : Char} (hvar : PlainVariable var) (hbraces : var ≠ '\x7b' ∧ var ≠ '\x7d')
  (precision : Option Nat) {p : Polynomial} (hfinite : ∀ m ∈ p.terms, m.coefficient.isFinite = true)
  (hmax : ∀ m ∈ p.terms, m.exponent ≤ maxExponent)

include hvar hfinite hmax

/-- What is written without braces is read as the terms that survive. -/
lemma readsAs_format {style : Style} (hplain : style.exponents = .plain) :
    ReadsAs var (p.format style var)
      ((p.terms.filter (Monomial.survives style)).map (Monomial.reread style)) := by
  by_cases hne : p.terms.filter (Monomial.survives style) = []
  · rw [format, formatTerms_eq_flatten, hne]
    exact .empty
  · obtain ⟨read, hread, hmap⟩ := readTerms_format_of_survivors hplain hvar hfinite hmax hne
    rw [← hmap]
    exact .terms hread

include hbraces

/-- The terms that survive are written with braces around their exponents, or without. -/
lemma latexOf_survivors :
    LatexOf var (p.format ⟨precision, .plain⟩ var) (p.format ⟨precision, .latex⟩ var)
      ((p.terms.filter (Monomial.survives ⟨precision, .plain⟩)).map
        (Monomial.reread ⟨precision, .plain⟩)) where
  toBracesExponents := by
    have hsurvivors : ∀ m ∈ p.terms.filter (Monomial.survives ⟨precision, .plain⟩),
        m.coefficient.isFinite = true :=
      fun m hm => hfinite m (List.mem_of_mem_filter hm)
    have hbraced := bracesExponents_termTexts hvar hbraces precision hsurvivors true
    rw [format, formatTerms_eq_flatten, format, formatTerms_eq_flatten, List.map_map]
    exact hbraced
  reads := readsAs_format hvar hfinite hmax rfl

end

/-- A single term, too, is written with braces around its exponent, or without. -/
lemma latexOf_monomial {var : Char} (hvar : PlainVariable var)
    (hbraces : var ≠ '\x7b' ∧ var ≠ '\x7d') (precision : Option Nat) {m : Monomial}
    (hfinite : m.coefficient.isFinite = true) (hmax : m.exponent ≤ maxExponent) :
    LatexOf var (m.format ⟨precision, .plain⟩ var) (m.format ⟨precision, .latex⟩ var)
      [m.rereadAlone ⟨precision, .plain⟩] := by
  -- Which terms survive depends on the precision only.
  have hstyle : m.survives ⟨precision, .latex⟩ = m.survives ⟨precision, .plain⟩ := rfl
  cases hsurvives : m.survives ⟨precision, .plain⟩ with
  | true =>
    have hne : m.magnitudeText ⟨precision, .plain⟩ ≠ ['0'] := by
      simpa [Monomial.survives_eq] using hsurvives
    have h := latexOf_survivors hvar hbraces precision (p := m.toPolynomial)
      (by simpa [Monomial.toPolynomial] using hfinite) (by simpa [Monomial.toPolynomial] using hmax)
    have hsurvivors :
        m.toPolynomial.terms.filter (Monomial.survives ⟨precision, .plain⟩) = [m] := by
      simp [Monomial.toPolynomial, hsurvives]
    rw [Monomial.format_toPolynomial hsurvives,
      Monomial.format_toPolynomial (hstyle.trans hsurvives), hsurvivors] at h
    rw [Monomial.rereadAlone, if_neg hne]
    exact h
  | false =>
    have hzero : m.magnitudeText ⟨precision, .plain⟩ = ['0'] := by
      simpa [Monomial.survives_eq] using hsurvives
    rw [Monomial.rereadAlone, if_pos hzero, Monomial.format_of_not_survives hsurvives,
      Monomial.format_of_not_survives (hstyle.trans hsurvives)]
    exact ⟨⟨rfl, rfl, rfl⟩, readsAs_zero hvar⟩

/-- With braces a polynomial is written as without them, but for the braces around the digits after
each caret. What is in braces are the exponents from two on of the terms that survive. Without the
braces it is read term by term as these terms. The same holds of a monomial on its own. If no
precision is given, what is read are the stored terms. -/
theorem latexOf_format {var : Char} (hvar : PlainVariable var)
    (hbraces : var ≠ '\x7b' ∧ var ≠ '\x7d') (precision : Option Nat) (p : Polynomial)
    (hfinite : ∀ m ∈ p.terms, m.coefficient.isFinite = true)
    (hmax : ∀ m ∈ p.terms, m.exponent ≤ maxExponent) :
    let plain : Style := ⟨precision, .plain⟩
    let latex : Style := ⟨precision, .latex⟩
    let survivors := p.terms.filter fun m => m.magnitudeText plain != ['0']
    LatexOf var (p.format plain var) (p.format latex var) (survivors.map (Monomial.reread plain)) ∧
    (∀ m : Monomial, m.coefficient.isFinite = true → m.exponent ≤ maxExponent →
      LatexOf var (m.format plain var) (m.format latex var) [m.rereadAlone plain]) ∧
    (precision = none → ∀ m : Monomial, m.coefficient.isFinite = true →
      m.magnitudeText plain ≠ ['0'] → m.reread plain = m) := by
  intro plain latex survivors
  have hsurvivors : p.terms.filter (Monomial.survives plain) = survivors :=
    List.filter_congr fun m _ => Monomial.survives_eq plain m
  refine ⟨?_, ?_, ?_⟩
  · rw [← hsurvivors]
    exact latexOf_survivors hvar hbraces precision hfinite hmax
  · intro m hm hle
    exact latexOf_monomial hvar hbraces precision hm hle
  · rintro rfl m hm hne
    have hsurvives : m.survives plain = true := by simpa [Monomial.survives_eq] using hne
    have hzero : m.coefficient.isZero = false := by
      rw [Monomial.survives_of_no_precision rfl] at hsurvives
      simpa using hsurvives
    exact Monomial.reread_canonical hm hzero

/-- The polynomial `12x ^ 10 + 0.001x ^ 4 - x ^ 3 + 0.5x`. -/
def gapped : Polynomial where
  terms := [⟨.ofNat 12, 10⟩, ⟨.ofRatio .positive Binary64.one 1000, 4⟩, ⟨.finite .negative .one, 3⟩,
    ⟨.ofRatio .positive Binary64.one 2, 1⟩]
  descending := by simp [Descending]

/-- Rounded to two places the second term is left out, and `0` on its own. -/
theorem latexOf_format_gapped :
    (∀ m ∈ gapped.terms, m.coefficient.isFinite = true) ∧
    (∀ m ∈ gapped.terms, m.exponent ≤ maxExponent) ∧
    BracesExponents "12z^10-z^3+0.5z".toList "12z^\x7b10\x7d-z^\x7b3\x7d+0.5z".toList [10, 3] ∧
    (∃ read, ReadsAs 'z' "12z^10-z^3+0.5z".toList read ∧
      read.map Monomial.exponent = [10, 3, 1]) ∧
    ReadsAs 'z' ['0'] [⟨.zero, 0⟩] ∧
    (⟨.ofNat 12, 10⟩ : Monomial).reread .canonical = ⟨.ofNat 12, 10⟩ := by
  have hvar : PlainVariable 'z' := .of_isAlpha rfl
  have hbraces : 'z' ≠ '\x7b' ∧ 'z' ≠ '\x7d' := by decide
  have hfinite : ∀ m ∈ gapped.terms, m.coefficient.isFinite = true := by decide +kernel
  have hmax : ∀ m ∈ gapped.terms, m.exponent ≤ maxExponent := by decide +kernel
  have hplain : gapped.format ⟨some 2, .plain⟩ 'z' = "12z^10-z^3+0.5z".toList := by decide +kernel
  have hlatex : gapped.format ⟨some 2, .latex⟩ 'z' = "12z^\x7b10\x7d-z^\x7b3\x7d+0.5z".toList := by
    decide +kernel
  have hexponents : ((gapped.terms.filter fun m =>
      m.magnitudeText ⟨some 2, .plain⟩ != ['0']).map
        (Monomial.reread ⟨some 2, .plain⟩)).map Monomial.exponent = [10, 3, 1] := by
    decide +kernel
  have hzero : (⟨.ofRatio .positive Binary64.one 1000, 4⟩ : Monomial).format ⟨some 2, .plain⟩ 'z' =
      ['0'] := by decide +kernel
  have hzero' : (⟨.ofRatio .positive Binary64.one 1000, 4⟩ : Monomial).rereadAlone
      ⟨some 2, .plain⟩ = ⟨.zero, 0⟩ := by decide +kernel
  obtain ⟨htexts, halone, _⟩ := latexOf_format hvar hbraces (some 2) gapped hfinite hmax
  obtain ⟨_, _, hself⟩ := latexOf_format hvar hbraces none gapped hfinite hmax
  have hzeroAlone := (halone ⟨.ofRatio .positive Binary64.one 1000, 4⟩ (by decide +kernel)
    (by decide)).reads
  rw [hplain, hlatex] at htexts
  rw [hzero, hzero'] at hzeroAlone
  have hbraced := htexts.toBracesExponents
  rw [hexponents] at hbraced
  exact ⟨hfinite, hmax, hbraced, ⟨_, htexts.reads, hexponents⟩, hzeroAlone,
    hself rfl _ (by decide +kernel) (by decide +kernel)⟩

end Polynomial

end PowerRule
