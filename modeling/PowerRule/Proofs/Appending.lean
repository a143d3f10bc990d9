import Mathlib.Tactic.Lemma
import PowerRule.Proofs.ErrorPlaces
import PowerRule.Proofs.Joining
import PowerRule.Proofs.Pieces
import PowerRule.Proofs.TermGrammar

/-!
# Appending a term

A sign after a finished term starts another one. What stands before it is cut and read as if it
stood alone, and so is what stands after it, at a later place (`splitTerms_append_sign`): nothing
that the cut or the reading remembers passes the sign. So a constant that is appended does not
change the derivative.
-/

namespace PowerRule

attribute [local irreducible] twoTo tenTo

/-- The last character is neither a sign nor a caret, so that a sign after it starts a term. -/
def EndsTerm (text : List Char) : Prop := ∃ init c, text = init ++ [c] ∧ ¬IsSignMark c ∧ c ≠ '^'

/-- The place so many bytes later. -/
def Span.shift (n : Nat) (s : Span) : Span := ⟨n + s.start, n + s.stop⟩

/-- The same text so many bytes later. -/
def RawTerm.shift (n : Nat) (t : RawTerm) : RawTerm := ⟨n + t.start, t.text⟩

/-- The same error so many bytes later. -/
def Error.shift (n : Nat) (e : Error) : Error := ⟨e.kind, e.spans.map (Span.shift n)⟩

/-- The place of a text further on. -/
lemma Span.ofText_shift (n start : Nat) (text : List Char) :
    ofText (n + start) text = (ofText start text).shift n := by
  rw [ofText, ofText, shift, Nat.add_assoc]

namespace RawTerm

variable (n : Nat) (t : RawTerm)

/-- A term further on has the same body. -/
@[simp] lemma body_shift : (t.shift n).body = t.body := rfl

/-- Its place is shifted. -/
lemma span_shift : (t.shift n).span = t.span.shift n := Span.ofText_shift n t.start t.text

/-- So is the start of its body. -/
lemma bodyStart_shift : (t.shift n).bodyStart = n + t.bodyStart := Nat.add_assoc _ _ _

end RawTerm

/-! ## The cut -/

namespace EndsTerm

variable {a : List Char} (h : EndsTerm a)

include h

/-- What ends a term is not empty. -/
lemma ne_nil : a ≠ [] := by
  obtain ⟨init, c, rfl, _⟩ := h
  simp

/-- It does not end in a caret. -/
lemma getLast?_ne_caret : a.getLast? ≠ some '^' := by
  obtain ⟨init, c, rfl, _, hcaret⟩ := h
  simpa using hcaret

/-- It does not end in a lone sign. -/
lemma not_endsInLoneSign : ¬EndsInLoneSign a := by
  obtain ⟨init, c, rfl, hsign, _⟩ := h
  rintro ⟨init', d, s, heq, _, hs⟩
  have hlast := congrArg List.getLast? heq
  rw [List.getLast?_append_cons, List.getLast?_append_cons] at hlast
  obtain rfl : c = s := Option.some.inj hlast
  exact hsign hs

/-- No sign is left out at its end. -/
lemma splitTerms_eq_pieces : splitTerms a = pieces 0 a := by
  rw [splitTerms_eq]
  rcases dropLoneSign_cases (pieces_ne_nil 0 a) with hall | ⟨init, last, hpieces, hne, hbody, _⟩
  · exact hall
  · exact absurd (endsInLoneSign_of_pieces hpieces hne hbody).1 h.not_endsInLoneSign

end EndsTerm

/-- A text further on is cut at the same characters. -/
lemma cutText_shift (n start : Nat) (started afterCaret : Bool) (text : List Char) :
    cutText (n + start) started afterCaret text =
      ((cutText start started afterCaret text).1,
        (cutText start started afterCaret text).2.map (RawTerm.shift n)) := by
  induction start, started, afterCaret, text using cutText.induct with
  | case1 => rfl
  | case2 start started afterCaret c rest hcut _ _ _ ih =>
    rw [cutText_cut hcut, cutText_cut hcut, Nat.add_assoc, ih]
    rfl
  | case3 start started afterCaret c rest hkeep _ _ _ ih =>
    rw [cutText_keep hkeep, cutText_keep hkeep, Nat.add_assoc, ih]

/-- Its pieces are shifted. -/
lemma pieces_shift (n start : Nat) (text : List Char) :
    pieces (n + start) text = (pieces start text).map (RawTerm.shift n) := by
  rw [pieces, cutText_shift]
  rfl

/-- Only what comes last can be left out. -/
lemma dropLoneSign_append (before : List RawTerm) {terms : List RawTerm} (hne : terms ≠ [])
    (h : ∀ t, terms = [t] → t.body ≠ []) :
    dropLoneSign (before ++ terms) = before ++ dropLoneSign terms := by
  obtain ⟨init, last, rfl⟩ := (List.eq_nil_or_concat' terms).resolve_left hne
  cases before with
  | nil => rfl
  | cons t before =>
    rw [← List.append_assoc, dropLoneSign_append_singleton (by simp)]
    cases init with
    | nil =>
      have hbody : last.body.isEmpty = false := by simpa using h last rfl
      rw [hbody, List.append_nil]
      rfl
    | cons u init =>
      rw [dropLoneSign_append_singleton (List.cons_ne_nil _ _)]
      split
      · rfl
      · rw [List.append_assoc]

/-- A piece that is all there is has a body, if anything follows its sign. -/
lemma body_ne_nil_of_pieces {start : Nat} {s : Char} {b : List Char} (hb : b ≠ []) {t : RawTerm}
    (h : pieces start (s :: b) = [t]) : t.body ≠ [] := by
  have htext : t.text = s :: b := by
    rw [← flatten_pieces start (s :: b), h]
    simp
  intro hbody
  rcases RawTerm.body_eq_nil_iff.mp hbody with hnil | hplus | hminus
  · rw [hnil] at htext
    cases htext
  · rw [hplus] at htext
    exact hb (List.cons.inj htext).2.symm
  · rw [hminus] at htext
    exact hb (List.cons.inj htext).2.symm

/-- The terms before a sign and those from it on, which are cut apart. -/
lemma EndsTerm.splitTerms_append {a b : List Char} (ha : EndsTerm a) (hb : b ≠ []) {s : Char}
    (hs : IsSignMark s) :
    splitTerms (a ++ s :: b) =
      splitTerms a ++ (splitTerms (s :: b)).map (RawTerm.shift (byteLength a)) := by
  have hafter : pieces (0 + byteLength a) (s :: b) =
      (pieces 0 (s :: b)).map (RawTerm.shift (byteLength a)) := by
    rw [Nat.add_comm, pieces_shift]
  rw [splitTerms_eq, pieces_append ha.ne_nil ha.getLast?_ne_caret hs,
    dropLoneSign_append _ (pieces_ne_nil _ _) fun _ h => body_ne_nil_of_pieces hb h, hafter,
    dropLoneSign_map (fun t => congrArg List.isEmpty (t.body_shift _)), ha.splitTerms_eq_pieces,
    splitTerms_eq]

/-! ## What is read -/

/-- A term further on is misread in the same way. -/
lemma Misreads.shift {var : Char} {raw : RawTerm} {e : Error} (n : Nat) (h : Misreads var raw e) :
    Misreads var (raw.shift n) (e.shift n) := by
  have hspan := fun start text => Span.ofText_shift n start text
  cases h with
  | empty hbody =>
    have hempty : Misreads var (raw.shift n) _ := .empty hbody
    rwa [RawTerm.span_shift] at hempty
  | constant hne hnot hnone =>
    have hconstant : Misreads var (raw.shift n) _ := .constant hne hnot hnone
    rwa [RawTerm.bodyStart_shift, hspan] at hconstant
  | coefficient hbody hnot hne hnone =>
    have hcoefficient : Misreads var (raw.shift n) _ := .coefficient hbody hnot hne hnone
    rwa [RawTerm.bodyStart_shift, hspan] at hcoefficient
  | exponent hbody hnot hm htrailing =>
    have hexponent : Misreads var (raw.shift n) _ := .exponent hbody hnot hm htrailing
    rwa [RawTerm.bodyStart_shift, Nat.add_assoc, Nat.add_assoc, hspan, ← Nat.add_assoc]
      at hexponent

/-- Further behind, a term is read as the same term or has the same fault there. -/
theorem readTerm_shift (var : Char) (n : Nat) (raw : RawTerm) :
    readTerm var (raw.shift n) = (readTerm var raw).mapError (Error.shift n) := by
  cases hread : readTerm var raw with
  | ok t =>
    have h := readTerm_eq_ok_iff.mp hread
    exact readTerm_eq_ok_iff.mpr h
  | error e =>
    have h := readTerm_eq_error_iff.mp hread
    exact readTerm_eq_error_iff.mpr (h.shift n)

/-! ## A constant at the end -/

/-- A term that vanishes contributes to no sum. -/
lemma result_deriveTerms_append (terms : List (RawTerm × Term)) {r : RawTerm × Term}
    (hr : r.2.exponent = 0) :
    (deriveTerms (terms ++ [r])).result = (deriveTerms terms).result := by
  have hnot : ¬r.2.Overflows := by
    rintro ⟨hpos, _⟩
    omega
  rcases finiteProducts_or_first terms with hfinite | ⟨before, q, after, rfl, hbefore, hq⟩
  · have hnone : contribution? r = none := by
      rw [contribution?, Term.derivative?_of_zero hr]
      rfl
    have hall : FiniteProducts (terms ++ [r]) := by
      intro q hq
      rcases List.mem_append.mp hq with hq | hq
      · exact hfinite q hq
      · rwa [List.mem_singleton.mp hq]
    rw [deriveTerms, deriveTerms, differentiateTerms_of_finite hall,
      differentiateTerms_of_finite hfinite, List.filterMap_append, List.filterMap_cons_none hnone,
      List.filterMap_nil, List.append_nil]
  · rw [List.append_assoc, List.cons_append, deriveTerms, deriveTerms,
      differentiateTerms_of_overflow hbefore hq, differentiateTerms_of_overflow hbefore hq]

/-- Terms in two lists are read one after the other. -/
lemma ReadsAll.append {var : Char} {raws raws' : List RawTerm}
    {terms terms' : List (RawTerm × Term)}
    (h : ReadsAll var raws terms) (h' : ReadsAll var raws' terms') :
    ReadsAll var (raws ++ raws') (terms ++ terms') := by
  refine ⟨by rw [List.map_append, h.1, h'.1], ?_⟩
  intro r hr
  rcases List.mem_append.mp hr with hr | hr
  · exact h.2 r hr
  · exact h'.2 r hr

/-- A signed numeral that is not too large is one term, which is read as a constant. -/
lemma exists_constant {var : Char} (hvar : PlainVariable var) {s : Char} (hs : IsSignMark s)
    {b : List Char} (hb : FiniteNumeral b) :
    ∃ t : Term, t.exponent = 0 ∧ ReadsAll var (splitTerms (s :: b)) [(⟨0, s :: b⟩, t)] := by
  obtain ⟨m, hm⟩ := exists_coefficient?_iff.mpr hb
  have hnumeral := (coefficient?_eq_some_iff.mp hm).1
  have hsplit : splitTerms (s :: b) = [⟨0, s :: b⟩] := by
    have hnone : ∀ t ∈ ([] : List (List Char)), SignedTerm t := nofun
    have hflatten := splitTerms_flatten (.inr (.mk hs hnumeral.termBody)) hnone
    simpa [placeTexts] using hflatten
  have hbody : (⟨0, s :: b⟩ : RawTerm).body = b := by rw [RawTerm.body_cons, if_pos hs]
  have hread : readTerm var ⟨0, s :: b⟩ = .ok (.constant (RawTerm.sign ⟨0, s :: b⟩) m) := by
    apply readTerm_eq_ok_iff.mpr
    rw [hbody]
    exact .constant (hvar.notMem_numeral hnumeral) hm
  refine ⟨.constant (RawTerm.sign ⟨0, s :: b⟩) m, rfl, by rw [hsplit]; rfl, ?_⟩
  intro r hr
  rw [List.mem_singleton.mp hr]
  exact hread

/-- Terms further on are read as the same. -/
lemma ReadsAll.shift {var : Char} {raws : List RawTerm} {terms : List (RawTerm × Term)} (n : Nat)
    (h : ReadsAll var raws terms) :
    ReadsAll var (raws.map (RawTerm.shift n)) (terms.map (Prod.map (RawTerm.shift n) id)) := by
  obtain ⟨rfl, hread⟩ := h
  refine ⟨by rw [List.map_map, List.map_map]; rfl, ?_⟩
  intro r hr
  obtain ⟨q, hq, rfl⟩ := List.mem_map.mp hr
  show readTerm var (q.1.shift n) = .ok q.2
  rw [readTerm_shift, hread q hq]
  rfl

/-- A numeral that is appended does not change the derivative. -/
lemma EndsTerm.derivative_append {var : Char} (hvar : PlainVariable var) {a b : List Char}
    (ha : EndsTerm a) (hb : FiniteNumeral b) {s : Char} (hs : IsSignMark s)
    {terms : List (RawTerm × Term)} (h : ReadsAll var (splitTerms a) terms) :
    derivative var (a ++ s :: b) = derivative var a := by
  obtain ⟨t, ht, hconstant⟩ := exists_constant hvar hs hb
  have hne : b ≠ [] := by
    obtain ⟨q, hq, _⟩ := hb
    exact hq.numeral.ne_nil
  have hall := h.append (hconstant.shift (byteLength a))
  rw [← ha.splitTerms_append hne hs] at hall
  rw [derivative_of_readsAll hall, derivative_of_readsAll h]
  exact result_deriveTerms_append terms ht

/-- A sign after a finished term starts another. The terms of the whole are those of what stands
before the sign, followed by those from the sign on, further behind; each of them is read as the
same term or has the same fault, further behind. So a numeral that is appended to terms that can be
read changes neither their derivative nor the overflow that they have instead. -/
theorem splitTerms_append_sign {a b : List Char} (ha : EndsTerm a) (hb : b ≠ []) {s : Char}
    (hs : IsSignMark s) :
    splitTerms (a ++ s :: b) =
      splitTerms a ++ (splitTerms (s :: b)).map (RawTerm.shift (byteLength a)) ∧
    (∀ var, (splitTerms (a ++ s :: b)).map (readTerm var) =
      (splitTerms a).map (readTerm var) ++
        (splitTerms (s :: b)).map fun raw =>
          (readTerm var raw).mapError (Error.shift (byteLength a))) ∧
    ∀ var, var.isAlpha = true → (∀ raw ∈ splitTerms a, ∃ t, readTerm var raw = .ok t) →
      FiniteNumeral b →
      derivative var (a ++ s :: b) = derivative var a ∧
      ∀ e, derivative var a = .error e → e.kind = .coefficientOverflow := by
  have hsplit := ha.splitTerms_append hb hs
  refine ⟨hsplit, ?_, ?_⟩
  · intro var
    rw [hsplit, List.map_append, List.map_map]
    congr 1
    apply List.map_congr_left
    intro raw _
    exact readTerm_shift var (byteLength a) raw
  · intro var hvar hread hnumeral
    obtain ⟨terms, h⟩ := exists_readsAll hread
    refine ⟨ha.derivative_append (.of_isAlpha hvar) hnumeral hs h, ?_⟩
    intro e he
    rcases derivative_eq_error_cases he with ⟨raw, hraw, herror⟩ | ⟨_, _, _, _, _, rfl⟩
    · obtain ⟨t, ht⟩ := hread raw hraw
      rw [ht] at herror
      cases herror
    · rfl

/-- Errors before and after a seam, the second shifted by bytes, and an overflow that a numeral
behind it does not change. -/
theorem splitTerms_append_sign_seam :
    EndsTerm "2é+x".toList ∧ "x^+".toList ≠ [] ∧
    (splitTerms "2é+x-x^+".toList).map (readTerm 'x') =
      [.error ⟨.malformedCoefficient "2é".toList, [⟨0, 3⟩]⟩, .ok (.power .positive .one 1),
        .error ⟨.malformedExponent "+".toList .notANumber, [⟨7, 9⟩]⟩] ∧
    EndsTerm hugeSum ∧ (∀ raw ∈ splitTerms hugeSum, ∃ t, readTerm 'x' raw = .ok t) ∧
    FiniteNumeral ".5".toList ∧
    derivative 'x' (hugeSum ++ "-.5".toList) = derivative 'x' hugeSum := by
  have hends : EndsTerm "2é+x".toList := ⟨"2é+".toList, 'x', by decide, by decide, by decide⟩
  have hhuge : EndsTerm hugeSum :=
    ⟨huge ++ "x+".toList ++ huge, 'x', rfl, by decide, by decide⟩
  have hread : ∀ raw ∈ splitTerms hugeSum, ∃ t, readTerm 'x' raw = .ok t := by
    have hall : ReadsAll 'x' (splitTerms hugeSum) (termsOf 'x' hugeSum) := by decide +kernel
    intro raw hraw
    rw [← hall.1] at hraw
    obtain ⟨r, hr, rfl⟩ := List.mem_map.mp hraw
    exact ⟨r.2, hall.2 r hr⟩
  have hnumeral : FiniteNumeral ".5".toList := by
    have hsome : (coefficient? ".5".toList).isSome = true := by decide +kernel
    exact exists_coefficient?_iff.mp (Option.isSome_iff_exists.mp hsome)
  refine ⟨hends, by decide, ?_, hhuge, hread, hnumeral, ?_⟩
  · have hparts := (splitTerms_append_sign hends (b := "x^+".toList) (by decide) (.inr rfl)).2.1 'x'
    refine hparts.trans ?_
    decide +kernel
  · have hafter := (splitTerms_append_sign hhuge (b := ".5".toList) (by decide) (.inr rfl)).2.2
    exact (hafter 'x' rfl hread hnumeral).1

end PowerRule
