import Mathlib.Tactic.Lemma
import PowerRule.Proofs.Derivative
import PowerRule.Proofs.Misreading
import PowerRule.Proofs.Offsets

/-!
# Where errors point

The spans of an error lie in the expression, between characters and in order, and the report of the
error has a label at each of them. An error about a text points at this text. `Error.Located` says
this of one error, `derivative_error_located` of all errors of derivatives.
-/

namespace PowerRule

/-- The text without a caret in front. -/
def withoutCaret : List Char → List Char
  | '^' :: rest => rest
  | text => text

namespace Error

/-- What the error says is found where it points. -/
def PointsAtText (expression : List Char) (e : Error) : Prop :=
  match e.kind with
  | .malformedCoefficient text =>
    ∃ s, e.spans = [s] ∧ s.slice? expression = some text ∧ text ≠ []
  | .malformedExponent text issue =>
    ∃ s written, e.spans = [s] ∧ s.slice? expression = some written ∧ written ≠ [] ∧
      text = withoutCaret written ∧ (issue = .missing ↔ written = ['^'])
  | .emptyTerm =>
    ∃ s written, e.spans = [s] ∧ s.slice? expression = some written ∧
      (written = ['+'] ∨ written = ['-'] ∨ written = [] ∧ expression = [])
  | .coefficientOverflow =>
    ∀ s ∈ e.spans, ∃ raw ∈ splitTerms expression, s = raw.span

/-- The error points into the expression. -/
structure Located (expression : List Char) (e : Error) : Prop where
  spans_ne_nil : e.spans ≠ []
  inside : ∀ s ∈ e.spans, s.start ≤ s.stop ∧ s.stop ≤ byteLength expression ∧
    IsBoundary expression s.start ∧ IsBoundary expression s.stop
  ordered : e.spans.Pairwise (fun s t => s.stop ≤ t.start)
  labelled : ∃ report, e.report? = some report ∧ e.spans.head?.map Span.start = some report.start ∧
    report.labels = (e.kind.labels e.spans.length).zip e.spans ∧
    report.labels.map Prod.snd = e.spans
  pointsAtText : e.PointsAtText expression

/-- An error with one place, or with any number of them for an overflow, has a label for each. -/
lemma length_labels {e : Error} (hone : e.kind ≠ .coefficientOverflow → e.spans.length = 1) :
    (e.kind.labels e.spans.length).length = e.spans.length := by
  obtain ⟨kind, spans⟩ := e
  cases kind with
  | malformedCoefficient text => exact (hone (by simp)).symm
  | malformedExponent text issue => exact (hone (by simp)).symm
  | emptyTerm => exact (hone (by simp)).symm
  | coefficientOverflow => exact List.length_replicate

/-- Each error has a report, with its labels at the places of the error. -/
lemma labelled_of_ne_nil {e : Error} (hne : e.spans ≠ [])
    (hone : e.kind ≠ .coefficientOverflow → e.spans.length = 1) :
    ∃ report, e.report? = some report ∧ e.spans.head?.map Span.start = some report.start ∧
      report.labels = (e.kind.labels e.spans.length).zip e.spans ∧
      report.labels.map Prod.snd = e.spans := by
  have hlength := length_labels hone
  obtain ⟨kind, spans⟩ := e
  obtain ⟨s, rest, rfl⟩ := List.exists_cons_of_ne_nil hne
  exact ⟨_, rfl, rfl, rfl, List.map_snd_zip (Nat.le_of_eq hlength.symm)⟩

/-- An error with one place, at which its text stands. -/
lemma Located.of_slice? {expression part : List Char} {kind : ErrorKind} {s : Span}
    (hslice : s.slice? expression = some part)
    (htext : PointsAtText expression ⟨kind, [s]⟩) :
    Located expression ⟨kind, [s]⟩ where
  spans_ne_nil := List.cons_ne_nil _ _
  inside := by
    intro t ht
    rw [List.mem_singleton.mp ht]
    exact Span.bounds_of_slice? hslice
  ordered := List.pairwise_singleton _ _
  labelled := labelled_of_ne_nil (List.cons_ne_nil _ _) fun _ => rfl
  pointsAtText := htext

end Error

/-! ## Terms that cannot be read -/

/-- The parts of the body of a term stand in the expression where they are reported. -/
lemma slice?_of_body {expression : List Char} {raw : RawTerm} (before part after : List Char)
    (hraw : raw ∈ splitTerms expression) (hbody : raw.body = before ++ part ++ after) :
    (Span.ofText (raw.bodyStart + byteLength before) part).slice? expression = some part := by
  obtain ⟨sign, htext, hlength, hstart⟩ := raw.exists_sign
  have htext : raw.text = (sign ++ before) ++ part ++ after := by simp [htext, hbody]
  have hslice := slice?_of_mem_splitTerms hraw
  rw [RawTerm.span, htext] at hslice
  have hpart := Span.slice?_within hslice
  rwa [byteLength_append, hlength, ← Nat.add_assoc, ← hstart] at hpart

/-- What is misread after the variable is not empty. -/
lemma MisreadsTrailing.ne_nil {trailing text : List Char} {issue : ExponentIssue}
    (h : MisreadsTrailing trailing text issue) :
    trailing ≠ [] := by
  cases h with
  | noCaret hne _ => exact hne
  | afterCaret _ => exact List.cons_ne_nil _ _

/-- The reported exponent is what follows the variable, without its caret. -/
lemma MisreadsTrailing.text_eq {trailing text : List Char} {issue : ExponentIssue}
    (h : MisreadsTrailing trailing text issue) :
    text = withoutCaret trailing := by
  cases h with
  | noCaret hne hhead =>
    unfold withoutCaret
    split
    · exact absurd rfl hhead
    · rfl
  | afterCaret _ => rfl

/-- An exponent is reported as missing exactly if a lone caret stands for it. -/
lemma MisreadsTrailing.missing_iff {trailing text : List Char} {issue : ExponentIssue}
    (h : MisreadsTrailing trailing text issue) :
    issue = .missing ↔ trailing = ['^'] := by
  cases h with
  | noCaret hne hhead =>
    constructor
    · intro h
      cases h
    · rintro rfl
      exact absurd rfl hhead
  | afterCaret hissue =>
    constructor
    · rintro rfl
      rw [exponentOfText_eq_missing_iff.mp hissue]
    · intro hnil
      have htext : text = [] := (List.cons.inj hnil).2
      rw [htext, exponentOfText_eq_missing_iff.mpr rfl] at hissue
      cases hissue
      rfl

/-- The error of a term that cannot be read points into the expression. -/
lemma Misreads.located {var : Char} {expression : List Char} {raw : RawTerm} {e : Error}
    (hraw : raw ∈ splitTerms expression) (h : Misreads var raw e) :
    e.Located expression := by
  cases h with
  | empty hnil =>
    have hslice := slice?_of_mem_splitTerms hraw
    refine .of_slice? hslice ⟨raw.span, raw.text, rfl, hslice, ?_⟩
    rcases RawTerm.body_eq_nil_iff.mp hnil with htext | hplus | hminus
    · have hpiece := (splitTerms_isPrefix expression).subset hraw
      exact .inr (.inr ⟨htext, eq_nil_of_mem_pieces hpiece htext⟩)
    · exact .inl hplus
    · exact .inr (.inl hminus)
  | constant hne hnot hnone =>
    have hslice := slice?_of_body [] raw.body [] hraw (List.append_nil _).symm
    exact .of_slice? hslice ⟨_, rfl, hslice, hne⟩
  | @coefficient leading trailing hbody hnot hleading hnone =>
    have hslice := slice?_of_body [] leading (var :: trailing) hraw hbody
    exact .of_slice? hslice ⟨_, rfl, hslice, hleading⟩
  | @exponent leading trailing m text issue hbody hnot hm htrailing =>
    have hbody : raw.body = (leading ++ [var]) ++ trailing ++ [] := by simp [hbody]
    have hslice := slice?_of_body _ _ _ hraw hbody
    rw [byteLength_append, byteLength_cons, byteLength_nil, Nat.add_zero, ← Nat.add_assoc] at hslice
    exact .of_slice? hslice
      ⟨_, trailing, rfl, hslice, htrailing.ne_nil, htrailing.text_eq, htrailing.missing_iff⟩

/-! ## Overflows -/

/-- An overflow at some of the terms points into the expression. -/
lemma located_of_sources {var : Char} {expression : List Char}
    {terms sources : List (RawTerm × Term)} (h : ReadsAll var (splitTerms expression) terms)
    (hsources : sources.Sublist terms) (hne : sources ≠ []) :
    Error.Located expression ⟨.coefficientOverflow, sources.map (·.1.span)⟩ := by
  have hraws : (sources.map Prod.fst).Sublist (splitTerms expression) := by
    rw [← h.1]
    exact hsources.map Prod.fst
  have hspans : sources.map (·.1.span) = (sources.map Prod.fst).map RawTerm.span := by
    rw [List.map_map]
    rfl
  have hspans_ne : sources.map (·.1.span) ≠ [] := by simpa using hne
  refine ⟨hspans_ne, ?_, ?_, Error.labelled_of_ne_nil hspans_ne (absurd rfl), ?_⟩
  · intro s hs
    obtain ⟨raw, hraw, rfl⟩ := List.mem_map.mp (hspans ▸ hs)
    exact Span.bounds_of_slice? (slice?_of_mem_splitTerms (hraws.subset hraw))
  · show (sources.map (·.1.span)).Pairwise _
    rw [hspans, List.pairwise_map]
    exact (pairwise_splitTerms expression).sublist hraws
  · intro s hs
    obtain ⟨raw, hraw, rfl⟩ := List.mem_map.mp (hspans ▸ hs)
    exact ⟨raw, hraws.subset hraw, rfl⟩

/-- An error is that of a term that cannot be read, or an overflow at some of the terms. -/
lemma derivative_eq_error_cases {var : Char} {expression : List Char} {e : Error}
    (h : derivative var expression = .error e) :
    (∃ raw ∈ splitTerms expression, readTerm var raw = .error e) ∨
      ∃ terms sources, ReadsAll var (splitTerms expression) terms ∧ sources.Sublist terms ∧
        sources ≠ [] ∧ e = ⟨.coefficientOverflow, sources.map (·.1.span)⟩ := by
  cases hread : readTerms var expression with
  | error e' =>
    rw [derivative, derive, hread] at h
    cases h
    obtain ⟨before, raw, after, hsplit, _, herror⟩ := readTerms_eq_error_iff.mp hread
    exact .inl ⟨raw, by simp [hsplit], herror⟩
  | ok terms =>
    have hall := readTerms_eq_ok_iff.mp hread
    rcases finiteProducts_or_first terms with hfinite | ⟨before, r, after, rfl, hbefore, hr⟩
    · rw [derivative_of_finite hall hfinite] at h
      by_cases hsums : FiniteSums terms
      · rw [sumContributions_of_finite hsums] at h
        cases h
      · obtain ⟨k, hk⟩ := not_forall.mp hsums
        obtain ⟨K, hK, _, herror⟩ := sumContributions_of_overflow (Bool.not_eq_true _ ▸ hk)
        rw [herror] at h
        cases h
        refine .inr ⟨terms, sourcesAt terms K, hall, List.filter_sublist, ?_, rfl⟩
        exact List.ne_nil_of_length_pos (by have := two_le_sources hfinite hK; omega)
    · rw [derivative_of_overflow hall hbefore hr] at h
      cases h
      refine .inr ⟨_, [r], hall, ?_, List.cons_ne_nil _ _, rfl⟩
      exact List.singleton_sublist.mpr (by simp)

/-- Every error points at the text that it talks about, and no slice on the way to it fails. -/
theorem derivative_error_located (var : Char) (expression : List Char) :
    (∀ t ∈ tokens expression, t.span.slice? expression = some t.lexeme) ∧
    deriveSlices? var expression = some (derive var expression) ∧
    ∀ e, derivative var expression = .error e → e.Located expression := by
  refine ⟨fun t ht => slice?_of_mem_tokens ht, deriveSlices?_eq var expression, ?_⟩
  intro e he
  rcases derivative_eq_error_cases he with ⟨raw, hraw, herror⟩ | ⟨terms, sources, h, hsub, hne, rfl⟩
  · exact (readTerm_eq_error_iff.mp herror).located hraw
  · exact located_of_sources h hsub hne

/-- An exponent of a variable of two bytes is pointed at. -/
theorem derivative_error_located_exponent :
    ∃ e, derivative 'é' "2é-é^-1".toList = .error e ∧ e.Located "2é-é^-1".toList ∧
      e.kind = .malformedExponent "-1".toList .negative ∧ e.spans = [⟨6, 9⟩] := by
  have hread : readTerms 'é' "2é-é^-1".toList =
      .error ⟨.malformedExponent "-1".toList .negative, [⟨6, 9⟩]⟩ := by decide +kernel
  have herror : derivative 'é' "2é-é^-1".toList =
      .error ⟨.malformedExponent "-1".toList .negative, [⟨6, 9⟩]⟩ := by
    rw [derivative, derive, hread]
  exact ⟨_, herror, (derivative_error_located 'é' "2é-é^-1".toList).2.2 _ herror, rfl, rfl⟩

end PowerRule
