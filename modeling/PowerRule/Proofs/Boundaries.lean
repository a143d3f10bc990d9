import Mathlib.Data.List.SplitBy
import Mathlib.Tactic.Lemma
import PowerRule.Proofs.Pieces

/-!
# Where an expression is cut

The cut runs along tokens and remembers two things, whether a term was started and whether a caret
was read last. What it comes to can be read off two neighbouring characters: they stay together
unless the second is a sign and the first is no caret (`staysTogether`). The texts of the terms are
the longest runs of characters that stay together (`cutAtSigns`), without a lone sign at the end
(`splitTerms_eq_placeTexts`), and so a term ends before the end of the expression exactly at the
bytes of `CutsAt`.
-/

namespace PowerRule

/-- Whether two characters, one after the other, belong to one term. -/
def staysTogether (c s : Char) : Bool := c == '^' || !decide (IsSignMark s)

/-- The longest runs of characters that belong together; the empty expression is one as well. -/
def cutAtSigns : List Char → List (List Char)
  | [] => [[]]
  | expression => expression.splitBy staysTogether

/-- Leaves out a last text that is a lone sign, unless it is the only one. -/
def withoutLoneSign (texts : List (List Char)) : List (List Char) :=
  if 1 < texts.length ∧ (texts.getLast? = some ['+'] ∨ texts.getLast? = some ['-']) then
    texts.dropLast
  else
    texts

/-- At this byte, which is not the first, a sign stands after something else than a caret. -/
def CutsAt (expression : List Char) (p : Nat) : Prop :=
  ∃ before c s after, expression = before ++ c :: s :: after ∧ p = byteLength (before ++ [c]) ∧
    c ≠ '^' ∧ IsSignMark s

/-- Two characters are cut apart before a sign that follows no caret. -/
lemma staysTogether_eq_false_iff {c s : Char} :
    staysTogether c s = false ↔ c ≠ '^' ∧ IsSignMark s := by
  simp [staysTogether]

/-- Two characters stay together unless the second is a sign, and then only after a caret. -/
lemma staysTogether_iff {c s : Char} : staysTogether c s = true ↔ (IsSignMark s → c = '^') := by
  rw [← Bool.not_eq_false, staysTogether_eq_false_iff, not_and, not_imp_comm, not_not]

/-- An expression that is not empty is cut wherever two characters are cut apart. -/
lemma cutAtSigns_of_ne_nil {expression : List Char} (h : expression ≠ []) :
    cutAtSigns expression = expression.splitBy staysTogether := by
  obtain ⟨c, rest, rfl⟩ := List.exists_cons_of_ne_nil h
  rfl

/-! ## The cut along tokens -/

/-- One character more in front of a run. -/
lemma splitBy_cons_of_staysTogether {c d : Char} (h : staysTogether c d = true)
    {rest first : List Char} {others : List (List Char)}
    (hsplit : (d :: rest).splitBy staysTogether = (d :: first) :: others) :
    (c :: d :: rest).splitBy staysTogether = (c :: d :: first) :: others := by
  obtain ⟨hflatten, hnil, hruns, hends⟩ := List.splitBy_eq_iff.mp hsplit
  refine List.splitBy_eq_iff.mpr ⟨?_, ?_, ?_, ?_⟩
  · rw [hflatten]
    rfl
  · intro hmem
    rcases List.mem_cons.mp hmem with hmem | hmem
    · cases hmem
    · exact hnil (List.mem_cons_of_mem _ hmem)
  · intro text htext
    rcases List.mem_cons.mp htext with rfl | htext
    · exact .cons_cons h (hruns _ List.mem_cons_self)
    · exact hruns text (List.mem_cons_of_mem _ htext)
  · rw [List.isChain_cons] at hends ⊢
    refine ⟨?_, hends.2⟩
    intro next hnext
    obtain ⟨_, hne, hcut⟩ := hends.1 next hnext
    refine ⟨List.cons_ne_nil _ _, hne, ?_⟩
    rw [List.getLast_cons (List.cons_ne_nil _ _)]
    exact hcut

/-- After a first character the cut needs to know of it only whether it is a caret. -/
lemma splitBy_eq_cutText (c : Char) (text : List Char) (start : Nat) :
    (c :: text).splitBy staysTogether =
      (c :: (cutText start true (c == '^') text).1) ::
        (cutText start true (c == '^') text).2.map RawTerm.text := by
  induction text generalizing c start with
  | nil => rfl
  | cons d rest ih =>
    by_cases hcut : IsSignMark d ∧ true = true ∧ (c == '^') = false
    · obtain ⟨hsign, -, hcaret⟩ := hcut
      have hcd : staysTogether c d = false :=
        staysTogether_eq_false_iff.mpr ⟨beq_eq_false_iff_ne.mp hcaret, hsign⟩
      have happend : ([c] ++ d :: rest).splitBy staysTogether =
          [c].splitBy staysTogether ++ (d :: rest).splitBy staysTogether := by
        apply List.splitBy_append_cons
        rintro _ ⟨⟩
        exact hcd
      rw [List.singleton_append] at happend
      rw [happend, ih d (start + d.utf8Size), hsign.ne_caret, cutText_cut ⟨hsign, rfl, hcaret⟩]
      rfl
    · have hcd : staysTogether c d = true := by
        rw [staysTogether_iff]
        intro hsign
        by_contra hne
        exact hcut ⟨hsign, rfl, beq_eq_false_iff_ne.mpr hne⟩
      rw [cutText_keep hcut]
      exact splitBy_cons_of_staysTogether hcd (ih d (start + d.utf8Size))

/-- The texts of the pieces are the cuts. -/
lemma map_text_pieces (start : Nat) (text : List Char) :
    (pieces start text).map RawTerm.text = cutAtSigns text := by
  cases text with
  | nil => rfl
  | cons c rest =>
    rw [cutAtSigns_of_ne_nil (List.cons_ne_nil _ _), splitBy_eq_cutText c rest, pieces,
      cutText_keep (by simp)]
    rfl

/-- The pieces are the cuts at their places. -/
lemma pieces_eq_cutAtSigns (start : Nat) (text : List Char) :
    pieces start text = placeTexts start (cutAtSigns text) := by
  rw [pieces_eq_placeTexts, map_text_pieces]

/-! ## The lone sign at the end -/

/-- Texts are placed after those before them. -/
lemma placeTexts_append (start : Nat) (a b : List (List Char)) :
    placeTexts start (a ++ b) =
      placeTexts start a ++ placeTexts (start + byteLength a.flatten) b := by
  induction a generalizing start with
  | nil => rfl
  | cons text rest ih =>
    rw [List.cons_append, placeTexts, ih, List.flatten_cons, byteLength_append, Nat.add_assoc]
    rfl

/-- A lone sign at the end is left out before or after texts are placed. -/
lemma dropLoneSign_placeTexts {texts : List (List Char)} (h : [] ∉ texts.tail) (start : Nat) :
    dropLoneSign (placeTexts start texts) = placeTexts start (withoutLoneSign texts) := by
  rcases List.eq_nil_or_concat' texts with rfl | ⟨init, last, rfl⟩
  · rfl
  · cases init with
    | nil => rfl
    | cons first init =>
      have hlast : last ≠ [] := by
        rintro rfl
        exact h (by simp)
      have hlength : 1 < (first :: init ++ [last]).length := by simp
      have hbody : (⟨start + byteLength (first :: init).flatten, last⟩ : RawTerm).body.isEmpty =
          decide (last = ['+'] ∨ last = ['-']) := by
        rw [Bool.eq_iff_iff, List.isEmpty_iff, RawTerm.body_eq_nil_iff, decide_eq_true_iff,
          or_iff_right hlast]
      have hplaced : placeTexts (start + byteLength (first :: init).flatten) [last] =
          [⟨start + byteLength (first :: init).flatten, last⟩] := rfl
      have hbefore : placeTexts start (first :: init) ≠ [] := List.cons_ne_nil _ _
      rw [placeTexts_append, hplaced, dropLoneSign_append_singleton hbefore, hbody, withoutLoneSign]
      simp only [hlength, List.getLast?_concat, List.dropLast_concat, Option.some_inj, true_and,
        decide_eq_true_eq]
      split
      · rfl
      · rw [placeTexts_append, hplaced]

/-- No cut but the first is empty. -/
lemma nil_notMem_tail_cutAtSigns (expression : List Char) : [] ∉ (cutAtSigns expression).tail := by
  cases expression with
  | nil => exact List.not_mem_nil
  | cons c rest =>
    intro hmem
    exact List.nil_notMem_splitBy staysTogether (c :: rest) (List.mem_of_mem_tail hmem)

/-- The terms are the runs of characters that belong together. -/
lemma splitTerms_eq_placeTexts (expression : List Char) :
    splitTerms expression = placeTexts 0 (withoutLoneSign (cutAtSigns expression)) := by
  rw [splitTerms_eq, pieces_eq_cutAtSigns,
    dropLoneSign_placeTexts (nil_notMem_tail_cutAtSigns expression)]

/-! ## Boundaries -/

/-- A text stands after the bytes of those before it. -/
lemma mem_placeTexts_iff {start : Nat} {texts : List (List Char)} {t : RawTerm} :
    t ∈ placeTexts start texts ↔
      ∃ left right, texts = left ++ t.text :: right ∧
        t.start = start + byteLength left.flatten := by
  constructor
  · intro h
    induction texts generalizing start with
    | nil => cases h
    | cons text rest ih =>
      rcases List.mem_cons.mp h with rfl | hrest
      · exact ⟨[], rest, rfl, rfl⟩
      · obtain ⟨left, right, rfl, hstart⟩ := ih hrest
        refine ⟨text :: left, right, rfl, ?_⟩
        rw [hstart, List.flatten_cons, byteLength_append, Nat.add_assoc]
  · rintro ⟨left, right, rfl, hstart⟩
    rw [placeTexts_append, placeTexts, ← hstart]
    exact List.mem_append_right _ List.mem_cons_self

/-- A text after the first begins with a sign, and the text before it does not end in a caret. -/
lemma cutAtSigns_boundary {expression left right : List Char} {texts others : List (List Char)}
    (h : cutAtSigns expression = texts ++ left :: right :: others) :
    ∃ init c s rest, left = init ++ [c] ∧ right = s :: rest ∧ c ≠ '^' ∧ IsSignMark s := by
  have hne : expression ≠ [] := by
    rintro rfl
    have hlength : 1 = (texts ++ left :: right :: others).length := congrArg List.length h
    rw [List.length_append, List.length_cons, List.length_cons] at hlength
    omega
  have hchain := List.isChain_getLast_head_splitBy staysTogether expression
  rw [← cutAtSigns_of_ne_nil hne, h, List.isChain_append] at hchain
  obtain ⟨hleft, hright, hcut⟩ := (List.isChain_cons_cons.mp hchain.2.1).1
  obtain ⟨s, rest, rfl⟩ := List.exists_cons_of_ne_nil hright
  refine ⟨left.dropLast, left.getLast hleft, s, rest, ?_, rfl, staysTogether_eq_false_iff.mp hcut⟩
  exact (List.dropLast_append_getLast hleft).symm

/-- The cuts put together are the expression. -/
lemma flatten_cutAtSigns (expression : List Char) :
    (cutAtSigns expression).flatten = expression := by
  cases expression with
  | nil => rfl
  | cons c rest => exact List.flatten_splitBy staysTogether (c :: rest)

/-- Between two cuts the expression is cut. -/
lemma cutsAt_of_cutAtSigns {expression left right : List Char} {texts others : List (List Char)}
    (h : cutAtSigns expression = texts ++ left :: right :: others) :
    CutsAt expression (byteLength (texts.flatten ++ left)) := by
  have hflatten := flatten_cutAtSigns expression
  obtain ⟨init, c, s, rest, rfl, rfl, hc, hs⟩ := cutAtSigns_boundary h
  rw [h] at hflatten
  refine ⟨texts.flatten ++ init, c, s, rest ++ others.flatten, ?_, ?_, hc, hs⟩
  · rw [← hflatten]
    simp
  · rw [List.append_assoc]

/-- Nothing but the end is left out. -/
lemma withoutLoneSign_isPrefix (texts : List (List Char)) : withoutLoneSign texts <+: texts := by
  unfold withoutLoneSign
  split
  · exact List.dropLast_prefix texts
  · exact List.prefix_rfl

/-- Of several texts at most the last one is left out. -/
lemma isPrefix_withoutLoneSign_append {a b : List (List Char)} (hb : b ≠ []) :
    a <+: withoutLoneSign (a ++ b) := by
  unfold withoutLoneSign
  split
  · rw [List.dropLast_append_of_ne_nil hb]
    exact List.prefix_append a _
  · exact List.prefix_append a b

/-- Each term is one of the runs, at its place. -/
lemma exists_of_mem_splitTerms {expression : List Char} {t : RawTerm}
    (h : t ∈ splitTerms expression) :
    ∃ left right, cutAtSigns expression = left ++ t.text :: right ∧
      t.start = byteLength left.flatten := by
  rw [splitTerms_eq_placeTexts] at h
  obtain ⟨left, right, htexts, hstart⟩ := mem_placeTexts_iff.mp h
  obtain ⟨dropped, hdropped⟩ := withoutLoneSign_isPrefix (cutAtSigns expression)
  refine ⟨left, right ++ dropped, ?_, ?_⟩
  · rw [← hdropped, htexts, List.append_assoc]
    rfl
  · rw [hstart, Nat.zero_add]

/-- Where a term ends before the end of the expression, a sign follows. -/
lemma cutsAt_of_mem_splitTerms {expression : List Char} {t : RawTerm}
    (h : t ∈ splitTerms expression) (hlt : t.span.stop < byteLength expression) :
    CutsAt expression t.span.stop := by
  obtain ⟨left, right, htexts, hstart⟩ := exists_of_mem_splitTerms h
  have hstop : t.span.stop = byteLength (left.flatten ++ t.text) := by
    rw [byteLength_append, ← hstart]
    rfl
  cases right with
  | nil =>
    have hflatten := flatten_cutAtSigns expression
    rw [htexts, List.flatten_append, List.flatten_singleton] at hflatten
    rw [hstop, hflatten] at hlt
    exact absurd hlt (Nat.lt_irrefl _)
  | cons next right =>
    rw [hstop]
    exact cutsAt_of_cutAtSigns htexts

/-- Where the characters cut, the runs fall into those before and those after. -/
lemma cutAtSigns_append {c s : Char} (hc : c ≠ '^') (hs : IsSignMark s) (before after : List Char) :
    cutAtSigns (before ++ c :: s :: after) =
      (before ++ [c]).splitBy staysTogether ++ (s :: after).splitBy staysTogether := by
  have hsplit : before ++ c :: s :: after = before ++ [c] ++ s :: after := by simp
  rw [hsplit, cutAtSigns_of_ne_nil (by simp)]
  apply List.splitBy_append_cons
  intro d hd
  rw [List.getLast?_concat] at hd
  cases hd
  exact staysTogether_eq_false_iff.mpr ⟨hc, hs⟩

/-- Where an expression is cut a term ends. -/
lemma exists_mem_splitTerms_of_cutsAt {expression : List Char} {p : Nat}
    (h : CutsAt expression p) :
    p < byteLength expression ∧ ∃ t ∈ splitTerms expression, t.span.stop = p := by
  obtain ⟨before, c, s, after, rfl, rfl, hc, hs⟩ := h
  refine ⟨?_, ?_⟩
  · have hpos := Char.utf8Size_pos s
    simp only [byteLength_append, byteLength_cons, byteLength_nil]
    omega
  · -- The term is the last run before the cut, and what is left out lies after it.
    have hflatten := List.flatten_splitBy staysTogether (before ++ [c])
    have hruns := cutAtSigns_append hc hs before after
    obtain ⟨init, last, hlast⟩ : ∃ init last,
        (before ++ [c]).splitBy staysTogether = init ++ [last] :=
      (List.eq_nil_or_concat' _).resolve_left (by simp)
    rw [hlast] at hruns hflatten
    obtain ⟨others, hothers⟩ : init ++ [last] <+:
        withoutLoneSign (cutAtSigns (before ++ c :: s :: after)) := by
      rw [hruns]
      exact isPrefix_withoutLoneSign_append (by simp)
    refine ⟨⟨byteLength init.flatten, last⟩, ?_, ?_⟩
    · rw [splitTerms_eq_placeTexts, ← hothers]
      refine mem_placeTexts_iff.mpr ⟨init, others, by simp, (Nat.zero_add _).symm⟩
    · rw [← hflatten, List.flatten_append, List.flatten_singleton, byteLength_append]
      rfl

/-- Within a term a sign stands only after a caret. -/
lemma getLast?_of_mem_cutAtSigns {expression left right : List Char} {s : Char}
    (h : left ++ s :: right ∈ cutAtSigns expression) (hne : left ≠ []) (hs : IsSignMark s) :
    left.getLast? = some '^' := by
  have hexpression : expression ≠ [] := by
    rintro rfl
    have hnil := List.mem_singleton.mp h
    simp at hnil
  rw [cutAtSigns_of_ne_nil hexpression] at h
  have hchain := List.isChain_of_mem_splitBy h
  obtain ⟨init, c, rfl⟩ := (List.eq_nil_or_concat' left).resolve_left hne
  rw [List.isChain_append] at hchain
  have hcs : staysTogether c s = true := hchain.2.2 c (by simp) s rfl
  rw [List.getLast?_concat, staysTogether_iff.mp hcs hs]

/-- A term after the first begins with a sign. -/
lemma exists_sign_of_mem_tail {expression : List Char} {t : RawTerm}
    (h : t ∈ (splitTerms expression).tail) :
    ∃ s rest, t.text = s :: rest ∧ IsSignMark s := by
  obtain ⟨dropped, hdropped⟩ := withoutLoneSign_isPrefix (cutAtSigns expression)
  rw [splitTerms_eq_placeTexts] at h
  cases htexts : withoutLoneSign (cutAtSigns expression) with
  | nil =>
    rw [htexts] at h
    cases h
  | cons first others =>
    rw [htexts] at h hdropped
    obtain ⟨left, right, rfl, _⟩ := mem_placeTexts_iff.mp h
    obtain ⟨init, last, hlast⟩ : ∃ init last, first :: left = init ++ [last] :=
      (List.eq_nil_or_concat' _).resolve_left (List.cons_ne_nil _ _)
    have hbefore : cutAtSigns expression = init ++ last :: t.text :: (right ++ dropped) := by
      rw [← hdropped, ← List.cons_append, hlast]
      simp
    obtain ⟨_, _, s, rest, _, htext, _, hs⟩ := cutAtSigns_boundary hbefore
    exact ⟨s, rest, htext, hs⟩

/-- The terms of an expression, though cut along tokens, are the runs that its characters fall into,
without a lone sign at the end; one ends before the end of the expression exactly where a sign
follows something else than a caret. So signs within a term follow a caret, and all terms but the
first begin with a sign. -/
theorem splitTerms_boundaries (expression : List Char) :
    splitTerms expression = placeTexts 0 (withoutLoneSign (cutAtSigns expression)) ∧
    (∀ p, CutsAt expression p ↔
      p < byteLength expression ∧ ∃ t ∈ splitTerms expression, t.span.stop = p) ∧
    (∀ t ∈ splitTerms expression, ∀ left s right, t.text = left ++ s :: right → left ≠ [] →
      IsSignMark s → left.getLast? = some '^') ∧
    ∀ t ∈ (splitTerms expression).tail, ∃ s rest, t.text = s :: rest ∧ IsSignMark s := by
  refine ⟨splitTerms_eq_placeTexts expression, ?_, ?_, ?_⟩
  · intro p
    constructor
    · exact exists_mem_splitTerms_of_cutsAt
    · rintro ⟨hlt, t, ht, rfl⟩
      exact cutsAt_of_mem_splitTerms ht hlt
  · intro t ht left s right htext hne hs
    obtain ⟨before, after, htexts, _⟩ := exists_of_mem_splitTerms ht
    have hmem : left ++ s :: right ∈ cutAtSigns expression := by
      rw [htexts, ← htext]
      exact List.mem_append_right _ List.mem_cons_self
    exact getLast?_of_mem_cutAtSigns hmem hne hs
  · intro t ht
    exact exists_sign_of_mem_tail ht

/-- Neither a sign at the start nor one after a caret cuts, however many of them there are. -/
theorem splitTerms_boundaries_carets :
    splitTerms "+^--+^-+".toList = [⟨0, "+^-".toList⟩, ⟨3, "-".toList⟩, ⟨4, "+^-".toList⟩] ∧
    CutsAt "+^--+^-+".toList 7 ∧
    ¬CutsAt "+^--+^-+".toList 2 ∧
    "+^".toList.getLast? = some '^' ∧
    ∃ s rest, "-".toList = s :: rest ∧ IsSignMark s := by
  obtain ⟨hterms, hcuts, hsigns, hfirst⟩ := splitTerms_boundaries "+^--+^-+".toList
  have hlast : ⟨4, "+^-".toList⟩ ∈ splitTerms "+^--+^-+".toList := by decide +kernel
  refine ⟨?_, ?_, ?_, ?_, ?_⟩
  · rw [hterms]
    decide +kernel
  · exact (hcuts 7).mpr ⟨by decide +kernel, _, hlast, by decide +kernel⟩
  · intro hcut
    have hnone : ∀ t ∈ splitTerms "+^--+^-+".toList, t.span.stop ≠ 2 := by decide +kernel
    obtain ⟨_, t, ht, hstop⟩ := (hcuts 2).mp hcut
    exact hnone t ht hstop
  · exact hsigns _ hlast "+^".toList '-' [] rfl (by decide) (.inr rfl)
  · exact hfirst ⟨3, "-".toList⟩ (by decide +kernel)

end PowerRule
