import Mathlib.Data.List.Chain
import Mathlib.Tactic.Lemma
import PowerRule.Proofs.Splitting

/-!
# The pieces of an expression

An expression is cut into `pieces` that lie one after the other. Where it is cut depends on its
signs and carets, and on the lengths of its other characters.
-/

namespace PowerRule

/-! ## The pieces of an expression

An expression is cut into `pieces`, of which a lone sign at the end is left out. The pieces lie one
after the other and put together they are the expression (`flatten_pieces`); a piece begins where a
sign follows something else than a caret (`cutText_boundary`), and the pieces before such a sign do
not depend on what follows it (`pieces_append`). `splitTerms_covers` says what this means for the
terms: nothing of an expression is lost but a lone sign at its end.
-/

/-- The pieces of a text that starts at the given byte. -/
def pieces (start : Nat) (text : List Char) : List RawTerm :=
  let (first, others) := cutText start false false text
  ⟨start, first⟩ :: others

/-- The last two characters are a sign and, before it, no caret. -/
def EndsInLoneSign (text : List Char) : Prop :=
  ∃ init c s, text = init ++ [c, s] ∧ c ≠ '^' ∧ IsSignMark s

/-- The terms are the pieces without a lone sign at the end. -/
lemma splitTerms_eq (expression : List Char) :
    splitTerms expression = dropLoneSign (pieces 0 expression) := by
  rw [splitTerms, tokens, cutTokens_tokensFrom]
  rfl

/-! ### The cut, one character at a time -/

/-- A sign is no caret. -/
lemma IsSignMark.ne_caret {c : Char} (h : IsSignMark c) : (c == '^') = false := by
  rcases h with rfl | rfl
  · rfl
  · rfl

/-- Only the last character matters. -/
lemma endsAfterCaret_cons (afterCaret : Bool) (c : Char) (text : List Char) :
    endsAfterCaret afterCaret (c :: text) = endsAfterCaret (c == '^') text := rfl

/-- A text is cut before a sign that follows something else than a caret. -/
lemma cutText_cut {c : Char} {started afterCaret : Bool}
    (h : IsSignMark c ∧ started = true ∧ afterCaret = false) (start : Nat) (rest : List Char) :
    cutText start started afterCaret (c :: rest) =
      ([], ⟨start, c :: (cutText (start + c.utf8Size) true false rest).1⟩ ::
        (cutText (start + c.utf8Size) true false rest).2) := by
  rw [cutText, if_pos h]

/-- It is not cut before other characters. -/
lemma cutText_keep {c : Char} {started afterCaret : Bool}
    (h : ¬(IsSignMark c ∧ started = true ∧ afterCaret = false)) (start : Nat) (rest : List Char) :
    cutText start started afterCaret (c :: rest) =
      (c :: (cutText (start + c.utf8Size) true (c == '^') rest).1,
        (cutText (start + c.utf8Size) true (c == '^') rest).2) := by
  rw [cutText, if_neg h]

/-- Nothing is lost by the cut. -/
lemma flatten_cutText (start : Nat) (started afterCaret : Bool) (text : List Char) :
    (cutText start started afterCaret text).1 ++
      ((cutText start started afterCaret text).2.map RawTerm.text).flatten = text := by
  induction start, started, afterCaret, text using cutText.induct with
  | case1 => rfl
  | case2 start started afterCaret c rest h _ _ _ ih =>
    rw [cutText_cut h]
    simpa using ih
  | case3 start started afterCaret c rest h _ _ _ ih =>
    rw [cutText_keep h]
    simpa using ih

/-- The pieces lie one after the other. -/
lemma cutText_eq_placeTexts (start : Nat) (started afterCaret : Bool) (text : List Char) :
    (cutText start started afterCaret text).2 =
      placeTexts (start + byteLength (cutText start started afterCaret text).1)
        ((cutText start started afterCaret text).2.map RawTerm.text) := by
  induction start, started, afterCaret, text using cutText.induct with
  | case1 => rfl
  | case2 start started afterCaret c rest h _ _ _ ih =>
    rw [cutText_cut h, List.map_cons, placeTexts, byteLength_cons, ← Nat.add_assoc,
      Nat.add_right_comm, byteLength_nil, Nat.add_zero, Nat.add_right_comm, ← ih]
  | case3 start started afterCaret c rest h _ _ _ ih =>
    rw [cutText_keep h, byteLength_cons, ← Nat.add_assoc, ← ih]

/-- A piece after the first begins with a sign, something precedes it, and that does not end in a
caret. -/
lemma cutText_boundary {start : Nat} {started afterCaret : Bool} {text : List Char}
    {left right : List RawTerm} {t : RawTerm}
    (h : (cutText start started afterCaret text).2 = left ++ t :: right) :
    (∃ s more, t.text = s :: more ∧ IsSignMark s) ∧
      (started = true ∨
        (cutText start started afterCaret text).1 ++ (left.map RawTerm.text).flatten ≠ []) ∧
      endsAfterCaret afterCaret
        ((cutText start started afterCaret text).1 ++ (left.map RawTerm.text).flatten) = false := by
  induction start, started, afterCaret, text using cutText.induct generalizing left with
  | case1 => simp [cutText] at h
  | case2 start started afterCaret c rest hcut _ _ _ ih =>
    rw [cutText_cut hcut] at h ⊢
    obtain ⟨hsign, hstarted, hcaret⟩ := hcut
    cases left with
    | nil =>
      obtain ⟨rfl, -⟩ := List.cons.inj h
      exact ⟨⟨c, _, rfl, hsign⟩, .inl hstarted, hcaret⟩
    | cons u left =>
      obtain ⟨rfl, hrest⟩ := List.cons.inj h
      obtain ⟨hfirst, -, hends⟩ := ih hrest
      refine ⟨hfirst, .inl hstarted, ?_⟩
      rw [List.map_cons, List.flatten_cons, List.nil_append, List.cons_append, endsAfterCaret_cons,
        hsign.ne_caret]
      exact hends
  | case3 start started afterCaret c rest hkeep _ _ _ ih =>
    rw [cutText_keep hkeep] at h ⊢
    obtain ⟨hfirst, -, hends⟩ := ih h
    exact ⟨hfirst, .inr (List.cons_ne_nil _ _), hends⟩

/-- A sign at the start begins the first piece. -/
lemma pieces_sign {s : Char} (hs : IsSignMark s) (start : Nat) (rest : List Char) :
    pieces start (s :: rest) =
      ⟨start, s :: (cutText (start + s.utf8Size) true false rest).1⟩ ::
        (cutText (start + s.utf8Size) true false rest).2 := by
  rw [pieces, cutText_keep (by simp), hs.ne_caret]

/-- A sign that cuts begins the pieces of what follows. -/
lemma cutText_append_sign {s : Char} (hs : IsSignMark s) {start : Nat} {started afterCaret : Bool}
    {a : List Char} (hstarted : started = true ∨ a ≠ [])
    (hends : endsAfterCaret afterCaret a = false) (b : List Char) :
    cutText start started afterCaret (a ++ s :: b) =
      ((cutText start started afterCaret a).1,
        (cutText start started afterCaret a).2 ++ pieces (start + byteLength a) (s :: b)) := by
  induction start, started, afterCaret, a using cutText.induct with
  | case1 start started afterCaret =>
    -- Nothing is left before the sign, and it cuts here.
    have hstarted : started = true := hstarted.resolve_right (fun h => h rfl)
    have hcaret : afterCaret = false := hends
    rw [List.nil_append, cutText_cut ⟨hs, hstarted, hcaret⟩, pieces_sign hs]
    rfl
  | case2 start started afterCaret c rest hcut _ _ _ ih =>
    rw [endsAfterCaret_cons, hcut.1.ne_caret] at hends
    rw [List.cons_append, cutText_cut hcut, cutText_cut hcut, ih (.inl rfl) hends, byteLength_cons,
      Nat.add_assoc]
    rfl
  | case3 start started afterCaret c rest hkeep _ _ _ ih =>
    rw [endsAfterCaret_cons] at hends
    rw [List.cons_append, cutText_keep hkeep, cutText_keep hkeep, ih (.inl rfl) hends,
      byteLength_cons, Nat.add_assoc]

/-- Before a sign after something else than a caret, the pieces end. -/
theorem pieces_append {a : List Char} (hne : a ≠ []) (hlast : a.getLast? ≠ some '^') {s : Char}
    (hs : IsSignMark s) (start : Nat) (b : List Char) :
    pieces start (a ++ s :: b) = pieces start a ++ pieces (start + byteLength a) (s :: b) := by
  unfold pieces
  rw [cutText_append_sign hs (.inr hne) (endsAfterCaret_eq_false hne hlast false)]
  rfl

/-! ### Places -/

/-- Put together, the pieces are the text. -/
theorem flatten_pieces (start : Nat) (text : List Char) :
    ((pieces start text).map RawTerm.text).flatten = text :=
  flatten_cutText start false false text

/-- The pieces are their texts, one after the other. -/
lemma pieces_eq_placeTexts (start : Nat) (text : List Char) :
    pieces start text = placeTexts start ((pieces start text).map RawTerm.text) := by
  unfold pieces
  rw [List.map_cons, placeTexts, ← cutText_eq_placeTexts]

/-- Each text stands at its place in the texts put together. -/
lemma exists_of_mem_placeTexts {start : Nat} {texts : List (List Char)} {t : RawTerm}
    (h : t ∈ placeTexts start texts) :
    ∃ before after, before ++ t.text ++ after = texts.flatten ∧
      t.start = start + byteLength before := by
  induction texts generalizing start with
  | nil => cases h
  | cons text rest ih =>
    rcases List.mem_cons.mp h with rfl | hrest
    · exact ⟨[], rest.flatten, rfl, rfl⟩
    · obtain ⟨before, after, hflatten, hstart⟩ := ih hrest
      refine ⟨text ++ before, after, ?_, ?_⟩
      · rw [List.flatten_cons, ← hflatten]
        simp
      · rw [hstart, byteLength_append, Nat.add_assoc]

/-- Each text ends where the next one starts. -/
lemma isChain_placeTexts (start : Nat) (texts : List (List Char)) :
    (placeTexts start texts).IsChain (fun t u => t.span.stop = u.span.start) := by
  induction texts generalizing start with
  | nil => exact .nil
  | cons text rest ih =>
    cases rest with
    | nil => exact .singleton _
    | cons next rest => exact .cons_cons rfl (ih _)

/-- Each text ends before all later ones. -/
lemma pairwise_placeTexts (start : Nat) (texts : List (List Char)) :
    (placeTexts start texts).Pairwise (fun t u => t.span.stop ≤ u.span.start) := by
  induction texts generalizing start with
  | nil => exact .nil
  | cons text rest ih =>
    refine .cons ?_ (ih _)
    intro u hu
    obtain ⟨before, _, _, hstart⟩ := exists_of_mem_placeTexts hu
    show start + byteLength text ≤ u.start
    rw [hstart]
    exact Nat.le_add_right _ _

/-- A term without a body is empty or a lone sign. -/
lemma RawTerm.body_eq_nil_iff {t : RawTerm} :
    t.body = [] ↔ t.text = [] ∨ t.text = ['+'] ∨ t.text = ['-'] := by
  obtain ⟨start, text⟩ := t
  unfold body
  dsimp only
  split
  · simp
  · simp
  · rename_i hplus hminus
    constructor
    · exact .inl
    · rintro (h | h | h)
      · exact h
      · exact absurd h (hplus [])
      · exact absurd h (hminus [])

/-! ### The lone sign at the end -/

/-- A last piece is left out if it has no body and is not the only one. -/
lemma dropLoneSign_append_singleton {init : List RawTerm} (hne : init ≠ []) (last : RawTerm) :
    dropLoneSign (init ++ [last]) = if last.body.isEmpty then init else init ++ [last] := by
  induction init with
  | nil => exact absurd rfl hne
  | cons t rest ih =>
    cases rest with
    | nil =>
      rw [List.singleton_append, dropLoneSign]
    | cons u rest =>
      rw [List.cons_append, dropLoneSign, ih (List.cons_ne_nil _ _)]
      · split
        · rfl
        · rfl
      · intro last' heq
        simp at heq

/-- Which piece is left out depends on nothing but which of them have a body. -/
lemma dropLoneSign_map {f : RawTerm → RawTerm} (hf : ∀ t, (f t).body.isEmpty = t.body.isEmpty)
    (terms : List RawTerm) :
    dropLoneSign (terms.map f) = (dropLoneSign terms).map f := by
  rcases List.eq_nil_or_concat' terms with rfl | ⟨init, last, rfl⟩
  · rfl
  · cases init with
    | nil => rfl
    | cons t rest =>
      rw [List.map_append, List.map_singleton, List.map_cons,
        dropLoneSign_append_singleton (List.cons_ne_nil _ _),
        dropLoneSign_append_singleton (List.cons_ne_nil _ _), hf]
      split
      · rfl
      · rw [List.map_append, List.map_singleton, List.map_cons]

/-- What is left out, if anything, is a last piece without a body. -/
lemma dropLoneSign_cases {terms : List RawTerm} (hne : terms ≠ []) :
    dropLoneSign terms = terms ∨
      ∃ init last, terms = init ++ [last] ∧ init ≠ [] ∧ last.body = [] ∧
        dropLoneSign terms = init := by
  obtain ⟨init, last, rfl⟩ := (List.eq_nil_or_concat' terms).resolve_left hne
  cases init with
  | nil => exact .inl rfl
  | cons t rest =>
    rw [dropLoneSign_append_singleton (List.cons_ne_nil _ _)]
    cases hbody : last.body.isEmpty with
    | true => exact .inr ⟨_, last, rfl, List.cons_ne_nil _ _, List.isEmpty_iff.mp hbody, rfl⟩
    | false => exact .inl rfl

/-- There is at least one piece. -/
lemma pieces_ne_nil (start : Nat) (text : List Char) : pieces start text ≠ [] :=
  List.cons_ne_nil _ _

/-- A last piece that is empty, after others, is a sign at the end of the text. -/
lemma endsInLoneSign_of_pieces {text : List Char} {init : List RawTerm} {last : RawTerm}
    (h : pieces 0 text = init ++ [last]) (hne : init ≠ []) (hbody : last.body = []) :
    EndsInLoneSign text ∧ (init.map RawTerm.text).flatten = text.dropLast := by
  obtain ⟨t, rest, rfl⟩ := List.exists_cons_of_ne_nil hne
  obtain ⟨hfirst, hothers⟩ := List.cons.inj h
  obtain ⟨⟨s, more, hsign, hs⟩, hbefore, hends⟩ := cutText_boundary hothers
  -- The last piece begins with a sign and has no body, so it is this sign.
  have hlast : last.text = [s] := by
    rcases RawTerm.body_eq_nil_iff.mp hbody with hnil | hplus | hminus
    · rw [hnil] at hsign
      cases hsign
    · rw [hplus] at hsign ⊢
      rw [(List.cons.inj hsign).1]
    · rw [hminus] at hsign ⊢
      rw [(List.cons.inj hsign).1]
  have hflatten : ((t :: rest).map RawTerm.text).flatten ++ [s] = text := by
    rw [← hlast]
    conv => rhs; rw [← flatten_pieces 0 text, h]
    simp
  have htext : (cutText 0 false false text).1 ++ (rest.map RawTerm.text).flatten =
      ((t :: rest).map RawTerm.text).flatten := by
    rw [← hfirst]
    rfl
  rw [htext] at hbefore hends
  -- Something precedes it, whose last character is no caret.
  obtain ⟨init, c, hinit⟩ :=
    (List.eq_nil_or_concat' _).resolve_left (hbefore.resolve_left Bool.false_ne_true)
  rw [hinit, endsAfterCaret_append_singleton, beq_eq_false_iff_ne] at hends
  rw [hinit] at hflatten ⊢
  refine ⟨⟨init, c, s, ?_, hends, hs⟩, ?_⟩
  · rw [← hflatten]
    simp
  · rw [← hflatten, List.dropLast_concat]

/-- A sign at the end of the text that is no part of an exponent is left out. -/
lemma flatten_splitTerms_of_endsInLoneSign {expression : List Char}
    (h : EndsInLoneSign expression) :
    ((splitTerms expression).map RawTerm.text).flatten = expression.dropLast := by
  obtain ⟨init, c, s, rfl, hc, hs⟩ := h
  have hsplit : init ++ [c, s] = (init ++ [c]) ++ [s] := by simp
  have hlone :
      pieces (0 + byteLength (init ++ [c])) [s] = [⟨0 + byteLength (init ++ [c]), [s]⟩] := by
    rw [pieces_sign hs]
    rfl
  have hempty : (⟨0 + byteLength (init ++ [c]), [s]⟩ : RawTerm).body = [] := by
    rcases hs with rfl | rfl
    · rfl
    · rfl
  rw [hsplit, List.dropLast_concat, splitTerms_eq,
    pieces_append (by simp) (by simpa using hc) hs, hlone,
    dropLoneSign_append_singleton (pieces_ne_nil _ _), if_pos (List.isEmpty_iff.mpr hempty),
    flatten_pieces]

/-- Otherwise the terms, put together, are the expression. -/
lemma flatten_splitTerms {expression : List Char} (h : ¬EndsInLoneSign expression) :
    ((splitTerms expression).map RawTerm.text).flatten = expression := by
  rw [splitTerms_eq]
  rcases dropLoneSign_cases (pieces_ne_nil 0 expression) with
    hall | ⟨init, last, hpieces, hne, hbody, _⟩
  · rw [hall, flatten_pieces]
  · exact absurd (endsInLoneSign_of_pieces hpieces hne hbody).1 h

/-! ### Terms -/

/-- The terms are the pieces, up to a last one. -/
lemma splitTerms_isPrefix (expression : List Char) :
    splitTerms expression <+: pieces 0 expression := by
  rw [splitTerms_eq]
  rcases dropLoneSign_cases (pieces_ne_nil 0 expression) with
    hall | ⟨init, last, hpieces, _, _, hdrop⟩
  · exact ⟨[], by rw [List.append_nil, hall]⟩
  · rw [hdrop, hpieces]
    exact List.prefix_append _ _

/-- Each piece is the text at its span. -/
lemma slice?_of_mem_pieces {expression : List Char} {t : RawTerm} (h : t ∈ pieces 0 expression) :
    t.span.slice? expression = some t.text := by
  rw [pieces_eq_placeTexts] at h
  obtain ⟨before, after, hflatten, hstart⟩ := exists_of_mem_placeTexts h
  rw [flatten_pieces] at hflatten
  refine Span.slice?_eq_some_iff.mpr ⟨before, after, hflatten, ?_⟩
  rw [RawTerm.span, hstart, Nat.zero_add]

/-- Each term is the text at its span. -/
lemma slice?_of_mem_splitTerms {expression : List Char} {t : RawTerm}
    (h : t ∈ splitTerms expression) :
    t.span.slice? expression = some t.text :=
  slice?_of_mem_pieces ((splitTerms_isPrefix expression).subset h)

/-- Each term ends before all later ones. -/
lemma pairwise_splitTerms (expression : List Char) :
    (splitTerms expression).Pairwise (fun t u => t.span.stop ≤ u.span.start) := by
  apply List.Pairwise.sublist (splitTerms_isPrefix expression).sublist
  rw [pieces_eq_placeTexts]
  exact pairwise_placeTexts _ _

/-- An empty piece is all there is. -/
lemma eq_nil_of_mem_pieces {expression : List Char} {t : RawTerm} (h : t ∈ pieces 0 expression)
    (hnil : t.text = []) :
    expression = [] := by
  rcases List.mem_cons.mp h with rfl | hothers
  · cases expression with
    | nil => rfl
    | cons c rest =>
      rw [cutText_keep (by simp)] at hnil
      cases hnil
  · obtain ⟨left, right, hsplit⟩ := List.append_of_mem hothers
    obtain ⟨⟨s, more, hsign, _⟩, _⟩ := cutText_boundary hsplit
    rw [hnil] at hsign
    cases hsign

/-- What is not lost when an expression is cut into terms: there is a term, the terms cover the
expression from its start without gaps, each is the text at its span, and put together they are the
expression. Only a sign is left out that stands at the end after something else than a caret. Terms
without a body are lone signs, unless the expression is empty. -/
theorem splitTerms_covers (expression : List Char) :
    splitTerms expression ≠ [] ∧
    (splitTerms expression).head?.map (·.span.start) = some 0 ∧
    (splitTerms expression).IsChain (fun t u => t.span.stop = u.span.start) ∧
    (∀ t ∈ splitTerms expression, t.span.slice? expression = some t.text) ∧
    (EndsInLoneSign expression →
      ((splitTerms expression).map RawTerm.text).flatten = expression.dropLast) ∧
    (¬EndsInLoneSign expression →
      ((splitTerms expression).map RawTerm.text).flatten = expression) ∧
    ∀ t ∈ splitTerms expression, t.body = [] →
      expression = [] ∨ t.text = ['+'] ∨ t.text = ['-'] := by
  have hinitial := splitTerms_isPrefix expression
  have hchain : (pieces 0 expression).IsChain (fun t u => t.span.stop = u.span.start) := by
    rw [pieces_eq_placeTexts]
    exact isChain_placeTexts _ _
  have hne := splitTerms_ne_nil expression
  refine ⟨hne, ?_, hchain.prefix hinitial, fun t ht => slice?_of_mem_splitTerms ht,
    flatten_splitTerms_of_endsInLoneSign, flatten_splitTerms, ?_⟩
  · obtain ⟨first, rest, hcons⟩ := List.exists_cons_of_ne_nil hne
    rw [hcons] at hinitial ⊢
    rw [(List.cons_prefix_cons.mp hinitial).1]
    rfl
  · intro t ht hbody
    rcases RawTerm.body_eq_nil_iff.mp hbody with hnil | hsign
    · exact .inl (eq_nil_of_mem_pieces (hinitial.subset ht) hnil)
    · exact .inr hsign

/-- Lone signs at the end, one after a caret. -/
theorem splitTerms_covers_lone :
    EndsInLoneSign "é^+x+-".toList ∧
    ((splitTerms "é^+x+-".toList).map RawTerm.text).flatten = "é^+x+".toList ∧
    (∃ t ∈ splitTerms "é^+x+-".toList, t.body = [] ∧ (t.text = ['+'] ∨ t.text = ['-'])) ∧
    ¬EndsInLoneSign "x^-".toList ∧
    ((splitTerms "x^-".toList).map RawTerm.text).flatten = "x^-".toList := by
  obtain ⟨_, _, _, _, hdropped, _, hempty⟩ := splitTerms_covers "é^+x+-".toList
  obtain ⟨_, _, _, _, _, hkept, _⟩ := splitTerms_covers "x^-".toList
  have hlone : EndsInLoneSign "é^+x+-".toList :=
    ⟨"é^+x".toList, '+', '-', by decide, by decide, .inr rfl⟩
  have hexponent : ¬EndsInLoneSign "x^-".toList := by
    rintro ⟨init, c, s, h, hc, _⟩
    have hreverse := congrArg List.reverse h
    simp at hreverse
    exact hc hreverse.2.1.symm
  have hsign : ⟨5, ['+']⟩ ∈ splitTerms "é^+x+-".toList := by decide +kernel
  refine ⟨hlone, hdropped hlone, ⟨_, hsign, rfl, ?_⟩, hexponent, hkept hexponent⟩
  exact (hempty _ hsign rfl).resolve_left (by decide)

/-! ## Expressions with other characters

An expression is cut at signs and looks out for carets, and at all other characters it sees their
lengths only. So if characters are exchanged for others of their length, signs for signs and no
other characters for signs or carets, the expression is cut at the same places (`splitTerms_map`).
-/

/-- The map keeps what an expression is cut at. -/
structure KeepsCuts (f : Char → Char) : Prop where
  utf8Size_eq : ∀ c, (f c).utf8Size = c.utf8Size
  isSignMark_iff : ∀ c, IsSignMark (f c) ↔ IsSignMark c
  eq_caret_iff : ∀ c, f c = '^' ↔ c = '^'

/-- The term with other characters, at the same place. -/
def RawTerm.relabel (f : Char → Char) (t : RawTerm) : RawTerm := ⟨t.start, t.text.map f⟩

/-- A text stays as it is if all its characters do. -/
lemma map_eq_self {f : Char → Char} {text : List Char} (h : ∀ c ∈ text, f c = c) :
    text.map f = text :=
  (List.map_congr_left h).trans text.map_id

/-- The body of a term is its text without the sign. -/
lemma RawTerm.body_cons (start : Nat) (c : Char) (rest : List Char) :
    (⟨start, c :: rest⟩ : RawTerm).body = if IsSignMark c then rest else c :: rest := by
  split
  · rename_i hc
    rcases hc with rfl | rfl
    · rfl
    · rfl
  · rename_i hc
    obtain ⟨hplus, hminus⟩ := not_or.mp hc
    simp [body, hplus, hminus]

namespace KeepsCuts

variable {f : Char → Char} (hf : KeepsCuts f)

include hf

/-- A text keeps its length. -/
lemma byteLength_map (text : List Char) : byteLength (text.map f) = byteLength text := by
  induction text with
  | nil => rfl
  | cons c rest ih => rw [List.map_cons, byteLength_cons, byteLength_cons, ih, hf.utf8Size_eq]

/-- A term keeps its place. -/
lemma span_relabel (t : RawTerm) : (t.relabel f).span = t.span := by
  rw [RawTerm.span, RawTerm.span, RawTerm.relabel, Span.ofText, Span.ofText, hf.byteLength_map]

/-- Its body has the other characters. -/
lemma body_relabel (t : RawTerm) : (t.relabel f).body = t.body.map f := by
  obtain ⟨start, text⟩ := t
  cases text with
  | nil => rfl
  | cons c rest =>
    rw [RawTerm.relabel, List.map_cons, RawTerm.body_cons, RawTerm.body_cons]
    by_cases hc : IsSignMark c
    · rw [if_pos hc, if_pos ((hf.isSignMark_iff c).mpr hc)]
    · rw [if_neg hc, if_neg fun h => hc ((hf.isSignMark_iff c).mp h), List.map_cons]

/-- The body starts at the same place. -/
lemma bodyStart_relabel (t : RawTerm) : (t.relabel f).bodyStart = t.bodyStart := by
  rw [RawTerm.bodyStart, RawTerm.bodyStart, hf.body_relabel, List.length_map, RawTerm.relabel,
    List.length_map]

/-- A text is cut at the same places. -/
lemma cutText_map (start : Nat) (started afterCaret : Bool) (text : List Char) :
    cutText start started afterCaret (text.map f) =
      ((cutText start started afterCaret text).1.map f,
        (cutText start started afterCaret text).2.map (RawTerm.relabel f)) := by
  induction start, started, afterCaret, text using cutText.induct with
  | case1 => rfl
  | case2 start started afterCaret c rest hcut _ _ _ ih =>
    have hcut' := hcut
    rw [← hf.isSignMark_iff] at hcut'
    rw [List.map_cons, cutText_cut hcut', cutText_cut hcut, hf.utf8Size_eq, ih]
    rfl
  | case3 start started afterCaret c rest hkeep _ _ _ ih =>
    have hkeep' := hkeep
    rw [← hf.isSignMark_iff] at hkeep'
    have hcaret : (f c == '^') = (c == '^') := by
      rw [Bool.eq_iff_iff, beq_iff_eq, beq_iff_eq, hf.eq_caret_iff]
    rw [List.map_cons, cutText_keep hkeep', cutText_keep hkeep, hf.utf8Size_eq, hcaret, ih]
    rfl

/-- The pieces have the other characters. -/
lemma pieces_map (start : Nat) (text : List Char) :
    pieces start (text.map f) = (pieces start text).map (RawTerm.relabel f) := by
  rw [pieces, hf.cutText_map]
  rfl

/-- An expression with other characters is cut into its terms with these characters. -/
theorem splitTerms_map (expression : List Char) :
    splitTerms (expression.map f) = (splitTerms expression).map (RawTerm.relabel f) := by
  have hbody : ∀ t : RawTerm, (t.relabel f).body.isEmpty = t.body.isEmpty := by
    intro t
    rw [hf.body_relabel, List.isEmpty_map]
  rw [splitTerms_eq, splitTerms_eq, hf.pieces_map, dropLoneSign_map hbody]

end KeepsCuts

end PowerRule
