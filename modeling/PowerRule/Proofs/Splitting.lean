import Mathlib.Data.List.Basic
import Mathlib.Tactic.Lemma
import PowerRule.Expression
import PowerRule.Proofs.Numeral
import PowerRule.Text

/-!
# Slices and cuts of a text

A span cuts a slice out of a text, at bytes that lie between two characters. An expression is cut
into terms before its signs; along tokens and character by character the cuts are the same.
-/

namespace PowerRule

/-! ## Slices of a text

A byte of a text lies between two characters (`IsBoundary`), inside of one or past the end.
`splitAtByte?` divides a text at a byte, `Span.slice?` cuts out a span. Both fail at a byte that is
no boundary. A slice is what stands at its place (`Span.slice?_eq_some_iff`).
-/

/-- The byte lies between two characters of the text, or at one of its ends. -/
def IsBoundary (text : List Char) (n : Nat) : Prop :=
  ∃ before after, before ++ after = text ∧ byteLength before = n

/-- Divides a text at a byte, if that is a boundary. -/
def splitAtByte? : Nat → List Char → Option (List Char × List Char)
  | 0, text => some ([], text)
  | _ + 1, [] => none
  | n + 1, c :: rest =>
    if c.utf8Size ≤ n + 1 then
      (splitAtByte? (n + 1 - c.utf8Size) rest).map fun (before, after) => (c :: before, after)
    else none

/-- The text at a span, if both ends are boundaries and in order. -/
def Span.slice? (s : Span) (text : List Char) : Option (List Char) :=
  if s.start ≤ s.stop then do
    let (_, after) ← splitAtByte? s.start text
    let (part, _) ← splitAtByte? (s.stop - s.start) after
    return part
  else none

/-- A text is divided at its boundaries. -/
lemma splitAtByte?_append (before after : List Char) :
    splitAtByte? (byteLength before) (before ++ after) = some (before, after) := by
  induction before with
  | nil => simp [splitAtByte?]
  | cons c before ih =>
    have hpos := c.utf8Size_pos
    obtain ⟨n, hn⟩ := Nat.exists_eq_add_one_of_ne_zero
      (show byteLength (c :: before) ≠ 0 by rw [byteLength_cons]; omega)
    have hrest : n + 1 - c.utf8Size = byteLength before := by
      rw [← hn, byteLength_cons, Nat.add_sub_cancel_left]
    have hle : c.utf8Size ≤ n + 1 := by
      rw [← hn, byteLength_cons]
      exact Nat.le_add_right _ _
    rw [hn, List.cons_append, splitAtByte?, if_pos hle, hrest, ih]
    rfl

/-- The two parts of a text that is divided are the text. -/
lemma splitAtByte?_eq_some {n : Nat} {text before after : List Char}
    (h : splitAtByte? n text = some (before, after)) :
    before ++ after = text ∧ byteLength before = n := by
  induction n, text using splitAtByte?.induct generalizing before with
  | case1 text =>
    rw [splitAtByte?] at h
    cases h
    exact ⟨rfl, rfl⟩
  | case2 n =>
    rw [splitAtByte?] at h
    cases h
  | case3 n c rest hle ih =>
    rw [splitAtByte?, if_pos hle] at h
    obtain ⟨⟨before', after'⟩, hrest, heq⟩ := Option.map_eq_some_iff.mp h
    cases heq
    obtain ⟨happend, hlength⟩ := ih hrest
    refine ⟨by rw [List.cons_append, happend], ?_⟩
    rw [byteLength_cons, hlength, Nat.add_sub_cancel' hle]
  | case4 n c rest hlt =>
    rw [splitAtByte?, if_neg hlt] at h
    cases h

namespace Span

/-- The slice at the place of a part is that part. -/
lemma slice?_ofText (before part after : List Char) :
    (ofText (byteLength before) part).slice? (before ++ part ++ after) = some part := by
  have hlength : byteLength before + byteLength part - byteLength before = byteLength part :=
    Nat.add_sub_cancel_left _ _
  simp only [slice?, ofText, Nat.le_add_right, if_true, List.append_assoc, splitAtByte?_append,
    hlength, Option.bind_eq_bind, Option.bind_some]
  rfl

/-- The slice of a span is the text that takes this place. -/
theorem slice?_eq_some_iff {s : Span} {text part : List Char} :
    s.slice? text = some part ↔
      ∃ before after, before ++ part ++ after = text ∧ s = ofText (byteLength before) part := by
  constructor
  · intro h
    unfold slice? at h
    split at h
    · rename_i hle
      obtain ⟨⟨before, rest⟩, hsplit, h⟩ := Option.bind_eq_some_iff.mp h
      obtain ⟨⟨part', after⟩, hpart, h⟩ := Option.bind_eq_some_iff.mp h
      cases h
      obtain ⟨rfl, hstart⟩ := splitAtByte?_eq_some hsplit
      obtain ⟨rfl, hstop⟩ := splitAtByte?_eq_some hpart
      refine ⟨before, after, List.append_assoc _ _ _, ?_⟩
      obtain ⟨start, stop⟩ := s
      dsimp only at hle hstart hstop
      rw [ofText, hstart, hstop, Nat.add_sub_cancel' hle]
    · cases h
  · rintro ⟨before, after, rfl, rfl⟩
    exact slice?_ofText before part after

/-- A span that has a slice lies in the text, between characters. -/
lemma bounds_of_slice? {s : Span} {text part : List Char} (h : s.slice? text = some part) :
    s.start ≤ s.stop ∧ s.stop ≤ byteLength text ∧ IsBoundary text s.start ∧
      IsBoundary text s.stop := by
  obtain ⟨before, after, rfl, rfl⟩ := slice?_eq_some_iff.mp h
  refine ⟨Nat.le_add_right _ _, ?_, ⟨before, part ++ after, ?_, rfl⟩,
    ⟨before ++ part, after, rfl, byteLength_append _ _⟩⟩
  · rw [byteLength_append, byteLength_append]
    exact Nat.le_add_right _ _
  · rw [List.append_assoc]

/-- A slice of a slice, at its place in the whole text. -/
lemma slice?_within {text before part after : List Char} {start : Nat}
    (h : (ofText start (before ++ part ++ after)).slice? text = some (before ++ part ++ after)) :
    (ofText (start + byteLength before) part).slice? text = some part := by
  obtain ⟨left, right, rfl, hspan⟩ := slice?_eq_some_iff.mp h
  have hstart : start = byteLength left := congrArg Span.start hspan
  refine slice?_eq_some_iff.mpr ⟨left ++ before, after ++ right, by simp, ?_⟩
  rw [byteLength_append, hstart]

end Span

/-! ## Splitting by characters

`cutText` cuts a text character by character, before each sign that has something of a term before
it and no caret directly before it. It agrees with the cut along tokens (`cutTokens_tokensFrom`),
because no numeral holds a sign or a caret. From it follows when a text that is put together from
terms is cut into them again (`splitTerms_flatten`).
-/

/-- A plus or a minus. -/
def IsSignMark (c : Char) : Prop := c = '+' ∨ c = '-'

/-- Whether a character is a sign can be decided. -/
instance (c : Char) : Decidable (IsSignMark c) := inferInstanceAs (Decidable (_ ∨ _))

/-- The cut of `cutTokens`, character by character. -/
def cutText (start : Nat) (started afterCaret : Bool) : List Char → List Char × List RawTerm
  | [] => ([], [])
  | c :: rest =>
    if IsSignMark c ∧ started = true ∧ afterCaret = false then
      let (more, terms) := cutText (start + c.utf8Size) true false rest
      ([], ⟨start, c :: more⟩ :: terms)
    else
      let (more, terms) := cutText (start + c.utf8Size) true (c == '^') rest
      (c :: more, terms)

namespace TokenKind

/-- The token of a sign is a sign. -/
lemma isSign_ofChar (c : Char) : (ofChar c).isSign = true ↔ IsSignMark c := by
  unfold ofChar IsSignMark
  split_ifs <;> simp_all [isSign]

/-- The token of a caret is a caret. -/
lemma ofChar_eq_caret (c : Char) : (ofChar c == caret) = (c == '^') := by
  unfold ofChar
  split_ifs with h1 h2 h3 h4
  · subst h1
    rfl
  · subst h2
    rfl
  · subst h3
    rfl
  · simp [h3]
  · simp [h3]

end TokenKind

/-- Whether a text, read after a caret or not, leaves off after a caret. -/
def endsAfterCaret (afterCaret : Bool) (text : List Char) : Bool :=
  text.foldl (fun _ c => c == '^') afterCaret

/-- A text without signs is not cut. -/
lemma cutText_append {block : List Char} (hsigns : ∀ c ∈ block, ¬IsSignMark c) (start : Nat)
    (started afterCaret : Bool) (rest : List Char) :
    cutText start started afterCaret (block ++ rest) =
      let (more, terms) := cutText (start + byteLength block) (started || !block.isEmpty)
        (endsAfterCaret afterCaret block) rest
      (block ++ more, terms) := by
  induction block generalizing start started afterCaret with
  | nil => simp [endsAfterCaret]
  | cons c block ih =>
    have hc : ¬IsSignMark c := hsigns c List.mem_cons_self
    have hblock : ∀ c ∈ block, ¬IsSignMark c := fun d hd => hsigns d (List.mem_cons_of_mem _ hd)
    rw [List.cons_append, cutText, if_neg (fun h => hc h.1), ih hblock]
    simp [endsAfterCaret, Nat.add_assoc]

/-- No character of a numeral is a sign. -/
lemma Numeral.not_isSignMark {text : List Char} (h : Numeral text) {c : Char} (hc : c ∈ text) :
    ¬IsSignMark c := by
  rintro (rfl | rfl) <;> rcases h.mem hc with hd | hd <;> simp at hd

/-- Only the last character matters. -/
lemma endsAfterCaret_append_singleton (afterCaret : Bool) (text : List Char) (c : Char) :
    endsAfterCaret afterCaret (text ++ [c]) = (c == '^') := by
  simp [endsAfterCaret]

/-- A text that ends in another character does not leave off after a caret. -/
lemma endsAfterCaret_eq_false {text : List Char} (hne : text ≠ [])
    (hlast : text.getLast? ≠ some '^') (afterCaret : Bool) :
    endsAfterCaret afterCaret text = false := by
  obtain ⟨init, c, rfl⟩ := (List.eq_nil_or_concat' text).resolve_left hne
  rw [endsAfterCaret_append_singleton]
  simpa using hlast

/-- A numeral does not end in a caret. -/
lemma Numeral.endsAfterCaret_eq {text : List Char} (h : Numeral text) (afterCaret : Bool) :
    endsAfterCaret afterCaret text = false := by
  apply endsAfterCaret_eq_false h.ne_nil
  intro hlast
  rcases h.mem (List.mem_of_getLast? hlast) with hd | hd <;> simp at hd

/-- Cutting along tokens is cutting by characters. -/
theorem cutTokens_tokensFrom (start : Nat) (text : List Char) (started afterCaret : Bool) :
    cutTokens started afterCaret (tokensFrom start text) =
      cutText start started afterCaret text := by
  -- The induction follows the scan: a numeral is one token of it, but many characters of the cut.
  induction start, text using tokensFrom.induct generalizing started afterCaret with
  | case1 start => simp [cutTokens, cutText]
  | case2 start c rest hnumeral ih =>
    rw [tokensFrom_char start hnumeral, cutTokens, cutText]
    simp only [ih, TokenKind.ofChar_eq_caret, Bool.and_eq_true, TokenKind.isSign_ofChar,
      Bool.not_eq_true', and_assoc]
    rfl
  | case3 start c rest d digits hnumeral ih =>
    have hn : Numeral (d :: digits) := by
      rw [← hnumeral]
      exact numeral_longestNumeral (by simp [hnumeral])
    have hsplit := longestNumeral_append_drop (c :: rest)
    rw [hnumeral, List.length_cons, List.drop_succ_cons] at hsplit
    conv => rhs; rw [← hsplit]
    rw [cutText_append (fun _ hc => hn.not_isSignMark hc), hn.endsAfterCaret_eq,
      tokensFrom_numeral start (by simp [hnumeral]), cutTokens]
    have hkind : (TokenKind.numeral == TokenKind.caret) = false := rfl
    simp only [hnumeral, List.length_cons, List.drop_succ_cons, ih, hkind]
    simp [TokenKind.isSign]

/-! ### Terms put together -/

/-- What can be written after the sign of a term so that the term is cut there and nowhere else. -/
structure TermBody (body : List Char) : Prop where
  ne_nil : body ≠ []
  signFree : ∀ c ∈ body, ¬IsSignMark c
  last_ne_caret : body.getLast? ≠ some '^'

/-- A term with its sign written. -/
inductive SignedTerm : List Char → Prop where
  | mk {sign : Char} {body : List Char} :
    IsSignMark sign →
    TermBody body →
    SignedTerm (sign :: body)

/-- The texts as terms, one after the other. -/
def placeTexts (start : Nat) : List (List Char) → List RawTerm
  | [] => []
  | text :: rest => ⟨start, text⟩ :: placeTexts (start + byteLength text) rest

/-- Texts that are placed are the same texts. -/
lemma map_text_placeTexts (start : Nat) (texts : List (List Char)) :
    (placeTexts start texts).map RawTerm.text = texts := by
  induction texts generalizing start with
  | nil => rfl
  | cons text rest ih => rw [placeTexts, List.map_cons, ih]

/-- A text is not cut inside a body. -/
lemma TermBody.cutText_append {body : List Char} (h : TermBody body) (start : Nat)
    (started afterCaret : Bool) (rest : List Char) :
    cutText start started afterCaret (body ++ rest) =
      let (more, terms) := cutText (start + byteLength body) true false rest
      (body ++ more, terms) := by
  have hempty : body.isEmpty = false := by simpa using h.ne_nil
  rw [PowerRule.cutText_append h.signFree,
    endsAfterCaret_eq_false h.ne_nil h.last_ne_caret, hempty]
  simp

/-- Signed terms are cut before each sign. -/
lemma cutText_flatten {texts : List (List Char)} (h : ∀ t ∈ texts, SignedTerm t) (start : Nat) :
    cutText start true false texts.flatten = ([], placeTexts start texts) := by
  induction texts generalizing start with
  | nil => rfl
  | cons text rest ih =>
    have hrest := ih (fun t ht => h t (List.mem_cons_of_mem _ ht))
    obtain ⟨hsign, hbody⟩ := h text List.mem_cons_self
    rw [List.flatten_cons, List.cons_append, cutText, if_pos ⟨hsign, rfl, rfl⟩,
      hbody.cutText_append, hrest]
    simp [placeTexts, Nat.add_assoc]

/-- A signed term has a body. -/
lemma SignedTerm.body_ne_nil {t : RawTerm} (h : SignedTerm t.text) : t.body ≠ [] := by
  obtain ⟨start, text⟩ := t
  obtain ⟨rfl | rfl, hbody⟩ := h
  · exact hbody.ne_nil
  · exact hbody.ne_nil

/-- A text without a sign in front is its own body. -/
lemma RawTerm.body_eq_text {t : RawTerm} (h : ∀ c ∈ t.text, ¬IsSignMark c) : t.body = t.text := by
  unfold RawTerm.body
  split
  · rename_i rest ht
    exact absurd (.inl rfl) (h '+' (by simp [ht]))
  · rename_i rest ht
    exact absurd (.inr rfl) (h '-' (by simp [ht]))
  · rfl

/-- A term without a sign is positive. -/
lemma RawTerm.sign_eq_positive {t : RawTerm} (h : ∀ c ∈ t.text, ¬IsSignMark c) :
    t.sign = .positive := by
  unfold RawTerm.sign
  split
  · rename_i rest ht
    exact absurd (.inr rfl) (h '-' (by simp [ht]))
  · rfl

/-- A body is not empty. -/
lemma TermBody.body_ne_nil {t : RawTerm} (h : TermBody t.text) : t.body ≠ [] := by
  rw [RawTerm.body_eq_text h.signFree]
  exact h.ne_nil

/-- Terms that are not empty are all kept. -/
lemma dropLoneSign_eq_self {terms : List RawTerm} (h : ∀ t ∈ terms, t.body ≠ []) :
    dropLoneSign terms = terms := by
  induction terms using dropLoneSign.induct with
  | case1 t last hempty =>
    exact absurd (List.isEmpty_iff.mp hempty) (h last (by simp))
  | case2 t last hempty =>
    simp [dropLoneSign, hempty]
  | case3 t rest hpair ih =>
    rw [dropLoneSign]
    · rw [ih (fun u hu => h u (List.mem_cons_of_mem _ hu))]
    · exact hpair
  | case4 => rfl

/-- There is always a term. -/
lemma splitTerms_ne_nil (expression : List Char) : splitTerms expression ≠ [] := by
  have hdrop : ∀ t rest, dropLoneSign (t :: rest) ≠ [] := by
    intro t rest
    unfold dropLoneSign
    split
    · split <;> simp
    · simp
    · rename_i h
      cases h
  exact hdrop _ _

/-- A text that is put together from terms is cut into these terms. -/
theorem splitTerms_flatten {first : List Char} {others : List (List Char)}
    (hfirst : TermBody first ∨ SignedTerm first) (hothers : ∀ t ∈ others, SignedTerm t) :
    splitTerms (first :: others).flatten = placeTexts 0 (first :: others) := by
  have hcut : cutText 0 false false (first :: others).flatten =
      (first, placeTexts (0 + byteLength first) others) := by
    rw [List.flatten_cons]
    rcases hfirst with hbody | hsigned
    · rw [hbody.cutText_append, cutText_flatten hothers]
      simp
    · obtain ⟨_, hbody⟩ := hsigned
      rw [List.cons_append, cutText, if_neg (by simp), hbody.cutText_append,
        cutText_flatten hothers]
      simp
  rw [splitTerms, tokens, cutTokens_tokensFrom, hcut]
  apply dropLoneSign_eq_self
  intro t ht
  have hmem : t.text ∈ (placeTexts 0 (first :: others)).map RawTerm.text :=
    List.mem_map_of_mem (by simpa [placeTexts] using ht)
  rw [map_text_placeTexts] at hmem
  rcases List.mem_cons.mp hmem with hfst | hother
  · rw [← hfst] at hfirst
    exact hfirst.elim TermBody.body_ne_nil SignedTerm.body_ne_nil
  · exact (hothers _ hother).body_ne_nil

end PowerRule
