import Mathlib.Data.List.Forall2
import Mathlib.Data.List.Perm.Basic
import Mathlib.Tactic.Lemma
import PowerRule.Proofs.Reading

/-!
# Expressions put together from terms

An expression that is put together from signed terms is read as these terms. So one with the same
signed terms in another order is read as the same terms in another order.
-/

namespace PowerRule

/-! ## Reading terms that are put together

In a plain variable, what is read as a term holds no sign inside and does not end in a caret
(`Reads.termBody`). So an expression that is put together from signed terms is read as exactly these
terms (`readTerms_flatten`).
-/

/-- A variable that no numeral, sign or caret is written with. -/
structure PlainVariable (var : Char) : Prop where
  not_digit : var.isDigit = false
  not_point : var ≠ '.'
  not_sign : ¬IsSignMark var
  not_caret : var ≠ '^'

namespace PlainVariable

/-- ASCII letters are plain variables. -/
lemma of_isAlpha {var : Char} (h : var.isAlpha = true) : PlainVariable var where
  not_digit := by
    have hletter : 65 ≤ var.val.toNat := by
      rcases (Bool.or_eq_true _ _).mp h with hupper | hlower
      · exact (of_decide_eq_true hupper).1
      · have ha : 97 ≤ var.val.toNat := of_decide_eq_true ((Bool.and_eq_true _ _).mp hlower).1
        omega
    rw [← Bool.not_eq_true]
    intro hdigit
    have hnine : var.val.toNat ≤ 57 := of_decide_eq_true ((Bool.and_eq_true _ _).mp hdigit).2
    omega
  not_point := by
    rintro rfl
    cases h
  not_sign := by
    rintro (rfl | rfl)
    · cases h
    · cases h
  not_caret := by
    rintro rfl
    cases h

/-- A plain variable is in no numeral. -/
lemma notMem_numeral {var : Char} (hvar : PlainVariable var) {text : List Char}
    (h : Numeral text) : var ∉ text := by
  intro hmem
  rcases h.mem hmem with hd | hp
  · rw [hvar.not_digit] at hd
    cases hd
  · exact hvar.not_point hp

end PlainVariable

/-- A numeral is the body of a term. -/
lemma Numeral.termBody {text : List Char} (h : Numeral text) : TermBody text where
  ne_nil := h.ne_nil
  signFree _ hc := h.not_isSignMark hc
  last_ne_caret hlast := by
    rcases h.mem (List.mem_of_getLast? hlast) with hd | hd <;> simp at hd

/-- There is no sign after the variable. -/
lemma ReadsTrailing.signFree {text : List Char} {n : Nat} (h : ReadsTrailing text n) :
    ∀ c ∈ text, ¬IsSignMark c := by
  cases h with
  | missing => simp
  | written hn =>
    intro c hc
    rcases List.mem_cons.mp hc with rfl | hc
    · decide
    · exact (exponentOfText_eq_ok_iff.mp hn).1.not_isSignMark hc

/-- What is read after the variable does not end in a caret. -/
lemma ReadsTrailing.getLast?_ne {text : List Char} {n : Nat} (h : ReadsTrailing text n) :
    text.getLast? ≠ some '^' := by
  cases h with
  | missing => simp
  | written hn =>
    have hnumeral := (exponentOfText_eq_ok_iff.mp hn).1
    rw [List.getLast?_cons_of_ne_nil hnumeral.ne_nil]
    exact hnumeral.termBody.last_ne_caret

/-- What is read as a term is cut at its sign only. -/
lemma Reads.termBody {var : Char} {sign : Sign} {body : List Char} {t : Term}
    (hvar : PlainVariable var) (h : Reads var sign body t) :
    TermBody body := by
  cases h with
  | constant _ hm => exact (coefficient?_eq_some_iff.mp hm).1.termBody
  | @power leading trailing m n _ hm hn =>
    refine ⟨by simp, ?_, ?_⟩
    · intro c hc
      rcases List.mem_append.mp hc with hc | hc
      · rcases hm.numeral with rfl | hnumeral
        · cases hc
        · exact hnumeral.not_isSignMark hc
      · rcases List.mem_cons.mp hc with rfl | hc
        · exact hvar.not_sign
        · exact hn.signFree c hc
    · rw [List.getLast?_append_of_ne_nil _ (List.cons_ne_nil _ _), List.getLast?_cons]
      have hlast := hn.getLast?_ne
      cases htrailing : trailing.getLast? with
      | none => simpa using hvar.not_caret
      | some c =>
        rw [htrailing] at hlast
        simpa using hlast

/-! ### Terms put together -/

/-- Terms put together are read one by one. -/
lemma readsAll_placeTexts {var : Char} {texts : List (List Char)} {terms : List Term}
    (h : List.Forall₂ (fun text t => ∀ start, readTerm var ⟨start, text⟩ = .ok t) texts terms)
    (start : Nat) :
    ReadsAll var (placeTexts start texts) ((placeTexts start texts).zip terms) ∧
      ((placeTexts start texts).zip terms).map Prod.snd = terms := by
  induction h generalizing start with
  | nil => exact ⟨⟨rfl, by simp [placeTexts]⟩, rfl⟩
  | @cons text t texts terms ht _ ih =>
    obtain ⟨⟨hmap, hread⟩, hsnd⟩ := ih (start + byteLength text)
    refine ⟨⟨?_, ?_⟩, ?_⟩
    · rw [placeTexts, List.zip_cons_cons, List.map_cons, hmap]
    · intro r hr
      rw [placeTexts, List.zip_cons_cons] at hr
      rcases List.mem_cons.mp hr with rfl | hr
      · exact ht start
      · exact hread r hr
    · rw [placeTexts, List.zip_cons_cons, List.map_cons, hsnd]

/-- An expression put together from terms is read as these terms. -/
theorem readTerms_flatten {var : Char} {first : List Char} {others : List (List Char)}
    {terms : List Term} (hfirst : TermBody first ∨ SignedTerm first)
    (hothers : ∀ t ∈ others, SignedTerm t)
    (h : List.Forall₂ (fun text t => ∀ start, readTerm var ⟨start, text⟩ = .ok t)
      (first :: others) terms) :
    ∃ read, readTerms var (first :: others).flatten = .ok read ∧ read.map Prod.snd = terms := by
  obtain ⟨hread, hsnd⟩ := readsAll_placeTexts h 0
  refine ⟨_, readTerms_eq_ok_iff.mpr ?_, hsnd⟩
  rw [splitTerms_flatten hfirst hothers]
  exact hread

/-! ## Expressions with the same terms

Which term is read depends on the sign and the body only, not on where they stand or whether the
sign of the first term is written. So an expression whose signed terms are a permutation of those of
another one is read as a permutation of its terms (`ReadsAll.of_perm`), and the signed terms may be
put together again in any order (`signedTexts_flatten`).
-/

/-- The sign as it is written between terms. -/
def Sign.symbol : Sign → Char
  | positive => '+'
  | negative => '-'

/-- The symbol of a sign is a sign. -/
lemma Sign.isSignMark_symbol (s : Sign) : IsSignMark s.symbol := by
  cases s with
  | positive => exact .inl rfl
  | negative => exact .inr rfl

/-- Signs with the same symbol are the same. -/
lemma Sign.symbol_injective {s t : Sign} (h : s.symbol = t.symbol) : s = t := by
  cases s with
  | positive =>
    cases t with
    | positive => rfl
    | negative => cases h
  | negative =>
    cases t with
    | positive => cases h
    | negative => rfl

/-- The term with its sign written, also if it is the first. -/
def RawTerm.signedText (raw : RawTerm) : List Char := raw.sign.symbol :: raw.body

/-- The terms of an expression with their signs. -/
def signedTexts (expression : List Char) : List (List Char) :=
  (splitTerms expression).map RawTerm.signedText

/-- What was read, without its place: the sign and the body, and the term. -/
def readView (r : RawTerm × Term) : Sign × List Char × Term := (r.1.sign, r.1.body, r.2)

/-- The text is a sign and a body that is read as the term. -/
def ReadsSigned (var : Char) (text : List Char) (view : Sign × List Char × Term) : Prop :=
  text = view.1.symbol :: view.2.1 ∧ Reads var view.1 view.2.1 view.2.2

/-- A text is read as one term. -/
lemma Reads.unique {var : Char} {sign : Sign} {body : List Char} {t u : Term}
    (ht : Reads var sign body t) (hu : Reads var sign body u) :
    t = u := by
  have hread : ∀ v, Reads var sign body v → readTerm var ⟨0, sign.symbol :: body⟩ = .ok v := by
    intro v hv
    apply readTerm_eq_ok_iff.mpr
    cases sign with
    | positive => exact hv
    | negative => exact hv
  exact Except.ok.inj ((hread t ht).symm.trans (hread u hu))

/-- So is a text with a sign. -/
lemma readsSigned_rightUnique (var : Char) : Relator.RightUnique (ReadsSigned var) := by
  rintro _ ⟨s, body, t⟩ ⟨s', body', t'⟩ ⟨rfl, ht⟩ ⟨heq, ht'⟩
  obtain ⟨hsymbol, hbody⟩ := List.cons.inj heq
  have hs : s = s' := Sign.symbol_injective hsymbol
  dsimp only at hbody
  subst hs hbody
  exact congrArg (fun u => (s, body, u)) (ht.unique ht')

section

variable {var : Char} {raws raws' : List RawTerm} {terms : List (RawTerm × Term)}

/-- The terms are read from their signed texts, one by one. -/
lemma ReadsAll.forall₂ (h : ReadsAll var raws terms) :
    List.Forall₂ (ReadsSigned var) (raws.map RawTerm.signedText) (terms.map readView) := by
  obtain ⟨rfl, hread⟩ := h
  rw [List.map_map, List.forall₂_map_left_iff, List.forall₂_map_right_iff, List.forall₂_same]
  intro r hr
  exact ⟨rfl, readTerm_eq_ok_iff.mp (hread r hr)⟩

/-- A permutation of the signed terms is read as a permutation of the terms. -/
theorem ReadsAll.of_perm (h : ReadsAll var raws terms)
    (hperm : (raws'.map RawTerm.signedText).Perm (raws.map RawTerm.signedText)) :
    ∃ terms', ReadsAll var raws' terms' ∧ (terms'.map readView).Perm (terms.map readView) := by
  -- Each text of the permutation is among the texts that were read.
  have hreadable : ∀ raw ∈ raws', ∃ t, readTerm var raw = .ok t := by
    intro raw hraw
    have hmem := hperm.mem_iff.mp (List.mem_map_of_mem hraw)
    obtain ⟨raw', hraw', heq⟩ := List.mem_map.mp hmem
    obtain ⟨hsymbol, hbody⟩ := List.cons.inj heq
    obtain ⟨hmap, hread⟩ := h
    rw [← hmap] at hraw'
    obtain ⟨r, hr, rfl⟩ := List.mem_map.mp hraw'
    have ht := readTerm_eq_ok_iff.mp (hread r hr)
    rw [Sign.symbol_injective hsymbol, hbody] at ht
    exact ⟨r.2, readTerm_eq_ok_iff.mpr ht⟩
  obtain ⟨terms', h'⟩ := exists_readsAll hreadable
  exact ⟨terms', h', List.rel_perm_imp (readsSigned_rightUnique var) h'.forall₂ h.forall₂ hperm⟩

end

/-- Signed terms that are placed have the same signed texts. -/
lemma signedText_placeTexts {texts : List (List Char)} (h : ∀ t ∈ texts, SignedTerm t)
    (start : Nat) :
    (placeTexts start texts).map RawTerm.signedText = texts := by
  induction texts generalizing start with
  | nil => rfl
  | cons text rest ih =>
    rw [placeTexts, List.map_cons, ih fun t ht => h t (List.mem_cons_of_mem _ ht)]
    obtain ⟨rfl | rfl, _⟩ := h text List.mem_cons_self
    · rfl
    · rfl

/-- The signed terms, put together in any order, are cut into these terms again. -/
theorem signedTexts_flatten {var : Char} (hvar : PlainVariable var) {expression : List Char}
    {terms : List (RawTerm × Term)} (h : ReadsAll var (splitTerms expression) terms)
    {texts : List (List Char)} (hperm : texts.Perm (signedTexts expression)) :
    signedTexts texts.flatten = texts := by
  have hsigned : ∀ t ∈ texts, SignedTerm t := by
    intro t ht
    obtain ⟨raw, hraw, rfl⟩ := List.mem_map.mp (hperm.mem_iff.mp ht)
    obtain ⟨hmap, hread⟩ := h
    rw [← hmap] at hraw
    obtain ⟨r, hr, rfl⟩ := List.mem_map.mp hraw
    exact .mk r.1.sign.isSignMark_symbol ((readTerm_eq_ok_iff.mp (hread r hr)).termBody hvar)
  cases texts with
  | nil =>
    have hnil : splitTerms expression = [] := by simpa [signedTexts] using hperm
    exact absurd hnil (splitTerms_ne_nil expression)
  | cons first others =>
    rw [signedTexts, splitTerms_flatten (.inr (hsigned first List.mem_cons_self))
      fun t ht => hsigned t (List.mem_cons_of_mem _ ht)]
    exact signedText_placeTexts hsigned 0

end PowerRule
