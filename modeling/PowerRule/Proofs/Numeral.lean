import Mathlib.Tactic.Lemma
import Mathlib.Data.List.TakeWhile
import PowerRule.Expression

/-!
# The grammar of numerals

`Numeral` says what a numeral is without a scan: digits with a point anywhere among them or none,
and at least one digit. The scan finds exactly these: it takes a numeral whole
(`Numeral.longestNumeral_eq`), takes nothing else (`numeral_longestNumeral`), and so a text is one
numeral token exactly if it is a numeral (`isNumeral_iff`).
-/

namespace PowerRule

/-- A text of ASCII digits only. -/
def Digits (text : List Char) : Prop := ∀ c ∈ text, c.isDigit = true

/-- The numerals: `3`, `3.`, `2.75` and `.5`. -/
inductive Numeral : List Char → Prop where
  | whole {digits : List Char} :
    digits ≠ [] →
    Digits digits →
    Numeral digits
  | pointed {whole fraction : List Char} :
    whole ≠ [] →
    Digits whole →
    Digits fraction →
    Numeral (whole ++ '.' :: fraction)
  | fraction {digits : List Char} :
    digits ≠ [] →
    Digits digits →
    Numeral ('.' :: digits)

namespace Digits

/-- The digits at the start go on after digits. -/
lemma takeWhile_append {digits : List Char} (h : Digits digits) (rest : List Char) :
    (digits ++ rest).takeWhile Char.isDigit = digits ++ rest.takeWhile Char.isDigit :=
  List.takeWhile_append_of_pos h

/-- What stands past the digits does so after more digits. -/
lemma dropWhile_append {digits : List Char} (h : Digits digits) (rest : List Char) :
    (digits ++ rest).dropWhile Char.isDigit = rest.dropWhile Char.isDigit :=
  List.dropWhile_append_of_pos h

/-- Digits are all digits. -/
lemma takeWhile_eq {digits : List Char} (h : Digits digits) :
    digits.takeWhile Char.isDigit = digits := by
  have h' := h.takeWhile_append []
  simpa using h'

/-- Past digits there is nothing. -/
lemma dropWhile_eq {digits : List Char} (h : Digits digits) :
    digits.dropWhile Char.isDigit = [] := by
  have h' := h.dropWhile_append []
  simpa using h'

/-- No characters are digits. -/
lemma nil : Digits [] := nofun

/-- Digits after digits are digits. -/
lemma append {s t : List Char} (hs : Digits s) (ht : Digits t) : Digits (s ++ t) := by
  intro c hc
  rcases List.mem_append.mp hc with hc | hc
  · exact hs c hc
  · exact ht c hc

/-- The digits at the start of a text are digits. -/
lemma of_takeWhile (text : List Char) : Digits (text.takeWhile Char.isDigit) :=
  fun _ hc => List.mem_takeWhile_imp hc

/-- A number is written in digits. -/
lemma toDigits (n : Nat) : Digits (Nat.toDigits 10 n) :=
  fun _ hc => Nat.isDigit_of_mem_toDigits (by decide) (by decide) hc

/-- Zeros are digits. -/
lemma replicate_zero (n : Nat) : Digits (List.replicate n '0') := by
  intro c hc
  rw [List.eq_of_mem_replicate hc]
  rfl

end Digits

namespace Numeral

/-- A numeral is not empty. -/
lemma ne_nil {text : List Char} (h : Numeral text) : text ≠ [] := by
  cases h with
  | whole hne _ => exact hne
  | pointed _ _ _ => simp
  | fraction _ _ => simp

/-- A numeral is written with digits and points. -/
lemma mem {text : List Char} (h : Numeral text) {c : Char} (hc : c ∈ text) :
    c.isDigit = true ∨ c = '.' := by
  cases h with
  | whole _ hd => exact .inl (hd c hc)
  | pointed _ hw hf =>
    rcases List.mem_append.mp hc with hc | hc
    · exact .inl (hw c hc)
    · rcases List.mem_cons.mp hc with rfl | hc
      · exact .inr rfl
      · exact .inl (hf c hc)
  | fraction _ hd =>
    rcases List.mem_cons.mp hc with rfl | hc
    · exact .inr rfl
    · exact .inl (hd c hc)

/-- The longest numeral at the start of a numeral is all of it. -/
lemma longestNumeral_eq {text : List Char} (h : Numeral text) : longestNumeral text = text := by
  cases h with
  | whole hne hd =>
    obtain ⟨c, digits, rfl⟩ := List.exists_cons_of_ne_nil hne
    simp only [longestNumeral, hd.takeWhile_eq, hd.dropWhile_eq]
  | @pointed whole fraction hne hw hf =>
    obtain ⟨c, digits, rfl⟩ := List.exists_cons_of_ne_nil hne
    have htake : ((c :: digits) ++ '.' :: fraction).takeWhile Char.isDigit = c :: digits := by
      rw [hw.takeWhile_append]
      simp
    have hdrop : ((c :: digits) ++ '.' :: fraction).dropWhile Char.isDigit = '.' :: fraction := by
      rw [hw.dropWhile_append]
      simp
    simp only [longestNumeral, htake, hdrop, hf.takeWhile_eq]
  | @fraction digits hne hd =>
    obtain ⟨c, digits, rfl⟩ := List.exists_cons_of_ne_nil hne
    have htake : ('.' :: c :: digits).takeWhile Char.isDigit = [] := by simp
    have hdrop : ('.' :: c :: digits).dropWhile Char.isDigit = '.' :: c :: digits := by simp
    simp only [longestNumeral, htake, hdrop, hd.takeWhile_eq]

end Numeral

/-- What the scan takes, if anything, is a numeral at the start of the text. -/
lemma longestNumeral_cases (text : List Char) :
    longestNumeral text = [] ∨
      Numeral (longestNumeral text) ∧ longestNumeral text <+: text := by
  have hsplit : text.takeWhile Char.isDigit ++ text.dropWhile Char.isDigit = text :=
    List.takeWhile_append_dropWhile
  have hwhole := Digits.of_takeWhile text
  unfold longestNumeral
  generalize text.takeWhile Char.isDigit = whole at hsplit hwhole ⊢
  generalize text.dropWhile Char.isDigit = after at hsplit ⊢
  subst hsplit
  dsimp only
  -- The cases are those of the scan: digits or none in front, and whether a point follows.
  split
  · rename_i rest
    have hfraction := Digits.of_takeWhile rest
    have hprefix : rest.takeWhile Char.isDigit <+: rest := List.takeWhile_prefix _
    split
    · exact .inl rfl
    · rename_i hne
      exact .inr ⟨.fraction hne hfraction, by simpa using hprefix⟩
  · exact .inl rfl
  · rename_i whole rest hne
    have hprefix : rest.takeWhile Char.isDigit <+: rest := List.takeWhile_prefix _
    exact .inr ⟨.pointed hne hwhole (Digits.of_takeWhile rest), by simpa using hprefix⟩
  · rename_i hne _ _
    exact .inr ⟨.whole hne hwhole, List.prefix_append _ _⟩

/-- What the scan takes is a numeral, unless it takes nothing. -/
lemma numeral_longestNumeral {text : List Char} (h : longestNumeral text ≠ []) :
    Numeral (longestNumeral text) := by
  rcases longestNumeral_cases text with hnil | ⟨hn, _⟩
  · exact absurd hnil h
  · exact hn

/-- The longest numeral stands at the start. -/
lemma longestNumeral_prefix (text : List Char) : longestNumeral text <+: text := by
  rcases longestNumeral_cases text with hnil | ⟨_, hp⟩
  · rw [hnil]
    exact List.nil_prefix
  · exact hp

/-- What the scan leaves. -/
lemma longestNumeral_append_drop (text : List Char) :
    longestNumeral text ++ text.drop (longestNumeral text).length = text := by
  obtain ⟨rest, hrest⟩ := longestNumeral_prefix text
  conv => lhs; arg 2; arg 2; rw [← hrest]
  rw [List.drop_left, hrest]

/-! ## Tokens -/

/-- An empty text has no tokens. -/
@[simp] lemma tokensFrom_nil (start : Nat) : tokensFrom start [] = [] := by
  rw [tokensFrom]

/-- Where no numeral starts, one character is a token. -/
lemma tokensFrom_char {c : Char} {rest : List Char} (start : Nat)
    (h : longestNumeral (c :: rest) = []) :
    tokensFrom start (c :: rest) =
      ⟨.ofChar c, start, [c]⟩ :: tokensFrom (start + c.utf8Size) rest := by
  rw [tokensFrom]
  simp only [h]

/-- Where a numeral starts, the longest one is a token. -/
lemma tokensFrom_numeral {text : List Char} (start : Nat) (h : longestNumeral text ≠ []) :
    tokensFrom start text =
      ⟨.numeral, start, longestNumeral text⟩ ::
        tokensFrom (start + byteLength (longestNumeral text))
          (text.drop (longestNumeral text).length) := by
  cases text with
  | nil => exact absurd rfl h
  | cons c rest =>
    obtain ⟨d, digits, hcons⟩ := List.exists_cons_of_ne_nil h
    rw [tokensFrom]
    simp only [hcons, List.length_cons, List.drop_succ_cons]

/-- A single character that is cut off is no numeral. -/
lemma TokenKind.ofChar_ne_numeral (c : Char) : TokenKind.ofChar c ≠ .numeral := by
  unfold TokenKind.ofChar
  split_ifs <;> simp

/-- Only the empty text has no token. -/
lemma tokensFrom_eq_nil {start : Nat} {text : List Char} (h : tokensFrom start text = []) :
    text = [] := by
  cases text with
  | nil => rfl
  | cons c rest =>
    by_cases hn : longestNumeral (c :: rest) = []
    · rw [tokensFrom_char start hn] at h
      exact absurd h (List.cons_ne_nil _ _)
    · rw [tokensFrom_numeral start hn] at h
      exact absurd h (List.cons_ne_nil _ _)

/-- A numeral is one token. -/
lemma Numeral.tokensFrom_eq {text : List Char} (h : Numeral text) (start : Nat) :
    tokensFrom start text = [⟨.numeral, start, text⟩] := by
  have hlongest := h.longestNumeral_eq
  have hne : longestNumeral text ≠ [] := by
    rw [hlongest]
    exact h.ne_nil
  rw [tokensFrom_numeral start hne, hlongest, List.drop_length, tokensFrom_nil]

/-- A text is one numeral token exactly if it is a numeral. -/
lemma isNumeral_iff {text : List Char} : isNumeral text = true ↔ Numeral text := by
  constructor
  · intro h
    unfold isNumeral tokens at h
    cases text with
    | nil => simp at h
    | cons c rest =>
      by_cases hn : longestNumeral (c :: rest) = []
      · rw [tokensFrom_char 0 hn] at h
        split at h
        · rename_i t ht
          rw [← (List.cons.inj ht).1] at h
          exact absurd (beq_iff_eq.mp h) (TokenKind.ofChar_ne_numeral c)
        · cases h
      · rw [tokensFrom_numeral 0 hn] at h
        split at h
        · rename_i t ht
          have hdrop := tokensFrom_eq_nil (List.cons.inj ht).2
          have happend := longestNumeral_append_drop (c :: rest)
          rw [hdrop, List.append_nil] at happend
          rw [← happend]
          exact numeral_longestNumeral hn
        · cases h
  · intro h
    simp [isNumeral, tokens, h.tokensFrom_eq 0]

/-- The number of a numeral. -/
lemma Numeral.ofText?_eq {text : List Char} (h : Numeral text) :
    Decimal.ofText? text = some (Decimal.ofNumeral text) := by
  simp [Decimal.ofText?, isNumeral_iff.mpr h]

/-- Only numerals have a number. -/
lemma Decimal.ofText?_eq_some {text : List Char} {d : Decimal} (h : ofText? text = some d) :
    Numeral text ∧ d = ofNumeral text := by
  unfold ofText? at h
  split at h
  · rename_i hn
    cases h
    exact ⟨isNumeral_iff.mp hn, rfl⟩
  · cases h

end PowerRule
