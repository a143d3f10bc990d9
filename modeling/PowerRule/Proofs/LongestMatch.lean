import PowerRule.Proofs.Joining
import PowerRule.Proofs.Offsets

/-!
# Tokens by longest match

What a token can be is said kind by kind (`TokenKind.Accepts`), and a scan that takes the longest
text of any kind at each place is a relation (`Scans`). It never stops and leaves no choice
(`Scans.unique`), and a place where it finds nothing is a line feed. The tokens are what it finds,
with a symbol where it finds nothing (`scans_tokens`); `tokens_partition` says what this means for
a text: the tokens cover it without gaps, and none could be longer.
-/

namespace PowerRule

/-- The texts that a token of a kind can be. -/
inductive TokenKind.Accepts : TokenKind → List Char → Prop where
  | plus : Accepts .plus ['+']
  | minus : Accepts .minus ['-']
  | caret : Accepts .caret ['^']
  | numeral {text : List Char} :
    Numeral text →
    Accepts .numeral text
  | letter {c : Char} :
    c.isAlpha = true →
    Accepts .letter [c]
  | symbol {c : Char} :
    c ≠ '\n' →
    Accepts .symbol [c]

/-- The text begins with a token of this kind: no longer text at its start is of any kind, and it is
a symbol only if it is of no other kind. -/
structure Begins (text : List Char) (kind : TokenKind) (lexeme : List Char) : Prop where
  accepts : kind.Accepts lexeme
  initial : lexeme <+: text
  longest : ∀ other n, TokenKind.Accepts other n → n <+: text → n.length ≤ lexeme.length
  preferred : kind = .symbol → ∀ other, TokenKind.Accepts other lexeme → other = .symbol

/-- What a scan finds at a place: a token of a kind, or a character of no kind. -/
structure Match where
  kind : Option TokenKind
  start : Nat
  lexeme : List Char

namespace Match

/-- The place of what is found. -/
def span (m : Match) : Span := Span.ofText m.start m.lexeme

/-- What is found as a token: a character of no kind counts as a symbol. -/
def token (m : Match) : Token := ⟨m.kind.getD .symbol, m.start, m.lexeme⟩

end Match

/-- A scan of a text that starts at the given byte: at each place it takes the longest token, or one
character where no token begins. -/
inductive Scans : Nat → List Char → List Match → Prop where
  | done {start : Nat} :
    Scans start [] []
  | token {start : Nat} {kind : TokenKind} {text lexeme rest : List Char} {found : List Match} :
    Begins text kind lexeme →
    lexeme ++ rest = text →
    Scans (start + byteLength lexeme) rest found →
    Scans start text (⟨some kind, start, lexeme⟩ :: found)
  | failure {start : Nat} {c : Char} {rest : List Char} {found : List Match} :
    (∀ kind lexeme, ¬Begins (c :: rest) kind lexeme) →
    Scans (start + byteLength [c]) rest found →
    Scans start (c :: rest) (⟨none, start, [c]⟩ :: found)

/-- Spans in a row, none of them empty, from one byte up to another. -/
inductive Tiles : Nat → List Span → Nat → Prop where
  | nil {start : Nat} :
    Tiles start [] start
  | cons {start middle stop : Nat} {spans : List Span} :
    start < middle →
    Tiles middle spans stop →
    Tiles start (⟨start, middle⟩ :: spans) stop

/-- The numeral at the start of a text that no further character can be added to. -/
structure LongestNumeral (text numeral : List Char) : Prop where
  isNumeral : Numeral numeral
  initial : numeral <+: text
  longest : ∀ n, Numeral n → n <+: text → n.length ≤ numeral.length

/-! ## The longest numeral -/

/-- The digits at the start belong to the longest numeral. -/
lemma length_takeWhile_le_longestNumeral (text : List Char) :
    (text.takeWhile Char.isDigit).length ≤ (longestNumeral text).length := by
  unfold longestNumeral
  generalize text.takeWhile Char.isDigit = whole
  dsimp only
  split
  · exact Nat.zero_le _
  · exact Nat.zero_le _
  · rw [List.length_append]
    exact Nat.le_add_right _ _
  · exact Nat.le_refl _

/-- No numeral at the start of a text is longer than the one that is taken. -/
lemma Numeral.length_le_longestNumeral {n text : List Char} (h : Numeral n)
    (hinitial : n <+: text) : n.length ≤ (longestNumeral text).length := by
  obtain ⟨rest, rfl⟩ := hinitial
  cases h with
  | whole hne hd =>
    have hle := length_takeWhile_le_longestNumeral (n ++ rest)
    rw [hd.takeWhile_append, List.length_append] at hle
    exact Nat.le_trans (Nat.le_add_right _ _) hle
  | @pointed whole fraction hne hw hf =>
    obtain ⟨c, digits, rfl⟩ := List.exists_cons_of_ne_nil hne
    have htake :
        ((c :: digits) ++ '.' :: fraction ++ rest).takeWhile Char.isDigit = c :: digits := by
      rw [List.append_assoc, hw.takeWhile_append]
      simp
    have hdrop : ((c :: digits) ++ '.' :: fraction ++ rest).dropWhile Char.isDigit =
        '.' :: (fraction ++ rest) := by
      rw [List.append_assoc, hw.dropWhile_append]
      simp
    simp only [longestNumeral, htake, hdrop, hf.takeWhile_append]
    simp only [List.length_append, List.length_cons]
    omega
  | @fraction digits hne hd =>
    obtain ⟨c, digits, rfl⟩ := List.exists_cons_of_ne_nil hne
    have htake : ('.' :: c :: digits ++ rest).takeWhile Char.isDigit = [] := by simp
    have hdrop : ('.' :: c :: digits ++ rest).dropWhile Char.isDigit =
        '.' :: ((c :: digits) ++ rest) := by simp
    simp only [longestNumeral, htake, hdrop, hd.takeWhile_append]
    simp only [List.cons_append, List.length_append, List.length_cons]
    omega

/-- If the longest numeral is empty, there is none at the start. -/
lemma longestNumeral_eq_nil {text : List Char} (h : longestNumeral text = []) {n : List Char}
    (hn : Numeral n) : ¬n <+: text := by
  intro hinitial
  have hle := hn.length_le_longestNumeral hinitial
  rw [h] at hle
  exact hn.ne_nil (List.length_eq_zero_iff.mp (Nat.le_zero.mp hle))

/-- What is taken, if anything, is the longest numeral. -/
lemma longestNumeral_longest {text : List Char} (h : longestNumeral text ≠ []) :
    LongestNumeral text (longestNumeral text) where
  isNumeral := numeral_longestNumeral h
  initial := longestNumeral_prefix text
  longest _ hn hinitial := hn.length_le_longestNumeral hinitial

/-! ## Where a token begins -/

/-- A token of another kind than the numerals is one character. -/
lemma TokenKind.Accepts.cases_numeral {kind : TokenKind} {lexeme : List Char}
    (h : kind.Accepts lexeme) : kind = .numeral ∧ Numeral lexeme ∨ ∃ c, lexeme = [c] := by
  cases h with
  | numeral hn => exact .inl ⟨rfl, hn⟩
  | plus => exact .inr ⟨_, rfl⟩
  | minus => exact .inr ⟨_, rfl⟩
  | caret => exact .inr ⟨_, rfl⟩
  | letter _ => exact .inr ⟨_, rfl⟩
  | symbol _ => exact .inr ⟨_, rfl⟩

/-- A lexeme is not empty. -/
lemma TokenKind.Accepts.ne_nil {kind : TokenKind} {lexeme : List Char} (h : kind.Accepts lexeme) :
    lexeme ≠ [] := by
  rcases h.cases_numeral with ⟨_, hn⟩ | ⟨c, rfl⟩
  · exact hn.ne_nil
  · exact List.cons_ne_nil _ _

/-- Every character but a line feed is a lexeme of its kind. -/
lemma TokenKind.accepts_ofChar {c : Char} (h : c ≠ '\n') : (ofChar c).Accepts [c] := by
  unfold ofChar
  split_ifs with hplus hminus hcaret hletter
  · rw [hplus]
    exact .plus
  · rw [hminus]
    exact .minus
  · rw [hcaret]
    exact .caret
  · exact .letter hletter
  · exact .symbol h

/-- The kind of a character is the one that accepts it, if another than the symbols does. -/
lemma TokenKind.Accepts.eq_ofChar {kind : TokenKind} {c : Char} (h : kind.Accepts [c])
    (hnumeral : ¬Numeral [c]) : kind = ofChar c ∨ kind = .symbol := by
  cases h with
  | plus => exact .inl rfl
  | minus => exact .inl rfl
  | caret => exact .inl rfl
  | numeral hn => exact absurd hn hnumeral
  | letter hletter =>
    have hmarks : c ≠ '+' ∧ c ≠ '-' ∧ c ≠ '^' := by
      refine ⟨?_, ?_, ?_⟩ <;> rintro rfl <;> cases hletter
    refine .inl ?_
    rw [ofChar, if_neg hmarks.1, if_neg hmarks.2.1, if_neg hmarks.2.2, if_pos hletter]
  | symbol _ => exact .inr rfl

/-- A text with a numeral at its start begins with the longest one. -/
lemma begins_numeral {text : List Char} (h : longestNumeral text ≠ []) :
    Begins text .numeral (longestNumeral text) where
  accepts := .numeral (numeral_longestNumeral h)
  initial := longestNumeral_prefix text
  longest other n hn hinitial := by
    rcases hn.cases_numeral with ⟨_, hnumeral⟩ | ⟨c, rfl⟩
    · exact hnumeral.length_le_longestNumeral hinitial
    · exact List.length_pos_iff.mpr h
  preferred hkind := by cases hkind

/-- A text without one begins with its first character. -/
lemma begins_char {c : Char} {rest : List Char} (h : longestNumeral (c :: rest) = [])
    (hc : c ≠ '\n') : Begins (c :: rest) (.ofChar c) [c] where
  accepts := TokenKind.accepts_ofChar hc
  initial := ⟨rest, rfl⟩
  longest other n hn hinitial := by
    rcases hn.cases_numeral with ⟨_, hnumeral⟩ | ⟨d, rfl⟩
    · exact absurd hinitial (longestNumeral_eq_nil h hnumeral)
    · exact Nat.le_refl _
  preferred hkind other hother := by
    have hnumeral : ¬Numeral [c] := fun hn => longestNumeral_eq_nil h hn ⟨rest, rfl⟩
    rcases hother.eq_ofChar hnumeral with heq | heq
    · rw [heq, hkind]
    · exact heq

/-- No lexeme holds a line feed. -/
lemma TokenKind.Accepts.lineFeed_notMem {kind : TokenKind} {lexeme : List Char}
    (h : kind.Accepts lexeme) : '\n' ∉ lexeme := by
  cases h with
  | plus => decide
  | minus => decide
  | caret => decide
  | numeral hn =>
    intro hmem
    rcases hn.mem hmem with hc | hc
    · cases hc
    · cases hc
  | letter hletter =>
    intro hmem
    rw [← List.mem_singleton.mp hmem] at hletter
    cases hletter
  | symbol hc =>
    intro hmem
    exact hc (List.mem_singleton.mp hmem).symm

/-- At a line feed there is no lexeme. -/
lemma not_begins_lineFeed (rest : List Char) (kind : TokenKind) (lexeme : List Char) :
    ¬Begins ('\n' :: rest) kind lexeme := by
  intro h
  obtain ⟨c, lexeme, rfl⟩ := List.exists_cons_of_ne_nil h.accepts.ne_nil
  obtain ⟨rfl, -⟩ := List.cons_prefix_cons.mp h.initial
  exact h.accepts.lineFeed_notMem List.mem_cons_self

/-- Lexemes of the other kinds are no numerals, symbols apart. -/
lemma TokenKind.Accepts.not_numeral {kind : TokenKind} {lexeme : List Char}
    (h : kind.Accepts lexeme) (hnumeral : kind ≠ .numeral) (hsymbol : kind ≠ .symbol) :
    ¬Numeral lexeme := by
  intro hn
  cases h with
  | plus => rcases hn.mem List.mem_cons_self with hc | hc <;> cases hc
  | minus => rcases hn.mem List.mem_cons_self with hc | hc <;> cases hc
  | caret => rcases hn.mem List.mem_cons_self with hc | hc <;> cases hc
  | numeral _ => exact hnumeral rfl
  | letter hletter =>
    exact (PlainVariable.of_isAlpha hletter).notMem_numeral hn List.mem_cons_self
  | symbol _ => exact hsymbol rfl

/-- No text is of two kinds, unless one of them is that of symbols. -/
lemma TokenKind.Accepts.unique {kind kind' : TokenKind} {lexeme : List Char}
    (h : kind.Accepts lexeme) (h' : kind'.Accepts lexeme) (hsymbol : kind ≠ .symbol)
    (hsymbol' : kind' ≠ .symbol) : kind = kind' := by
  rcases h.cases_numeral with ⟨rfl, hn⟩ | ⟨c, rfl⟩
  · by_contra hne
    exact h'.not_numeral (Ne.symm hne) hsymbol' hn
  · by_cases hn : Numeral [c]
    · have hkind : ∀ {k : TokenKind}, k.Accepts [c] → k ≠ .symbol → k = .numeral := by
        intro k hk hks
        by_contra hne
        exact hk.not_numeral hne hks hn
      rw [hkind h hsymbol, hkind h' hsymbol']
    · rw [(h.eq_ofChar hn).resolve_right hsymbol, (h'.eq_ofChar hn).resolve_right hsymbol']

/-- At most one token begins at a place. -/
lemma Begins.unique {text lexeme lexeme' : List Char} {kind kind' : TokenKind}
    (h : Begins text kind lexeme) (h' : Begins text kind' lexeme') :
    kind = kind' ∧ lexeme = lexeme' := by
  have hlength : lexeme.length = lexeme'.length :=
    Nat.le_antisymm (h'.longest _ _ h.accepts h.initial) (h.longest _ _ h'.accepts h'.initial)
  have heq : lexeme = lexeme' :=
    (List.prefix_of_prefix_length_le h.initial h'.initial hlength.le).eq_of_length hlength
  subst heq
  refine ⟨?_, rfl⟩
  by_cases hsymbol : kind = .symbol
  · rw [hsymbol, h.preferred hsymbol _ h'.accepts]
  · by_cases hsymbol' : kind' = .symbol
    · rw [hsymbol', h'.preferred hsymbol' _ h.accepts]
    · exact h.accepts.unique h'.accepts hsymbol hsymbol'

/-! ## The scan -/

namespace Scans

/-- A scan finds the tokens, and a symbol less at each place where it finds nothing. -/
lemma exists_tokensFrom (start : Nat) (text : List Char) :
    ∃ found, Scans start text found ∧ tokensFrom start text = found.map Match.token := by
  induction start, text using tokensFrom.induct with
  | case1 start => exact ⟨[], .done, tokensFrom_nil start⟩
  | case2 start c rest hnumeral ih =>
    obtain ⟨found, hscan, htokens⟩ := ih
    rw [tokensFrom_char start hnumeral, htokens]
    by_cases hc : c = '\n'
    · subst hc
      exact ⟨_, .failure (not_begins_lineFeed rest) hscan, rfl⟩
    · exact ⟨_, .token (begins_char hnumeral hc) rfl hscan, rfl⟩
  | case3 start c rest d digits hnumeral ih =>
    obtain ⟨found, hscan, htokens⟩ := ih
    have hne : longestNumeral (c :: rest) ≠ [] := by simp [hnumeral]
    have hsplit := longestNumeral_append_drop (c :: rest)
    rw [tokensFrom_numeral start hne, hnumeral, List.length_cons, List.drop_succ_cons, htokens]
    rw [hnumeral, List.length_cons, List.drop_succ_cons] at hsplit
    have hbegins := begins_numeral hne
    rw [hnumeral] at hbegins
    exact ⟨_, .token hbegins hsplit hscan, rfl⟩

/-- The scan has no choice. -/
lemma unique {start : Nat} {text : List Char} {found found' : List Match}
    (h : Scans start text found) (h' : Scans start text found') : found = found' := by
  induction h generalizing found' with
  | done =>
    cases h' with
    | done => rfl
    | token hbegins hsplit _ =>
      exact absurd (List.append_eq_nil_iff.mp hsplit).1 hbegins.accepts.ne_nil
  | token hbegins hsplit _ ih =>
    cases h' with
    | done => exact absurd (List.append_eq_nil_iff.mp hsplit).1 hbegins.accepts.ne_nil
    | token hbegins' hsplit' hrest =>
      obtain ⟨rfl, rfl⟩ := hbegins.unique hbegins'
      cases List.append_cancel_left (hsplit.trans hsplit'.symm)
      rw [ih hrest]
    | failure hnone _ => exact absurd hbegins (hnone _ _)
  | failure hnone _ ih =>
    cases h' with
    | token hbegins _ _ => exact absurd hbegins (hnone _ _)
    | failure _ hrest => rw [ih hrest]

/-- What is found covers the text. -/
lemma tiles {start : Nat} {text : List Char} {found : List Match} (h : Scans start text found) :
    Tiles start (found.map Match.span) (start + byteLength text) := by
  induction h with
  | done => exact .nil
  | @token start kind text lexeme rest found hbegins hsplit _ ih =>
    rw [← hsplit, byteLength_append, ← Nat.add_assoc]
    refine .cons ?_ ih
    obtain ⟨c, lexeme, rfl⟩ := List.exists_cons_of_ne_nil hbegins.accepts.ne_nil
    have hpos := c.utf8Size_pos
    show start < start + byteLength (c :: lexeme)
    rw [byteLength_cons]
    omega
  | @failure start c rest found _ _ ih =>
    rw [byteLength_cons, ← Nat.add_assoc]
    refine .cons ?_ ih
    have hpos := c.utf8Size_pos
    show start < start + byteLength [c]
    rw [byteLength_cons]
    omega

/-- What is found stands at its place, before the rest of the text, and begins that. -/
lemma exists_rest {start : Nat} {text : List Char} {found : List Match}
    (h : Scans start text found) {m : Match} (hm : m ∈ found) :
    ∃ before rest, before ++ rest = text ∧ start + byteLength before = m.start ∧
      ((∃ kind, m.kind = some kind ∧ Begins rest kind m.lexeme) ∨
        m.kind = none ∧ ∃ after, rest = '\n' :: after ∧ m.lexeme = ['\n']) := by
  induction h with
  | done => cases hm
  | @token start kind text lexeme rest found hbegins hsplit _ ih =>
    rcases List.mem_cons.mp hm with rfl | hm
    · exact ⟨[], text, rfl, rfl, .inl ⟨kind, rfl, hbegins⟩⟩
    · obtain ⟨before, after, hafter, hstart, hfound⟩ := ih hm
      refine ⟨lexeme ++ before, after, ?_, ?_, hfound⟩
      · rw [List.append_assoc, hafter, hsplit]
      · rw [byteLength_append, ← Nat.add_assoc, hstart]
  | @failure start c rest found hnone _ ih =>
    rcases List.mem_cons.mp hm with rfl | hm
    · refine ⟨[], c :: rest, rfl, rfl, .inr ⟨rfl, rest, ?_⟩⟩
      by_cases hc : c = '\n'
      · rw [hc]
        exact ⟨rfl, rfl⟩
      · by_cases hnumeral : longestNumeral (c :: rest) = []
        · exact absurd (begins_char hnumeral hc) (hnone _ _)
        · exact absurd (begins_numeral hnumeral) (hnone _ _)
    · obtain ⟨before, after, hafter, hstart, hfound⟩ := ih hm
      refine ⟨c :: before, after, ?_, ?_, hfound⟩
      · rw [List.cons_append, hafter]
      · rw [byteLength_cons, ← hstart, byteLength_cons, byteLength_nil]
        omega

/-- Every line feed is found, as a character of no kind. -/
lemma exists_lineFeed {start : Nat} {text : List Char} {found : List Match}
    (h : Scans start text found) {before after : List Char}
    (htext : before ++ '\n' :: after = text) :
    ∃ m ∈ found, m.start = start + byteLength before ∧ m.lexeme = ['\n'] := by
  induction h generalizing before with
  | done => exact absurd (List.append_eq_nil_iff.mp htext).2 (List.cons_ne_nil _ _)
  | @token start kind text lexeme rest found hbegins hsplit _ ih =>
    rw [← hsplit] at htext
    rcases List.append_eq_append_iff.mp htext with
      ⟨middle, hlexeme, hfeed⟩ | ⟨middle, hbefore, hrest⟩
    · -- The line feed would be in the lexeme, or right after it.
      cases middle with
      | nil =>
        rw [List.append_nil] at hlexeme
        rw [List.nil_append] at hfeed
        obtain ⟨m, hm, hstart, hm'⟩ := ih (show [] ++ '\n' :: after = rest from hfeed)
        refine ⟨m, List.mem_cons_of_mem _ hm, ?_, hm'⟩
        rw [hstart, hlexeme]
        rfl
      | cons c middle =>
        obtain ⟨rfl, -⟩ := List.cons.inj hfeed
        exact absurd (by simp [hlexeme]) hbegins.accepts.lineFeed_notMem
    · obtain ⟨m, hm, hstart, hm'⟩ := ih hrest.symm
      refine ⟨m, List.mem_cons_of_mem _ hm, ?_, hm'⟩
      rw [hstart, hbefore, byteLength_append, Nat.add_assoc]
  | @failure start c rest found _ _ ih =>
    cases before with
    | nil =>
      obtain ⟨rfl, -⟩ := List.cons.inj htext
      exact ⟨_, List.mem_cons_self, rfl, rfl⟩
    | cons d before =>
      obtain ⟨rfl, hrest⟩ := List.cons.inj htext
      obtain ⟨m, hm, hstart, hm'⟩ := ih hrest
      refine ⟨m, List.mem_cons_of_mem _ hm, ?_, hm'⟩
      rw [hstart, byteLength_cons, byteLength_cons, byteLength_nil, Nat.add_zero, Nat.add_assoc]

/-- Nothing is found exactly at the line feeds. -/
lemma kind_eq_none_iff {start : Nat} {text : List Char} {found : List Match}
    (h : Scans start text found) {m : Match} (hm : m ∈ found) :
    m.kind = none ↔ m.lexeme = ['\n'] := by
  obtain ⟨before, rest, _, _, ⟨kind, hkind, hbegins⟩ | ⟨hkind, _, _, hlexeme⟩⟩ := h.exists_rest hm
  · rw [hkind]
    constructor
    · intro hnone
      cases hnone
    · intro hlexeme
      exact absurd (by simp [hlexeme]) hbegins.accepts.lineFeed_notMem
  · exact ⟨fun _ => hlexeme, fun _ => hkind⟩

end Scans

/-- How a single character is classified. -/
structure TokenKind.Classifies (kind : TokenKind) (c : Char) : Prop where
  plus : kind = .plus ↔ c = '+'
  minus : kind = .minus ↔ c = '-'
  caret : kind = .caret ↔ c = '^'
  letter : kind = .letter ↔ c.isAlpha = true
  symbol : kind = .symbol ↔ c ≠ '+' ∧ c ≠ '-' ∧ c ≠ '^' ∧ ¬c.isAlpha = true

/-- The kind of a character is the one that it has. -/
lemma TokenKind.classifies_ofChar (c : Char) : (ofChar c).Classifies c := by
  unfold ofChar
  split_ifs with hplus hminus hcaret hletter
  · subst hplus
    constructor <;> decide
  · subst hminus
    constructor <;> decide
  · subst hcaret
    constructor <;> decide
  · constructor <;> simp [*]
  · constructor <;> simp [*]

/-- A token stands before the rest of its text. It is the longest numeral there; or no numeral is
there, and it is one character. -/
lemma exists_rest_of_mem_tokensFrom {start : Nat} {text : List Char} {t : Token}
    (h : t ∈ tokensFrom start text) :
    ∃ before rest, before ++ rest = text ∧ start + byteLength before = t.start ∧
      (t.kind = .numeral → LongestNumeral rest t.lexeme) ∧
      (t.kind ≠ .numeral → (∀ n, Numeral n → ¬n <+: rest) ∧
        ∃ c, t.lexeme = [c] ∧ t.kind.Classifies c) := by
  induction start, text using tokensFrom.induct with
  | case1 start =>
    rw [tokensFrom_nil] at h
    cases h
  | case2 start c rest hnumeral ih =>
    rw [tokensFrom_char start hnumeral] at h
    rcases List.mem_cons.mp h with rfl | h
    · refine ⟨[], c :: rest, rfl, rfl, ?_, ?_⟩
      · intro hkind
        exact absurd hkind (TokenKind.ofChar_ne_numeral c)
      · intro _
        exact ⟨fun n hn => longestNumeral_eq_nil hnumeral hn, c, rfl, TokenKind.classifies_ofChar c⟩
    · obtain ⟨before, after, hafter, hstart, hkinds⟩ := ih h
      refine ⟨c :: before, after, ?_, ?_, hkinds⟩
      · rw [List.cons_append, hafter]
      · rw [byteLength_cons, ← Nat.add_assoc, hstart]
  | case3 start c rest d digits hnumeral ih =>
    have hne : longestNumeral (c :: rest) ≠ [] := by simp [hnumeral]
    have hsplit := longestNumeral_append_drop (c :: rest)
    rw [tokensFrom_numeral start hne] at h
    rcases List.mem_cons.mp h with rfl | h
    · refine ⟨[], c :: rest, rfl, rfl, ?_, ?_⟩
      · intro _
        exact longestNumeral_longest hne
      · intro hkind
        exact absurd rfl hkind
    · rw [hnumeral, List.length_cons, List.drop_succ_cons] at h hsplit
      obtain ⟨before, after, hafter, hstart, hkinds⟩ := ih h
      refine ⟨d :: digits ++ before, after, ?_, ?_, hkinds⟩
      · rw [List.append_assoc, hafter, hsplit]
      · rw [byteLength_append, ← Nat.add_assoc, hstart]

/-! ## Line feeds -/

/-- A line break is the place of a line feed. -/
lemma mem_lineBreaks_iff {text : List Char} {s : Span} :
    s ∈ lineBreaks text ↔
      ∃ before after, before ++ '\n' :: after = text ∧
        s = ⟨byteLength before, byteLength before + 1⟩ := by
  obtain ⟨found, hscan, htokens⟩ := Scans.exists_tokensFrom 0 text
  constructor
  · intro h
    obtain ⟨t, ht, rfl⟩ := List.mem_map.mp h
    obtain ⟨ht, hbreak⟩ := List.mem_filter.mp ht
    have hlexeme : t.lexeme = ['\n'] := beq_iff_eq.mp hbreak
    obtain ⟨before, after, hslice, hspan⟩ := Span.slice?_eq_some_iff.mp (slice?_of_mem_tokens ht)
    rw [hlexeme] at hslice hspan
    refine ⟨before, after, ?_, hspan⟩
    rw [← hslice, List.append_assoc]
    rfl
  · rintro ⟨before, after, htext, rfl⟩
    obtain ⟨m, hm, hstart, hlexeme⟩ := hscan.exists_lineFeed htext
    refine List.mem_map.mpr ⟨m.token, List.mem_filter.mpr ⟨?_, ?_⟩, ?_⟩
    · rw [tokens, htokens]
      exact List.mem_map_of_mem hm
    · exact beq_iff_eq.mpr hlexeme
    · show Span.ofText m.start m.lexeme = _
      rw [hstart, hlexeme, Nat.zero_add]
      rfl

/-- The line breaks are where a scan fails. -/
lemma lineBreaks_eq_failures {text : List Char} {found : List Match}
    (hscan : Scans 0 text found) (htokens : tokens text = found.map Match.token) :
    lineBreaks text = (found.filter (·.kind.isNone)).map Match.span := by
  have hfilter : found.filter (Token.isLineBreak ∘ Match.token) =
      found.filter (·.kind.isNone) := by
    apply List.filter_congr
    intro m hm
    rw [Bool.eq_iff_iff, Option.isNone_iff_eq_none, hscan.kind_eq_none_iff hm]
    exact beq_iff_eq
  rw [lineBreaks, htokens, List.filter_map, hfilter, List.map_map]
  rfl

/-- The places of the line feeds do not overlap and are in order. -/
lemma pairwise_lineBreaks (text : List Char) :
    (lineBreaks text).Pairwise (fun s u => s.stop ≤ u.start) := by
  have hplaces := pairwise_placeTexts 0 ((tokensFrom 0 text).map Token.lexeme)
  rw [← place_tokensFrom, List.pairwise_map] at hplaces
  rw [lineBreaks, List.pairwise_map]
  exact hplaces.filter _

/-- Every text is divided into tokens by longest match. The tokens cover it from its start to its
end without gaps, each is the text at its span, and put together they are the text. A numeral is the
longest one at its place; where there is no numeral, a token is one character of the kind that this
character is of. A scan by longest match finds exactly these tokens, but nothing at the line feeds,
each of which is one byte. -/
theorem tokens_partition (text : List Char) :
    Tiles 0 ((tokens text).map Token.span) (byteLength text) ∧
    (∀ t ∈ tokens text, IsBoundary text t.span.start ∧ IsBoundary text t.span.stop ∧
      t.span.slice? text = some t.lexeme) ∧
    ((tokens text).map Token.lexeme).flatten = text ∧
    (∀ t ∈ tokens text, ∃ before rest, before ++ rest = text ∧ byteLength before = t.start ∧
      (t.kind = .numeral → LongestNumeral rest t.lexeme) ∧
      (t.kind ≠ .numeral → (∀ n, Numeral n → ¬n <+: rest) ∧
        ∃ c, t.lexeme = [c] ∧ t.kind.Classifies c)) ∧
    (∃ found, Scans 0 text found ∧ (∀ found', Scans 0 text found' → found = found') ∧
      tokens text = found.map Match.token ∧
      (∀ m ∈ found, m.kind = none ↔ m.lexeme = ['\n']) ∧
      lineBreaks text = (found.filter (·.kind.isNone)).map Match.span) ∧
    (∀ s, s ∈ lineBreaks text ↔ ∃ before after, before ++ '\n' :: after = text ∧
      s = ⟨byteLength before, byteLength before + 1⟩) ∧
    (lineBreaks text).Pairwise (fun s u => s.stop ≤ u.start) := by
  obtain ⟨found, hscan, htokens⟩ := Scans.exists_tokensFrom 0 text
  refine ⟨?_, ?_, flatten_tokensFrom 0 text, ?_, ?_, fun s => mem_lineBreaks_iff,
    pairwise_lineBreaks text⟩
  · have htiles := hscan.tiles
    rw [Nat.zero_add] at htiles
    rw [tokens, htokens, List.map_map]
    exact htiles
  · intro t ht
    have hslice := slice?_of_mem_tokens ht
    obtain ⟨_, _, hstart, hstop⟩ := Span.bounds_of_slice? hslice
    exact ⟨hstart, hstop, hslice⟩
  · intro t ht
    obtain ⟨before, rest, htext, hstart, hkinds⟩ := exists_rest_of_mem_tokensFrom ht
    rw [Nat.zero_add] at hstart
    exact ⟨before, rest, htext, hstart, hkinds⟩
  · exact ⟨found, hscan, fun _ h => hscan.unique h, htokens, fun _ hm => hscan.kind_eq_none_iff hm,
      lineBreaks_eq_failures hscan htokens⟩

/-- A point belongs to the numeral before it, once, and to the one after it otherwise. -/
example : (tokens "1.2.3..\n".toList).map Token.lexeme =
    ["1.2".toList, ".3".toList, ".".toList, ".".toList, "\n".toList] := by decide +kernel

end PowerRule
