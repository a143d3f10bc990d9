import Mathlib.Tactic.Lemma
import PowerRule.Proofs.Pieces
import PowerRule.Proofs.Reading

/-!
# Tokens and byte offsets

The tokens of an expression lie one after the other and cover it. So it can be read with places in
place of characters, and no slice at these places fails.
-/

namespace PowerRule

/-! ## Tokens cover the text

Every character belongs to a token: the lexemes in order are the text (`flatten_tokensFrom`), none
is empty, and each starts where the one before it ends (`place_tokensFrom`).
-/

/-- The lexeme at its place. -/
def Token.place (t : Token) : RawTerm := ⟨t.start, t.lexeme⟩

/-- The lexemes in order are the text. -/
theorem flatten_tokensFrom (start : Nat) (text : List Char) :
    ((tokensFrom start text).map Token.lexeme).flatten = text := by
  induction start, text using tokensFrom.induct with
  | case1 start => rw [tokensFrom_nil]; rfl
  | case2 start c rest hnumeral ih =>
    rw [tokensFrom_char start hnumeral, List.map_cons, List.flatten_cons, ih]
    rfl
  | case3 start c rest d digits hnumeral ih =>
    have hsplit := longestNumeral_append_drop (c :: rest)
    rw [tokensFrom_numeral start (by simp [hnumeral]), List.map_cons, List.flatten_cons]
    rw [hnumeral, List.length_cons, List.drop_succ_cons] at hsplit ⊢
    rw [ih, hsplit]

/-- No lexeme is empty. -/
lemma lexeme_ne_nil {start : Nat} {text : List Char} {t : Token} (h : t ∈ tokensFrom start text) :
    t.lexeme ≠ [] := by
  induction start, text using tokensFrom.induct with
  | case1 start => simp at h
  | case2 start c rest hnumeral ih =>
    rw [tokensFrom_char start hnumeral] at h
    rcases List.mem_cons.mp h with rfl | h
    · exact List.cons_ne_nil _ _
    · exact ih h
  | case3 start c rest d digits hnumeral ih =>
    have hne : longestNumeral (c :: rest) ≠ [] := by simp [hnumeral]
    rw [tokensFrom_numeral start hne] at h
    rcases List.mem_cons.mp h with rfl | h
    · exact hne
    · rw [hnumeral, List.length_cons, List.drop_succ_cons] at h
      exact ih h

/-- Each token starts where the one before it ends. -/
lemma place_tokensFrom (start : Nat) (text : List Char) :
    (tokensFrom start text).map Token.place =
      placeTexts start ((tokensFrom start text).map Token.lexeme) := by
  induction start, text using tokensFrom.induct with
  | case1 start => rw [tokensFrom_nil]; rfl
  | case2 start c rest hnumeral ih =>
    rw [tokensFrom_char start hnumeral, List.map_cons, List.map_cons, placeTexts, byteLength_cons,
      byteLength_nil, Nat.add_zero, ih]
    rfl
  | case3 start c rest d digits hnumeral ih =>
    rw [tokensFrom_numeral start (by simp [hnumeral]), List.map_cons, List.map_cons, placeTexts]
    rw [hnumeral, List.length_cons, List.drop_succ_cons, ih]
    rfl

/-- Each lexeme is the text at its span. -/
theorem slice?_of_mem_tokens {text : List Char} {t : Token} (h : t ∈ tokens text) :
    t.span.slice? text = some t.lexeme := by
  have hplace : t.place ∈ (tokensFrom 0 text).map Token.place := List.mem_map_of_mem h
  rw [place_tokensFrom] at hplace
  obtain ⟨before, after, hflatten, hstart⟩ := exists_of_mem_placeTexts hplace
  rw [flatten_tokensFrom] at hflatten
  refine Span.slice?_eq_some_iff.mpr ⟨before, after, hflatten, ?_⟩
  have hstart : t.start = 0 + byteLength before := hstart
  rw [Token.span, hstart, Nat.zero_add]

/-! ## Reading by byte offsets

An expression can also be read with places instead of characters: the loop over the tokens remembers
where the term began, and each text that is needed is sliced out of the expression, the term or its
body. Here every slice may fail. None does, and what is read is the same (`sliceTerms?_eq`,
`readSlices?_eq`, `deriveSlices?_eq`).
-/

/-! ### Bodies -/

namespace RawTerm

/-- How many bytes the written sign takes. -/
def signLength (t : RawTerm) : Nat :=
  match t.text with
  | '+' :: _ => 1
  | '-' :: _ => 1
  | _ => 0

/-- The body, sliced out of the term. -/
def sliceBody? (t : RawTerm) : Option (List Char) :=
  Span.slice? ⟨t.signLength, byteLength t.text⟩ t.text

/-- The body is what follows the bytes of the sign. -/
lemma exists_sign (t : RawTerm) :
    ∃ sign, t.text = sign ++ t.body ∧ byteLength sign = t.signLength ∧
      t.bodyStart = t.start + t.signLength := by
  obtain ⟨start, text⟩ := t
  rcases text with _ | ⟨c, rest⟩
  · exact ⟨[], rfl, rfl, rfl⟩
  by_cases hplus : c = '+'
  · subst hplus
    exact ⟨['+'], rfl, rfl, congrArg (start + ·) (Nat.add_sub_cancel_left rest.length 1)⟩
  by_cases hminus : c = '-'
  · subst hminus
    exact ⟨['-'], rfl, rfl, congrArg (start + ·) (Nat.add_sub_cancel_left rest.length 1)⟩
  have hbody : body ⟨start, c :: rest⟩ = c :: rest := by simp [body, hplus, hminus]
  have hlength : signLength ⟨start, c :: rest⟩ = 0 := by simp [signLength, hplus, hminus]
  rw [bodyStart, hbody, hlength]
  exact ⟨[], rfl, rfl, congrArg (start + ·) (Nat.sub_self _)⟩

/-- The slice at the place of a body is the body. -/
lemma sliceBody?_eq (t : RawTerm) : t.sliceBody? = some t.body := by
  obtain ⟨sign, htext, hlength, _⟩ := t.exists_sign
  refine Span.slice?_eq_some_iff.mpr ⟨sign, [], by rw [List.append_nil, ← htext], ?_⟩
  rw [Span.ofText, hlength, htext, byteLength_append, hlength]

end RawTerm

/-! ### Terms -/

/-- The terms from a place on, after those that were found: the term that began at `start` is sliced
out before the next sign that cuts, or at the end. -/
def sliceTerms? (expression : List Char) (found : List RawTerm) (start : Nat)
    (previous : Option TokenKind) : List Token → Option (List RawTerm)
  | [] => do
    let text ← Span.slice? ⟨start, byteLength expression⟩ expression
    let body ← RawTerm.sliceBody? ⟨start, text⟩
    return if found.isEmpty || !body.isEmpty then found ++ [⟨start, text⟩] else found
  | t :: rest =>
    if t.kind.isSign && decide (start < t.start) && !(previous == some .caret) then do
      let text ← Span.slice? ⟨start, t.start⟩ expression
      sliceTerms? expression (found ++ [⟨start, text⟩]) t.start (some t.kind) rest
    else sliceTerms? expression found start (some t.kind) rest

/-- Tokens are cut before a sign that follows something else than a caret. -/
lemma cutTokens_cut {started afterCaret : Bool} {t : Token}
    (h : (t.kind.isSign && started && !afterCaret) = true) (rest : List Token) :
    cutTokens started afterCaret (t :: rest) =
      ([],
        ⟨t.start, t.lexeme ++ (cutTokens true false rest).1⟩ :: (cutTokens true false rest).2) := by
  rw [cutTokens, if_pos h]

/-- They are not cut before other tokens. -/
lemma cutTokens_keep {started afterCaret : Bool} {t : Token}
    (h : (t.kind.isSign && started && !afterCaret) = false) (rest : List Token) :
    cutTokens started afterCaret (t :: rest) =
      (t.lexeme ++ (cutTokens true (t.kind == .caret) rest).1,
        (cutTokens true (t.kind == .caret) rest).2) := by
  rw [cutTokens, if_neg (by simp [h])]

/-- A sign is no caret. -/
lemma TokenKind.ne_caret_of_isSign {kind : TokenKind} (h : kind.isSign = true) :
    (some kind == some TokenKind.caret) = false := by
  cases kind with
  | caret => cases h
  | plus => rfl
  | minus => rfl
  | numeral => rfl
  | letter => rfl
  | symbol => rfl

/-- Offsets tell whether anything was read in between. -/
lemma decide_byteLength_lt_append (before current : List Char) :
    decide (byteLength before < byteLength (before ++ current)) = !current.isEmpty := by
  rw [byteLength_append]
  cases current with
  | nil => simp
  | cons c current =>
    have hpos := c.utf8Size_pos
    have hlt : byteLength before < byteLength before + byteLength (c :: current) := by
      rw [byteLength_cons]
      omega
    exact decide_eq_true hlt

/-- The loop finds the terms of the cut. What was read of the expression is `before`, up to where
the term began, and `current`, of the term. -/
lemma sliceTerms?_of_placed {expression : List Char} {ts : List Token}
    (before current : List Char)
    (hplace : ts.map Token.place =
      placeTexts (byteLength (before ++ current)) (ts.map Token.lexeme))
    (hlexemes : ∀ t ∈ ts, t.lexeme ≠ [])
    (hexpression : before ++ current ++ (ts.map Token.lexeme).flatten = expression)
    (found : List RawTerm) (previous : Option TokenKind) :
    sliceTerms? expression found (byteLength before) previous ts =
      some (dropLoneSign (found ++
        ⟨byteLength before,
          current ++ (cutTokens (!current.isEmpty) (previous == some .caret) ts).1⟩ ::
          (cutTokens (!current.isEmpty) (previous == some .caret) ts).2)) := by
  induction ts generalizing before current found previous with
  | nil =>
    have hlength : byteLength expression = byteLength before + byteLength current := by
      rw [← hexpression]
      simp
    have hslice : Span.slice? ⟨byteLength before, byteLength expression⟩ expression =
        some current := by
      refine Span.slice?_eq_some_iff.mpr ⟨before, [], hexpression, ?_⟩
      rw [hlength]
      rfl
    rw [sliceTerms?, hslice, Option.bind_eq_bind, Option.bind_some, RawTerm.sliceBody?_eq,
      Option.bind_some, cutTokens, List.append_nil]
    cases found with
    | nil => rfl
    | cons t rest =>
      rw [dropLoneSign_append_singleton (List.cons_ne_nil _ _)]
      cases hbody : (RawTerm.body ⟨byteLength before, current⟩).isEmpty with
      | true => rfl
      | false => rfl
  | cons t rest ih =>
    obtain ⟨hhead, hrest⟩ := List.cons.inj hplace
    have hstart : t.start = byteLength (before ++ current) := congrArg RawTerm.start hhead
    have hlexeme : t.lexeme ≠ [] := hlexemes t List.mem_cons_self
    have hlexemes : ∀ u ∈ rest, u.lexeme ≠ [] :=
      fun u hu => hlexemes u (List.mem_cons_of_mem _ hu)
    rw [sliceTerms?, hstart, decide_byteLength_lt_append]
    rw [List.map_cons, List.flatten_cons] at hexpression
    cases hcut : t.kind.isSign && !current.isEmpty && !(previous == some .caret) with
    | true =>
      -- The next term begins with this token, which is a sign and no caret.
      have hslice : Span.slice? ⟨byteLength before, byteLength (before ++ current)⟩ expression =
          some current := by
        refine Span.slice?_eq_some_iff.mpr ⟨before, _, hexpression, ?_⟩
        rw [byteLength_append]
        rfl
      have hcaret : (some t.kind == some TokenKind.caret) = false := by
        simp only [Bool.and_eq_true] at hcut
        exact TokenKind.ne_caret_of_isSign hcut.1.1
      have hnext := ih (before ++ current) t.lexeme
        (by rw [hrest, byteLength_append (before ++ current)])
        hlexemes (by rw [← hexpression, List.append_assoc _ t.lexeme])
        (found ++ [⟨byteLength before, current⟩]) (some t.kind)
      have hnonempty : (!t.lexeme.isEmpty) = true := by simpa using hlexeme
      rw [if_pos rfl, hslice, Option.bind_eq_bind, Option.bind_some, cutTokens_cut hcut, hstart,
        hnext, hnonempty, hcaret, List.append_nil, List.append_assoc]
      rfl
    | false =>
      have hnext := ih before (current ++ t.lexeme)
        (by rw [hrest, ← List.append_assoc, byteLength_append (before ++ current)])
        hlexemes (by rw [← hexpression]; simp) found (some t.kind)
      have hnonempty : (!(current ++ t.lexeme).isEmpty) = true := by simp [hlexeme]
      have hkind : (some t.kind == some TokenKind.caret) = (t.kind == .caret) := rfl
      rw [if_neg Bool.false_ne_true, hnext, hnonempty, hkind, cutTokens_keep hcut,
        List.append_assoc]

/-- The terms of an expression are found without a slice that fails. -/
theorem sliceTerms?_eq (expression : List Char) :
    sliceTerms? expression [] 0 none (tokens expression) = some (splitTerms expression) :=
  sliceTerms?_of_placed [] [] (place_tokensFrom 0 expression) (fun _ ht => lexeme_ne_nil ht)
    (flatten_tokensFrom 0 expression) [] none

/-! ### Reading -/

/-- The byte at which a character first stands. -/
def firstByte? (var : Char) : List Char → Option Nat
  | [] => none
  | c :: rest => if c = var then some 0 else (firstByte? var rest).map (c.utf8Size + ·)

/-- Without the variable there is no byte where it starts. -/
lemma firstByte?_of_notMem {var : Char} {text : List Char} (h : var ∉ text) :
    firstByte? var text = none := by
  induction text with
  | nil => rfl
  | cons c rest ih =>
    rw [List.mem_cons, not_or] at h
    rw [firstByte?, if_neg (Ne.symm h.1), ih h.2]
    rfl

/-- The variable starts after the bytes before it. -/
lemma firstByte?_append {var : Char} {leading : List Char} (h : var ∉ leading)
    (trailing : List Char) :
    firstByte? var (leading ++ var :: trailing) = some (byteLength leading) := by
  induction leading with
  | nil => rw [List.nil_append, firstByte?, if_pos rfl]; rfl
  | cons c rest ih =>
    rw [List.mem_cons, not_or] at h
    rw [List.cons_append, firstByte?, if_neg (Ne.symm h.1), ih h.2]
    rfl

/-- Reads a term, with its body sliced at the first byte of the variable and the byte after it. -/
def readSlices? (var : Char) (raw : RawTerm) : Option (Except Error Term) := do
  let body ← raw.sliceBody?
  let start := raw.start + raw.signLength
  if body.isEmpty then
    return .error ⟨.emptyTerm, [raw.span]⟩
  else
    match firstByte? var body with
    | none => return (readCoefficient start body).map (Term.constant raw.sign)
    | some index =>
      let leading ← Span.slice? ⟨0, index⟩ body
      let trailing ← Span.slice? ⟨index + var.utf8Size, byteLength body⟩ body
      return do
        let coefficient ← readLeading start leading
        let exponent ← readExponent (start + index + var.utf8Size) trailing
        return .power raw.sign coefficient exponent

/-- A term is read without a slice that fails. -/
theorem readSlices?_eq (var : Char) (raw : RawTerm) :
    readSlices? var raw = some (readTerm var raw) := by
  obtain ⟨_, _, _, hstart⟩ := raw.exists_sign
  rw [readSlices?, raw.sliceBody?_eq, Option.bind_eq_bind, Option.bind_some, ← hstart]
  dsimp only
  by_cases hne : raw.body = []
  · rw [readTerm_of_nil hne, if_pos (List.isEmpty_iff.mpr hne)]
    rfl
  rw [if_neg (by simpa using hne)]
  rcases notMem_or_divided var raw.body with hnot | ⟨leading, trailing, hbody, hnot⟩
  · rw [readTerm_eq_constant hne hnot, firstByte?_of_notMem hnot]
    rfl
  · have hleading : Span.slice? ⟨0, byteLength leading⟩ raw.body = some leading := by
      refine Span.slice?_eq_some_iff.mpr ⟨[], var :: trailing, hbody.symm, ?_⟩
      rw [Span.ofText, byteLength_nil, Nat.zero_add]
    have htrailing : Span.slice? ⟨byteLength leading + var.utf8Size, byteLength raw.body⟩
        raw.body = some trailing := by
      refine Span.slice?_eq_some_iff.mpr ⟨leading ++ [var], [], by simp [hbody], ?_⟩
      rw [Span.ofText, hbody]
      simp [Nat.add_assoc]
    have hindex : firstByte? var raw.body = some (byteLength leading) := by
      rw [hbody]
      exact firstByte?_append hnot trailing
    rw [readTerm_eq_power hbody hnot, hindex]
    dsimp only
    rw [hleading, htrailing]
    rfl

/-- Reads the terms in order, up to the first that cannot be read. -/
def readAllSlices? (var : Char) :
    List RawTerm → Option (Except Error (List (RawTerm × Term)))
  | [] => some (.ok [])
  | raw :: rest => do
    match ← readSlices? var raw with
    | .error e => return .error e
    | .ok t => return (← readAllSlices? var rest).map ((raw, t) :: ·)

/-- All terms are read from slices as they are from texts. -/
lemma readAllSlices?_eq (var : Char) (raws : List RawTerm) :
    readAllSlices? var raws = some (readAll var raws) := by
  induction raws with
  | nil => rfl
  | cons raw rest ih =>
    rw [readAllSlices?, readSlices?_eq, Option.bind_eq_bind, Option.bind_some]
    cases ht : readTerm var raw with
    | error e =>
      rw [readAll_cons_of_error ht]
      rfl
    | ok t =>
      rw [readAll_cons_of_ok ht]
      dsimp only
      rw [ih]
      rfl

/-- The derivative of an expression that is read by byte offsets. -/
def deriveSlices? (var : Char) (expression : List Char) : Option Derivation := do
  let raws ← sliceTerms? expression [] 0 none (tokens expression)
  match ← readAllSlices? var raws with
  | .error e => return ⟨[], .error e⟩
  | .ok terms => return deriveTerms terms

/-- No slice fails on the way to a derivative. -/
theorem deriveSlices?_eq (var : Char) (expression : List Char) :
    deriveSlices? var expression = some (derive var expression) := by
  have hread : readTerms var expression = readAll var (splitTerms expression) := rfl
  rw [deriveSlices?, sliceTerms?_eq, Option.bind_eq_bind, Option.bind_some, readAllSlices?_eq,
    Option.bind_eq_bind, Option.bind_some, derive, hread]
  cases readAll var (splitTerms expression) with
  | error e => rfl
  | ok terms => rfl

end PowerRule
