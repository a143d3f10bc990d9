import PowerRule.Declaration.Grammar.IdentifierTable
import PowerRule.Declaration.Parser
import PowerRule.Text

/-!
# From source text to token trees

Names and literals are cut off the start of a text. What is read between blanks and comments is
grouped by its delimiters.
-/

namespace PowerRule.Declaration

/-! ## Names

A name starts with a letter or an underscore and goes on with letters, digits, underscores and
marks. A raw name has `r#` before it and may be spelled like a keyword; other names may not.
-/

/-- The characters that a name can start with. -/
def isIdentifierStart (c : Char) : Bool :=
  c.isAlpha || c == '_' || (127 < c.toNat && inRanges nameStartRanges c)

/-- The characters that a name can go on with. -/
def isIdentifierPart (c : Char) : Bool :=
  isIdentifierStart c || c.isDigit || (127 < c.toNat && inRanges nameMarkRanges c)

/-- What follows the name at the start of a text, if there is one. -/
def afterIdentifier : List Char → Option (List Char)
  | c :: rest => if isIdentifierStart c then some (rest.dropWhile isIdentifierPart) else none
  | [] => none

/-- Words that cannot be made raw. -/
def neverRaw : List String := ["_", "super", "self", "Self", "crate"]

/-- What follows the name at the start of a text, raw or not. -/
def afterName (text : List Char) : Option (List Char) :=
  match text with
  | 'r' :: '#' :: rest =>
    match afterIdentifier rest with
    | some after =>
      let word := rest.take (rest.length - after.length)
      if String.ofList word ∈ neverRaw then none else some after
    | none => none
  | _ => afterIdentifier text

/-- The keywords that a path may start with. -/
def pathKeywords : List String := ["self", "Self", "super", "crate"]

/-- The word can start a path: a name, or one of the keywords for a place. -/
def startsPath (word : List Char) : Bool :=
  !isKeyword word || pathKeywords.contains (String.ofList word)

/-- The words for a place, which have no generic arguments in a path. -/
def placeWords : List String := ["super", "self", "crate", "try"]

/-- The word is a word for a place. -/
def isPlace (word : List Char) : Bool := placeWords.contains (String.ofList word)

/-! ## Literals

Each function here takes the text at a place and returns what follows a literal of its kind there,
if there is one: strings and characters with escapes, raw strings, whole numbers in four bases,
and numbers with a point or an exponent. A name directly after a literal is a suffix and belongs
to it.
-/

/-- The value of a hexadecimal digit. -/
def hexValue? (c : Char) : Option Nat :=
  if c.isDigit then some (c.toNat - '0'.toNat)
  else if 'a' ≤ c ∧ c ≤ 'f' then some (c.toNat - 'a'.toNat + 10)
  else if 'A' ≤ c ∧ c ≤ 'F' then some (c.toNat - 'A'.toNat + 10)
  else none

/-- The numbers that are the code of a character. -/
def isScalarValue (n : Nat) : Bool := n < 0xD800 || (0xDFFF < n && n < 0x110000)

/-- What a literal is made of: any characters, bytes, or any characters but the null character. -/
inductive Alphabet where
  | characters
  | bytes
  | nonNull
deriving DecidableEq, Repr

/-- The character can stand for itself. -/
def Alphabet.contains : Alphabet → Char → Bool
  | characters, _ => true
  | bytes, c => c.toNat < 128
  | nonNull, c => c != '\x00'

/-- The number can be given by two hexadecimal digits. -/
def Alphabet.containsByte : Alphabet → Nat → Bool
  | characters, n => n < 128
  | bytes, _ => true
  | nonNull, n => n != 0

/-- The number can be given as the code of a character. -/
def Alphabet.containsCode : Alphabet → Nat → Bool
  | characters, n => isScalarValue n
  | bytes, _ => false
  | nonNull, n => isScalarValue n && n != 0

/-- Reads the digits of a code up to the closing brace, at most six, underscores aside. -/
def afterCode (alphabet : Alphabet) (value digits : Nat) : List Char → Option (List Char)
  | [] => none
  | c :: rest =>
    if c = '\x7d' then
      if 0 < digits ∧ alphabet.containsCode value then some rest else none
    else if c = '_' ∧ 0 < digits then afterCode alphabet value digits rest
    else
      match hexValue? c with
      | some d =>
        if digits < 6 then afterCode alphabet (16 * value + d) (digits + 1) rest else none
      | none => none

/-- Reads an escape after its backslash, not counting line ends. -/
def afterEscape (alphabet : Alphabet) : List Char → Option (List Char)
  | 'x' :: high :: low :: rest =>
    match hexValue? high, hexValue? low with
    | some h, some l => if alphabet.containsByte (16 * h + l) then some rest else none
    | _, _ => none
  | 'u' :: '\x7b' :: rest => afterCode alphabet 0 0 rest
  | '0' :: rest => if alphabet = .nonNull then none else some rest
  | c :: rest => if c ∈ ['n', 'r', 't', '\\', '\'', '"'] then some rest else none
  | [] => none

/-- A line end may be a line feed alone or after a carriage return, but no lone carriage return. -/
def isLoneReturn : List Char → Bool
  | '\r' :: '\n' :: _ => false
  | '\r' :: _ => true
  | _ => false

/-- Reads a string after its opening quote. -/
def afterString (alphabet : Alphabet) : List Char → Option (List Char)
  | '"' :: rest => some rest
  | '\\' :: c :: rest =>
    let isLineEnd := c = '\n' ∨ c = '\r' ∧ ¬ isLoneReturn (c :: rest)
    if isLineEnd ∨ (afterEscape alphabet (c :: rest)).isSome then afterString alphabet rest
    else none
  | c :: rest =>
    if c = '\\' ∨ isLoneReturn (c :: rest) ∨ ¬ alphabet.contains c then none
    else afterString alphabet rest
  | [] => none

/-- Reads a raw string after its opening quote; it ends at a quote with this many hashes. -/
def afterRawString (alphabet : Alphabet) (hashes : Nat) : List Char → Option (List Char)
  | [] => none
  | c :: rest =>
    if c = '"' ∧ rest.take hashes = List.replicate hashes '#' then some (rest.drop hashes)
    else if isLoneReturn (c :: rest) ∨ ¬ alphabet.contains c then none
    else afterRawString alphabet hashes rest

/-- Reads the hashes and the quote of a raw string, and the string. -/
def afterRawStart (alphabet : Alphabet) (text : List Char) : Option (List Char) :=
  let hashes := (text.takeWhile (· == '#')).length
  match text.drop hashes with
  | '"' :: rest => if hashes ≤ 255 then afterRawString alphabet hashes rest else none
  | _ => none

/-- Reads a character literal after its opening quote. -/
def afterCharacter (alphabet : Alphabet) (text : List Char) : Option (List Char) :=
  let body := match text with
    | '\\' :: rest => afterEscape alphabet rest
    | c :: rest => if alphabet.contains c then some rest else none
    | [] => none
  match body with
  | some ('\'' :: rest) => some rest
  | _ => none

/-- Digits and the underscores between them. -/
def isDigitOrBlank (c : Char) : Bool := c.isDigit || c == '_'

/-- Reads an exponent after its mark. -/
def afterExponent (text : List Char) : Option (List Char) :=
  let unsigned := match text.dropWhile (· == '_') with
    | '+' :: rest => rest
    | '-' :: rest => rest
    | rest => rest
  if (unsigned.takeWhile isDigitOrBlank).any Char.isDigit then
    some (unsigned.dropWhile isDigitOrBlank)
  else none

/-- Reads a fraction after the point, and an exponent. -/
def afterFraction (text : List Char) : List Char :=
  let rest := text.dropWhile isDigitOrBlank
  match rest with
  | c :: more => if c = 'e' ∨ c = 'E' then (afterExponent more).getD rest else rest
  | [] => rest

/-- A point is not part of a number if a name or another point follows it. -/
def isPointApart : List Char → Bool
  | c :: _ => c == '.' || isIdentifierStart c
  | [] => false

/-- Reads a number with a point or an exponent. -/
def afterFloat : List Char → Option (List Char)
  | c :: more =>
    if c.isDigit then
      match more.dropWhile isDigitOrBlank with
      | '.' :: rest => if isPointApart rest then none else some (afterFraction rest)
      | e :: rest => if e = 'e' ∨ e = 'E' then afterExponent rest else none
      | [] => none
    else none
  | [] => none

/-- Reads digits of a base below ten; a digit that is too large spoils them. -/
def afterDigitsBelow (base : Nat) (text : List Char) : Option (List Char) :=
  let digits := text.takeWhile isDigitOrBlank
  if digits.any Char.isDigit && digits.all (fun c => c == '_' || c.toNat < '0'.toNat + base) then
    some (text.dropWhile isDigitOrBlank)
  else none

/-- Reads a whole number. -/
def afterInteger : List Char → Option (List Char)
  | '0' :: 'x' :: rest =>
    let digits := rest.takeWhile fun c => c == '_' || (hexValue? c).isSome
    if digits.any (· != '_') then some (rest.drop digits.length) else none
  | '0' :: 'o' :: rest => afterDigitsBelow 8 rest
  | '0' :: 'b' :: rest => afterDigitsBelow 2 rest
  | c :: rest => if c.isDigit then some (rest.dropWhile isDigitOrBlank) else none
  | [] => none

/-- Leaves out the suffix of a literal. -/
def afterSuffix (text : List Char) : List Char := (afterIdentifier text).getD text

/-- Leaves out the suffix of a number, which has to end there. -/
def afterNumberSuffix (text : List Char) : Option (List Char) :=
  let rest := afterSuffix text
  match rest with
  | c :: _ => if isIdentifierPart c then none else some rest
  | [] => some rest

/-- Reads a number. -/
def afterNumber (text : List Char) : Option (List Char) :=
  ((afterFloat text).bind afterNumberSuffix).or ((afterInteger text).bind afterNumberSuffix)

/-- The literal that stands for what could not be generated. It is one tree, as it is written. -/
def errorMark : List Char := "(/*ERROR*/)".toList

/-- Reads a literal of any kind. -/
def afterLiteral (text : List Char) : Option (List Char) :=
  if errorMark.isPrefixOf text then some (text.drop errorMark.length)
  else
    match text with
    | '"' :: rest => (afterString .characters rest).map afterSuffix
    | '\'' :: rest => (afterCharacter .characters rest).map afterSuffix
    | 'b' :: '"' :: rest => (afterString .bytes rest).map afterSuffix
    | 'b' :: '\'' :: rest => (afterCharacter .bytes rest).map afterSuffix
    | 'c' :: '"' :: rest => (afterString .nonNull rest).map afterSuffix
    | 'r' :: rest => (afterRawStart .characters rest).map afterSuffix
    | 'b' :: 'r' :: rest => (afterRawStart .bytes rest).map afterSuffix
    | 'c' :: 'r' :: rest => (afterRawStart .nonNull rest).map afterSuffix
    | _ => afterNumber text

/-! ## Quoted texts

A text between double quotes, with escapes for the quote, the backslash and what is not printed.
Apostrophes and characters beyond ASCII stand for themselves.
-/

/-- The escape of a character, given what follows it: a null character before an octal digit is
written with two digits, so that the next one is not taken for part of it. -/
def escaped (c : Char) (rest : List Char) : List Char :=
  if c = '\x00' then
    match rest with
    | d :: _ => if '0' ≤ d ∧ d ≤ '7' then "\\x00".toList else "\\0".toList
    | [] => "\\0".toList
  else if c = '\t' then "\\t".toList
  else if c = '\n' then "\\n".toList
  else if c = '\r' then "\\r".toList
  else if c = '"' ∨ c = '\\' then ['\\', c]
  else if c.toNat < 32 ∨ 127 ≤ c.toNat ∧ c.toNat < 160 then
    "\\u".toList ++ '\x7b' :: Nat.toDigits 16 c.toNat ++ ['\x7d']
  else [c]

/-- The characters of a text with their escapes. -/
def escapedText : List Char → List Char
  | [] => []
  | c :: rest => escaped c rest ++ escapedText rest

/-- A text as a string literal. -/
def quoted (text : List Char) : List Char := '"' :: escapedText text ++ ['"']

/-! ## From source text to token trees

Blanks and comments separate trees and are left out. A documentation comment stands for the
attribute `doc`. Trees are refused if a delimiter or a literal is not closed.
-/

/-- A piece of source: a tree without delimiters, or one delimiter. -/
inductive Lexeme where
  | leaf (tree : Tree)
  | opening (delimiter : Delimiter)
  | closing (delimiter : Delimiter)
deriving Repr

/-- The characters that are punctuation. -/
def punctuation : List Char := "~!@#$%^&*-=+|;:,<.>/?'".toList

/-- A text that starts a comment. -/
def startsComment : List Char → Bool
  | '/' :: '/' :: _ => true
  | '/' :: '*' :: _ => true
  | _ => false

/-- A text that starts with a punctuation character. The slash of a comment is none. -/
def startsPunct (text : List Char) : Bool :=
  match text with
  | c :: _ => punctuation.contains c && !startsComment text
  | [] => false

/-- Reads a block comment after its opening, at the given depth of nesting. -/
def afterBlockComment (depth : Nat) : List Char → Option (List Char)
  | '/' :: '*' :: rest => afterBlockComment (depth + 1) rest
  | '*' :: '/' :: rest =>
    match depth with
    | 0 => some rest
    | depth + 1 => afterBlockComment depth rest
  | _ :: rest => afterBlockComment depth rest
  | [] => none

/-- What follows the line; the line feed is left. -/
def afterLine (text : List Char) : List Char := text.dropWhile (· != '\n')

/-- What lies between a place in a text and a later one, given as the rests of the text. -/
def upTo (text rest : List Char) : List Char := text.take (text.length - rest.length)

/-- A comment that is not documentation, and what follows it. -/
def afterComment : List Char → Option (List Char)
  | '/' :: '/' :: '/' :: '/' :: rest => some (afterLine rest)
  | '/' :: '/' :: '/' :: _ => none
  | '/' :: '/' :: '!' :: _ => none
  | '/' :: '/' :: rest => some (afterLine rest)
  | '/' :: '*' :: '*' :: '/' :: rest => some rest
  | '/' :: '*' :: '*' :: '*' :: rest => afterBlockComment 0 ('*' :: '*' :: rest)
  | '/' :: '*' :: '*' :: _ => none
  | '/' :: '*' :: '!' :: _ => none
  | '/' :: '*' :: rest => afterBlockComment 0 rest
  | _ => none

/-- A documentation comment: what it says, and whether it is on what encloses it. -/
structure Documentation where
  enclosing : Bool
  content : List Char

/-- The line at the start of a text, without its end. -/
def lineContent (text : List Char) : List Char :=
  let line := text.takeWhile (· != '\n')
  if line.length < text.length ∧ line.getLast? = some '\r' then line.dropLast else line

/-- The documentation comment at the start of a text, and what follows it. -/
def documentation? (text : List Char) : Option (Documentation × List Char) :=
  let block (enclosing : Bool) (rest : List Char) : Option (Documentation × List Char) :=
    (afterBlockComment 0 rest).map fun after =>
      (⟨enclosing, (upTo rest after).dropLast.dropLast⟩, after)
  match text with
  | '/' :: '/' :: '/' :: rest => some (⟨false, lineContent rest⟩, afterLine rest)
  | '/' :: '/' :: '!' :: rest => some (⟨true, lineContent rest⟩, afterLine rest)
  | '/' :: '*' :: '*' :: rest => block false rest
  | '/' :: '*' :: '!' :: rest => block true rest
  | _ => none

/-- Every carriage return is part of a line end. -/
def hasNoLoneReturn : List Char → Bool
  | [] => true
  | c :: rest => !isLoneReturn (c :: rest) && hasNoLoneReturn rest

/-- The attribute that a documentation comment stands for. -/
def Documentation.lexemes (d : Documentation) : List Lexeme :=
  let mark := if d.enclosing then [.leaf (.punct '!' false)] else []
  .leaf (.punct '#' false) :: mark ++
    [.opening .bracket, .leaf (.name "doc".toList), .leaf (.punct '=' false),
      .leaf (.literal (quoted d.content)), .closing .bracket]

/-- The lexemes of a comment, and what follows it. Only documentation has any, and it is refused if
it holds a carriage return alone. -/
def commentLexemes? (text : List Char) : Option (List Lexeme × List Char) :=
  match afterComment text with
  | some rest => some ([], rest)
  | none =>
    match documentation? text with
    | some (d, rest) => if hasNoLoneReturn d.content then some (d.lexemes, rest) else none
    | none => none

/-- The delimiter at the start of a text. The parenthesis of the error mark is none. -/
def delimiterLexeme? (text : List Char) : Option Lexeme :=
  match text with
  | '(' :: _ => if errorMark.isPrefixOf text then none else some (.opening .parenthesis)
  | ')' :: _ => some (.closing .parenthesis)
  | '[' :: _ => some (.opening .bracket)
  | ']' :: _ => some (.closing .bracket)
  | '\x7b' :: _ => some (.opening .brace)
  | '\x7d' :: _ => some (.closing .brace)
  | _ => none

/-- A quote starts a lifetime, which is a name that no other quote follows. -/
def isLifetime (rest : List Char) : Bool :=
  match afterName rest with
  | none => false
  | some ('\'' :: _) => false
  | some ('#' :: _) =>
    match rest with
    | 'r' :: '#' :: _ => true
    | _ => false
  | some _ => true

/-- The punctuation character at the start of a text, and what follows it. -/
def punctLexeme? (text : List Char) : Option (Lexeme × List Char) :=
  match text with
  | [] => none
  | c :: rest =>
    if !startsPunct text then none
    else if c = '\'' then
      if isLifetime rest then some (.leaf (.punct c true), rest) else none
    else some (.leaf (.punct c (startsPunct rest)), rest)

/-- A text that looks like the start of a literal and therefore cannot start a name. -/
def startsQuoted : List Char → Bool
  | 'r' :: '"' :: _ => true
  | 'r' :: '#' :: '"' :: _ => true
  | 'r' :: '#' :: '#' :: _ => true
  | 'b' :: '"' :: _ => true
  | 'b' :: '\'' :: _ => true
  | 'b' :: 'r' :: '"' :: _ => true
  | 'b' :: 'r' :: '#' :: _ => true
  | 'c' :: '"' :: _ => true
  | 'c' :: 'r' :: '"' :: _ => true
  | 'c' :: 'r' :: '#' :: _ => true
  | _ => false

/-- The literal, punctuation character or name at the start of a text, and what follows it. -/
def leafLexeme? (text : List Char) : Option (Lexeme × List Char) :=
  match afterLiteral text with
  | some rest => some (.leaf (.literal (upTo text rest)), rest)
  | none =>
    match punctLexeme? text with
    | some found => some found
    | none =>
      if startsQuoted text then none
      else (afterName text).map fun rest => (.leaf (.name (upTo text rest)), rest)

/-- Blanks of source text: white space and the two marks of writing direction. -/
def isSourceBlank (c : Char) : Bool :=
  isBlank c || c == '\u200e' || c == '\u200f'

/-- The lexemes at the start of a text, none for a blank or a comment, and what follows them. -/
def nextLexemes? (text : List Char) : Option (List Lexeme × List Char) :=
  match text with
  | [] => none
  | c :: rest =>
    if isSourceBlank c then some ([], rest)
    else if startsComment text then commentLexemes? text
    else
      match delimiterLexeme? text with
      | some lexeme => some ([lexeme], rest)
      | none => (leafLexeme? text).map fun (lexeme, rest) => ([lexeme], rest)

/-- The lexemes of a text; `none` where there is none to be read. -/
def lexemes? (text : List Char) : Option (List Lexeme) :=
  if text.isEmpty then some []
  else
    match nextLexemes? text with
    | none => none
    | some (found, rest) =>
      if _h : rest.length < text.length then (lexemes? rest).map (found ++ ·) else none
termination_by text.length

/-- Groups lexemes into trees. `before` holds the trees read in the current group and `outer` those
of the groups around it, each in reverse and with its delimiter. -/
def group? (before : List Tree) (outer : List (Delimiter × List Tree)) :
    List Lexeme → Option (List Tree)
  | [] => if outer.isEmpty then some before.reverse else none
  | .leaf t :: rest => group? (t :: before) outer rest
  | .opening d :: rest => group? [] ((d, before) :: outer) rest
  | .closing d :: rest =>
    match outer with
    | [] => none
    | (opened, around) :: outer =>
      if d = opened then group? (.group d before.reverse :: around) outer rest else none

/-- A byte order mark at the start of a source is left out. -/
def withoutMark : List Char → List Char
  | '\ufeff' :: rest => rest
  | text => text

/-- The token trees of a source text, if it has them. -/
def Tree.ofSource? (source : List Char) : Option (List Tree) :=
  (lexemes? (withoutMark source)).bind (group? [] [])

end PowerRule.Declaration
