import PowerRule.Declaration.Grammar.Lexeme
import PowerRule.Declaration.Parser

/-!
# The symbols of the grammar

What can be wrong with a source, what a number after a point selects, and the symbols that stand for
what is to come next.
-/

namespace PowerRule.Declaration

/-! ## Problems with a source

What can be wrong with the grammar of a source, and how it is said. What is expected where the
source, or the group that is being read, ends is said to be missing at the end; an operator is
simply expected.
-/

/-- What has to come next. -/
inductive Expected where
  | structKeyword
  | identifier
  | pathSegment
  | brackets
  | parentheses
  | braces
  | delimiter
  /-- The punctuation characters of one operator. -/
  | operator (text : List Char)
  | commaOrSemicolon
  | expression
  | closedRange
  | loop
  | member
  | type
  | pointerKind
  | functionKeyword
  | lifetime
  | body
  | bodyAfterWhere
  | tupleEnd
  | tupleEndAfterWhere
deriving DecidableEq, Repr

/-- What is wrong with a source. -/
inductive Problem where
  /-- A delimiter or a literal is not closed, or a character has no place in a source. -/
  | unreadable
  | expected (what : Expected) (atEnd : Bool)
  | keyword (word : List Char)
  /-- Something is left over, in a group of this kind or elsewhere. -/
  | unexpectedToken (inside : Option Delimiter)
  /-- The parts of a number after a point are no whole numbers. -/
  | notAnIndex
  | suffixedIndex
  | indexTooLarge
  | signedIndex
  /-- A comparison of a comparison, without parentheses. -/
  | chainedComparison
  /-- A cast with this after it, without parentheses. -/
  | afterCast (what : String)
  /-- Bounds of an object that are lifetimes alone. -/
  | noTrait
  /-- The value of an attribute starts with an attribute. -/
  | nestedAttribute
deriving DecidableEq, Repr

/-- What is expected, in words. -/
def Expected.text : Expected → String
  | structKeyword => "expected `struct`"
  | operator text => "expected `" ++ String.ofList text ++ "`"
  | identifier => "expected identifier"
  | pathSegment => "expected path segment after `::`"
  | brackets => "expected square brackets"
  | parentheses => "expected parentheses"
  | braces => "expected curly braces"
  | delimiter => "expected delimiter"
  | commaOrSemicolon => "expected `,` or `;`"
  | expression => "expected an expression"
  | closedRange => "expected `..=`"
  | loop => "expected loop or block expression"
  | member => "expected identifier or integer"
  | pointerKind => "expected `const` or `mut`"
  | functionKeyword => "expected `fn`"
  | lifetime => "expected lifetime"
  | type => "expected one of: `for`, parentheses, `fn`, `unsafe`, `extern`, identifier, " ++
    "`::`, `<`, `dyn`, square brackets, `*`, `&`, `!`, `impl`, `_`, lifetime"
  | body => "expected one of: `where`, parentheses, curly braces, `;`"
  | bodyAfterWhere => "expected curly braces or `;`"
  | tupleEnd => "expected `where` or `;`"
  | tupleEndAfterWhere => "expected `;`"

/-- An operator, whose absence is said in the same way everywhere. -/
def Expected.isOperator : Expected → Bool
  | operator _ => true
  | _ => false

/-- The message of a problem. -/
def Problem.message : Problem → List Char
  | unreadable => "cannot parse string into token stream".toList
  | expected what atEnd =>
    let start := if atEnd && !what.isOperator then "unexpected end of input, " else ""
    start.toList ++ what.text.toList
  | keyword word => "expected identifier, found keyword `".toList ++ word ++ "`".toList
  | unexpectedToken none => "unexpected token".toList
  | unexpectedToken (some d) =>
    "unexpected token, expected `".toList ++ d.closing ++ "`".toList
  | notAnIndex => "expected integer literal".toList
  | suffixedIndex => "expected unsuffixed integer".toList
  | indexTooLarge => "number too large to fit in target type".toList
  | signedIndex => "invalid digit found in string".toList
  | chainedComparison => "comparison operators cannot be chained".toList
  | afterCast what => "casts cannot be followed by ".toList ++ what.toList
  | noTrait => "at least one trait is required for an object type".toList
  | nestedAttribute => "unexpected attribute inside of attribute".toList

/-- The problem that something else stands before these trees, or nothing. -/
def Problem.insteadOf {α : Type} (what : Expected) (rest : List α) : Problem :=
  .expected what rest.isEmpty

/-! ## Fields by number

The fields of a tuple are selected by whole numbers, in any base and with underscores. A number with
a point in it selects more than once: `0.1` the field 1 of the field 0, and `0.` leaves its point to
what comes next.
-/

/-- What a number stands for. -/
inductive Number where
  | integer (value : Nat) (suffix : List Char)
  /-- There is a point or an exponent in it. -/
  | fraction
deriving DecidableEq, Repr

/-- The text is one name. -/
def isIdentifier (text : List Char) : Bool := afterIdentifier text == some []

/-- The text after the mark of an exponent goes on as an exponent, and the mark is not the start of
a suffix. -/
def isExponent (text : List Char) : Bool :=
  let hasDigit := (text.takeWhile isDigitOrBlank).any Char.isDigit
  match text.dropWhile isDigitOrBlank with
  | [] => hasDigit
  | c :: rest => c == '+' || c == '-' || (hasDigit && isIdentifier (c :: rest))

/-- The base of a number, and what follows the mark for it. -/
def baseOf : List Char → Nat × List Char
  | '0' :: 'x' :: rest => (16, rest)
  | '0' :: 'o' :: rest => (8, rest)
  | '0' :: 'b' :: rest => (2, rest)
  | text => (10, text)

/-- The digits up to base ten are decimal ones, and letters from there on. -/
def digitValue? (base : Nat) (c : Char) : Option Nat :=
  if 10 < base ∨ c.isDigit then hexValue? c else none

namespace Number

/-- Reads digits after those of the value, and a suffix. A digit has to be there. -/
def ofDigits (base value : Nat) (hasDigit : Bool) : List Char → Number
  | [] => if hasDigit then .integer value [] else .fraction
  | c :: rest =>
    if c = '_' then ofDigits base value hasDigit rest
    else
      match digitValue? base c with
      | some d => if d < base then ofDigits base (base * value + d) true rest else .fraction
      | none =>
        if base = 10 ∧ (c = 'e' ∨ c = 'E') ∧ isExponent rest then .fraction
        else if hasDigit ∧ isIdentifier (c :: rest) then .integer value (c :: rest)
        else .fraction

/-- The number that a literal is, if it is one. -/
def ofLiteral? (literal : List Char) : Option Number :=
  match literal with
  | c :: _ =>
    if c.isDigit then
      let (base, digits) := baseOf literal
      some (ofDigits base 0 false digits)
    else none
  | [] => none

end Number

/-- The largest number of a field. -/
def maxIndex : Nat := 4294967295

/-- The number of the field that a number without a point selects. -/
def indexOf (literal : List Char) : Except Problem Nat :=
  if afterNumber literal ≠ some [] then .error .unreadable
  else
    match Number.ofLiteral? literal with
    | some (.integer value suffix) =>
      if !suffix.isEmpty then .error .suffixedIndex
      else if maxIndex < value then .error .indexTooLarge
      else .ok value
    | _ => .error .notAnIndex

/-- What is wrong with a number after a minus sign. -/
def signedProblem (literal : List Char) : Problem :=
  match indexOf literal with
  | .error .suffixedIndex => .suffixedIndex
  | .error .notAnIndex => .notAnIndex
  | _ => .signedIndex

/-- The parts of a text between points. -/
def pointParts : List Char → List (List Char)
  | [] => [[]]
  | c :: rest =>
    if c = '.' then [] :: pointParts rest
    else
      match pointParts rest with
      | [] => [[c]]
      | part :: parts => (c :: part) :: parts

/-- What a number with a point selects. -/
structure Selection where
  fields : List Nat
  /-- The number ends with its point. -/
  hasPoint : Bool
deriving Repr

/-- What a number with a point selects, if all its parts are numbers of fields. -/
def Selection.ofLiteral (literal : List Char) : Except Problem Selection :=
  let hasPoint := literal.getLast? = some '.'
  let text := if hasPoint then literal.dropLast else literal
  do return ⟨← (pointParts text).mapM indexOf, hasPoint⟩

/-! ## Symbols of the grammar

What is to come next in a sequence of trees is a stack of symbols. The next tree, with those after
it, decides what is done with the symbol on top (`Action`): it is replaced by others as trees are
taken, or by nothing if nothing of it is there. Every tree that is taken is given in the form in
which it is written, with every operator on its own.
-/

/-- Where a path stands, which decides what may belong to it. -/
inductive PathUse where
  /-- An operand: generic arguments need a double colon; a macro call or a struct may follow. -/
  | operand
  /-- A type; the flag says that bounds may be added to it. -/
  | type (plus : Bool)
  /-- One name in generic arguments, which may be given a value or bounds. -/
  | argument
  /-- A trait that is a bound. -/
  | bound
  /-- The trait in a type in angle brackets. -/
  | trait
  /-- What follows a type in angle brackets. -/
  | member
deriving DecidableEq, Repr

/-- What is to come. The names of symbols that may be nothing say after what they stand. -/
inductive Symbol where
  /-- The punctuation characters of an operator. -/
  | operator (text : List Char)
  /-- An expression. -/
  | expression
  /-- An expression without operators between operands. -/
  | operand
  /-- Calls, indices, fields and methods after an operand. -/
  | afterOperand
  /-- Operators after an operand, and what they need. The flags say that the operand ends a
  comparison, and that it ends a range. -/
  | operators (compared ranged : Bool)
  /-- What must not follow a cast. -/
  | afterCast
  /-- The name of what is built in, and its arguments as they are in the source. -/
  | builtinName
  | builtinArguments
  /-- What may have a label, after the label: no expression of a tag. -/
  | labelled
  /-- Expressions between commas, to the end. -/
  | elements
  | afterElement
  /-- Expressions between commas, or an expression, a semicolon and a length. -/
  | arrayElements
  | afterArrayElement
  /-- The name or number of a field; the flag says that it may be a number with a point. -/
  | member (fraction : Bool)
  /-- After the name of a field or method. -/
  | afterMember
  /-- The arguments of a method. -/
  | methodArguments
  /-- The fields of a struct value, to the end. -/
  | fieldValues
  | fieldValue
  | afterFieldName
  | afterFieldValue
  /-- An attribute after its hash. -/
  | attributeBrackets
  /-- The path of an attribute, and what is after it. -/
  | attributePath
  | attributeArguments
  /-- A path that has only names. -/
  | plainPath
  | plainName (first : Bool)
  | afterPlainName
  /-- A path, rooted or not. -/
  | path (use : PathUse)
  /-- A name of a path. The flag says that the path has only names so far. -/
  | segment (use : PathUse) (plain : Bool)
  /-- After a name of a path; the second flag says that generic arguments may follow. -/
  | afterSegment (use : PathUse) (plain generic : Bool)
  /-- After a name of a path and its arguments. -/
  | afterArguments (use : PathUse) (plain : Bool)
  /-- Generic arguments after the opening bracket, with the closing one. -/
  | arguments
  | afterArgument
  /-- What a name in generic arguments is given. -/
  | argumentValue
  /-- The bounds of a name in generic arguments. -/
  | argumentBounds
  /-- After the type in angle brackets: the trait that it is taken as. -/
  | asTrait
  /-- A type; the flag says that bounds may be added to it. -/
  | type (plus : Bool)
  /-- Types between commas, to the end. -/
  | types
  | afterType
  /-- A type, or types between commas, to the end. -/
  | tupleTypes
  | afterTupleType
  /-- After the type of the elements of an array. -/
  | arrayLength
  /-- A function type after `unsafe`. -/
  | functionType
  /-- The keyword `fn` of a function type, and the rest of it. -/
  | functionKeyword
  | parameterList
  /-- The parameters of a function type, to the end. -/
  | parameters
  | afterParameter
  /-- After parameters: the type of the result. -/
  | resultType
  /-- A bound. The flags say that more may be added, and that there is a trait among them. -/
  | bound (plus hasTrait : Bool)
  | afterBound (plus hasTrait : Bool)
  /-- After the plus of bounds. -/
  | moreBounds (hasTrait : Bool)
  /-- Lifetimes after the opening bracket, with the closing one. -/
  | lifetimes
  | afterLifetime
  /-- What may stand before a declaration or a field: who can see it. -/
  | visibility
  /-- Parentheses after `pub` with a path to what can see. -/
  | restriction
  | inPath
  /-- Fields of a struct declaration, to the end; the flag says that they have names. -/
  | fields (named : Bool)
  /-- A field of a struct declaration. -/
  | field (named : Bool)
  | afterField (named : Bool)
  | fieldName
  /-- The type of a field without a name of its own, or fields in its place. -/
  | blankFieldType
  /-- Fields in braces. -/
  | fieldBraces
deriving DecidableEq, Repr

/-- What is done with the next tree. -/
inductive Action where
  /-- The tree is taken with this many after it and stands as written here; then come these
  symbols. -/
  | take (further : Nat) (written : List Tree) (next : List Symbol)
  /-- The tree opens generic arguments, with this many trees after it. -/
  | enterArguments (further : Nat) (written : List Tree) (next : List Symbol)
  /-- The tree is a group; its content is to be the first symbols, then come the others. -/
  | enter (content next : List Symbol)
  /-- Nothing of the symbol is there. -/
  | skip
  | fail (problem : Problem)

namespace Action

/-- The action with further symbols to come after those that it needs. -/
def andThen (below : List Symbol) : Action → Action
  | take further written next => take further written (next ++ below)
  | enterArguments further written next => enterArguments further written (next ++ below)
  | enter content next => enter content (next ++ below)
  | skip => skip
  | fail problem => fail problem

/-- Takes a punctuation character alone. -/
def takePunct (c : Char) (next : List Symbol) : Action := take 0 [.punct c false] next

/-- Takes the punctuation characters of an operator. -/
def takeOperator (text : List Char) (next : List Symbol) : Action :=
  take (text.length - 1) (Tree.operator text) next

/-- Something has to stand before a tree. -/
def expected (what : Expected) : Action := fail (.expected what false)

end Action

namespace Symbol

/-- What is wrong if the trees end before the symbol. -/
def atEnd? : Symbol → Option Problem
  | operator text => some (.expected (.operator text) true)
  | expression => some (.expected .expression true)
  | operand => some (.expected .expression true)
  | builtinName => some (.expected .identifier true)
  | builtinArguments => some (.expected .parentheses true)
  | labelled => some (.expected .loop true)
  | member _ => some (.expected .member true)
  | methodArguments => some (.expected .parentheses true)
  | fieldValue => some (.expected .member true)
  | attributeBrackets => some (.expected .brackets true)
  | attributePath => some (.expected .identifier true)
  | plainPath => some (.expected .identifier true)
  | plainName true => some (.expected .identifier true)
  | plainName false => some (.expected .pathSegment true)
  | path _ => some (.expected .identifier true)
  | segment _ _ => some (.expected .identifier true)
  | arguments => some (.expected .type true)
  | afterArgument => some (.expected (.operator [',']) true)
  | argumentValue => some (.expected .type true)
  | type _ => some (.expected .type true)
  | functionType => some (.expected .functionKeyword true)
  | functionKeyword => some (.expected .functionKeyword true)
  | parameterList => some (.expected .parentheses true)
  | bound _ _ => some (.expected .identifier true)
  | afterBound _ hasTrait => if hasTrait then none else some .noTrait
  | moreBounds hasTrait => if hasTrait then none else some .noTrait
  | lifetimes => some (.expected .lifetime true)
  | afterLifetime => some (.expected (.operator [',']) true)
  | restriction => some (.expected .parentheses true)
  | inPath => some (.expected .identifier true)
  | field true => some (.expected .identifier true)
  | field false => some (.expected .type true)
  | fieldName => some (.expected .identifier true)
  | blankFieldType => some (.expected .type true)
  | fieldBraces => some (.expected .braces true)
  | _ => none

end Symbol

end PowerRule.Declaration
