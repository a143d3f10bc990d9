import PowerRule.Declaration.Grammar.Operand
import PowerRule.Declaration.Grammar.Types
import PowerRule.Declaration.Parser

/-!
# The standard parser

With the grammar of the modules before, sources are read by a stack of symbols, and declarations by
`Parser.standard`. The grammar is a part of the language: expressions made of blocks are left out,
that is conditions, matches, loops and closures. What is proved of declarations holds of every
parser, and this one is for running them.
-/

namespace PowerRule.Declaration

/-! ## Reading trees

A stack of symbols is read from the start of a sequence of trees, as far as the symbols reach. The
content of a group is read on its own and need not be read to its end; what is left over there is
remembered, since other problems come before it.
-/

/-- What is done with the tree `t` before `rest` if a symbol is to come. -/
def Symbol.action (s : Symbol) (t : Tree) (rest : List Tree) : Action :=
  match s with
  | operator text =>
    if Tree.startsWith text (t :: rest) then .takeOperator text []
    else .expected (.operator text)
  | expression => .expression t rest
  | operand => .operand t rest
  | afterOperand => .afterOperand t rest
  | operators compared ranged => .operators compared ranged t rest
  | afterCast => .afterCast t rest
  | elements => (Action.expression t rest).andThen [.afterElement]
  | afterElement => .afterElement .elements t
  | arrayElements => (Action.expression t rest).andThen [.afterArrayElement]
  | afterArrayElement => .afterArrayElement t
  | builtinName => .builtinName t
  | builtinArguments => if t.isParenthesized then .take 0 [t] [] else .expected .parentheses
  | labelled => .expected .loop
  | member fraction => .member fraction t rest
  | afterMember => .afterMember t rest
  | methodArguments => if t.isParenthesized then .enter [.elements] [] else .expected .parentheses
  | fieldValues => .fieldValues t rest
  | fieldValue => .fieldValue t
  | afterFieldName => .afterFieldName t
  | afterFieldValue => .afterElement .fieldValues t
  | attributeBrackets => .attributeBrackets t
  | attributePath => .attributePath t rest
  | attributeArguments => .attributeArguments t rest
  | plainPath => .plainPath t rest
  | plainName first => .plainName first t
  | afterPlainName => .afterPlainName t rest
  | path use => .path use t rest
  | segment use plain => .segment use plain t
  | afterSegment use plain generic => .afterSegment use plain generic t rest
  | afterArguments use plain => .afterArguments use plain t rest
  | arguments => .arguments t rest
  | afterArgument => .afterItem .arguments t
  | argumentValue => .argumentValue t rest
  | argumentBounds => .argumentBounds t rest
  | asTrait => if t.isWord "as" then .take 0 [t] [.path .trait] else .skip
  | type plus => .type plus t rest
  | types => (Action.type true t rest).andThen [.afterType]
  | afterType => .afterElement .types t
  | tupleTypes => (Action.type true t rest).andThen [.afterTupleType]
  | afterTupleType => if t.isPunct ',' then .takePunct ',' [.types] else .skip
  | arrayLength => if t.isPunct ';' then .takePunct ';' [.expression] else .skip
  | functionType => .functionType t rest
  | functionKeyword => .functionKeyword t
  | parameterList => if t.isParenthesized then .enter [.parameters] [] else .expected .parentheses
  | parameters => (Action.parameter t rest).andThen [.afterParameter]
  | afterParameter => .afterElement .parameters t
  | resultType =>
    if Tree.startsWith arrow (t :: rest) then .takeOperator arrow [.type false] else .skip
  | bound plus hasTrait => .bound plus hasTrait t rest
  | afterBound plus hasTrait => .afterBound plus hasTrait t
  | moreBounds hasTrait => .moreBounds hasTrait t rest
  | lifetimes => .lifetimes t rest
  | afterLifetime => .afterItem .lifetimes t
  | visibility => .visibility t rest
  | restriction => if t.isParenthesized then .enter [.inPath] [] else .expected .parentheses
  | inPath => .inPath t
  | fields named => (Action.field named t rest).andThen [.afterField named]
  | field named => .field named t rest
  | afterField named => .afterElement (.fields named) t
  | fieldName => .fieldName t
  | blankFieldType => .blankFieldType t rest
  | fieldBraces => .fieldBraces t

/-- Trees that were read, as they are written, how many they were in the source, and the first group
in which something is left over. -/
structure Reading where
  trees : List Tree
  consumed : Nat
  leftover : Option Delimiter
deriving Repr

namespace Reading

/-- The reading of nothing. -/
def empty : Reading := ⟨[], 0, none⟩

/-- A reading with further trees before it. -/
def after (written : List Tree) (consumed : Nat) (r : Reading) : Reading :=
  { r with trees := written ++ r.trees, consumed := consumed + r.consumed }

/-- A reading with another before it. -/
def append (first second : Reading) : Reading :=
  ⟨first.trees ++ second.trees, first.consumed + second.consumed,
    first.leftover.or second.leftover⟩

/-- The reading of a group, given that of its content. -/
def ofGroup (d : Delimiter) (content : List Tree) (r : Reading) : Reading :=
  ⟨[.group d r.trees], 1, r.leftover.or (if r.consumed < content.length then some d else none)⟩

end Reading

/-- The other trees are less than all. -/
theorem sizeOf_lt_cons (t : Tree) (rest : List Tree) : sizeOf rest < sizeOf (t :: rest) := by
  rw [List.cons.sizeOf_spec]
  omega

/-- The content of a group is less than the group and what follows. -/
theorem sizeOf_content_lt (d : Delimiter) (content rest : List Tree) :
    sizeOf content < sizeOf (Tree.group d content :: rest) := by
  rw [List.cons.sizeOf_spec, Tree.group.sizeOf_spec]
  omega

/-- What is left of the other trees is less than all. -/
theorem sizeOf_drop_lt (n : Nat) (t : Tree) (rest : List Tree) :
    sizeOf (rest.drop n) < sizeOf (t :: rest) := by
  induction rest generalizing n t with
  | nil => rw [List.drop_nil]; exact sizeOf_lt_cons t []
  | cons u rest ih =>
    cases n with
    | zero => exact sizeOf_lt_cons t (u :: rest)
    | succ n =>
      rw [List.drop_succ_cons]
      exact Nat.lt_trans (ih n u) (sizeOf_lt_cons t (u :: rest))

/-- Reads symbols from the start of trees. Generic arguments are read on their own as well, since
they may be written in another order. -/
def readSymbols (symbols : List Symbol) (trees : List Tree) : Except Problem Reading :=
  match symbols, trees with
  | [], _ => .ok .empty
  | s :: below, [] =>
    match s.atEnd? with
    | some problem => .error problem
    | none => readSymbols below []
  | s :: below, t :: rest =>
    match s.action t rest with
    | .skip => readSymbols below (t :: rest)
    | .fail problem => .error problem
    | .take further written next =>
      (readSymbols (next ++ below) (rest.drop further)).map (.after written (further + 1))
    | .enterArguments further written next => do
      let inner ← readSymbols [.arguments] (rest.drop further)
      let outer ← readSymbols (next ++ below) (rest.drop (further + inner.consumed))
      let arguments := { inner with trees := orderedArguments inner.trees }
      return .after written (further + 1) (arguments.append outer)
    | .enter content next =>
      match t with
      | .group d trees => do
        let inner ← readSymbols content trees
        let outer ← readSymbols (next ++ below) rest
        return (Reading.ofGroup d trees inner).append outer
      | _ => .error (.unexpectedToken none)
termination_by (sizeOf trees, symbols.length)
decreasing_by
  · exact Prod.Lex.right _ (Nat.lt_succ_self _)
  · exact Prod.Lex.right _ (Nat.lt_succ_self _)
  · exact Prod.Lex.left _ _ (sizeOf_drop_lt further t rest)
  · exact Prod.Lex.left _ _ (sizeOf_drop_lt further t rest)
  · exact Prod.Lex.left _ _ (sizeOf_drop_lt (further + inner.consumed) t rest)
  · exact Prod.Lex.left _ _ (sizeOf_content_lt d trees rest)
  · exact Prod.Lex.left _ _ (sizeOf_lt_cons (.group d trees) rest)

/-- Reads the expression at the start of the trees. -/
def readExpression (trees : List Tree) : Except Problem Reading := readSymbols [.expression] trees

/-! ## The standard parser

With the grammar of the modules before, a parser of declarations (`Parser.standard`). It reads the
part of the language that declarations of errors are written in; of expressions, control flow and
closures are not in it.
-/

/-- What is said of something that is left over in a group. -/
def leftoverText (d : Delimiter) : List Char := (Problem.unexpectedToken (some d)).message

/-! ### Attributes -/

/-- The attribute with these names before what is written. -/
def Attribute.ofTrees (rooted : Bool) (names : List (List Char)) : List Tree → Attribute
  | .name word :: rest => ofTrees rooted (names ++ [word]) rest
  | .group d content :: _ => ⟨rooted, names, .list d content⟩
  | .punct ':' _ :: rest => ofTrees (rooted || names.isEmpty) names rest
  | .punct _ _ :: value => ⟨rooted, names, .value value⟩
  | _ => ⟨rooted, names, .absent⟩

/-- Reads the attributes at the start of the trees. -/
def readAttributes : List Tree → Except Problem (Parsed (List Attribute))
  | .punct '#' _ :: .group .bracket content :: rest => do
    let inner ← readSymbols [.attributePath] content
    let more ← readAttributes rest
    let group := Reading.ofGroup .bracket content inner
    return ⟨.ofTrees false [] inner.trees :: more.value, more.consumed + 2,
      (group.leftover.map leftoverText).or more.leftover⟩
  | .punct '#' _ :: rest => .error (.insteadOf .brackets rest)
  | _ => .ok ⟨[], 0, none⟩

/-! ### Fields -/

/-- An item without the comma after it. -/
def withoutComma (item : List Tree) : List Tree :=
  match item.getLast? with
  | some t => if t.isPunct ',' then item.dropLast else item
  | none => item

/-- How many trees at the start are a visibility. -/
def visibilityLength : List Tree → Nat
  | [] => 0
  | t :: rest =>
    if !t.isWord "pub" then 0
    else if Action.isPlaceRestriction rest || Action.isPathRestriction rest then 2
    else 1

/-- The field that these trees are, after these attributes. All that follows the visibility is taken
for its type. -/
def Field.ofTrees (attributes : List Attribute) : List Tree → Field
  | .punct '#' _ :: .group _ content :: rest =>
    ofTrees (attributes ++ [.ofTrees false [] content]) rest
  | trees =>
    ⟨attributes, trees.take (visibilityLength trees), trees.drop (visibilityLength trees)⟩

/-- The field that these trees are, with its name. -/
def Field.namedOfTrees? (trees : List Tree) : Option (List Char × Field) :=
  let field := Field.ofTrees [] trees
  match field.type with
  | .name name :: .punct ':' _ :: type => some (name, { field with type := type })
  | _ => none

/-- The fields that were read, between commas. -/
def fieldItems (trees : List Tree) : List (List Tree) := (itemsOf 0 trees).map withoutComma

/-! ### Structs -/

/-- The trees are this word. -/
def startsWithWord (word : String) : List Tree → Bool
  | .name found :: _ => found == word.toList
  | _ => false

/-- Leaves out generic parameters, given the number of brackets around. The arrow of a result closes
no bracket. -/
def afterAngles (depth : Nat) : List Tree → List Tree
  | [] => []
  | .punct '-' true :: .punct '>' _ :: rest => afterAngles depth rest
  | t :: rest =>
    if t.isPunct '<' then afterAngles (depth + 1) rest
    else if t.isPunct '>' then
      if depth ≤ 1 then rest else afterAngles (depth - 1) rest
    else afterAngles depth rest

/-- Leaves out the generic parameters of a struct. -/
def afterGenerics (trees : List Tree) : List Tree :=
  if Tree.startsWith ['<'] trees then afterAngles 0 trees else trees

/-- A tree that ends a where clause. -/
def endsWhere : Tree → Bool
  | .group .brace _ => true
  | .punct c _ => c == ';'
  | _ => false

/-- Leaves out a where clause. -/
def afterWhere (trees : List Tree) : List Tree :=
  if startsWithWord "where" trees then trees.dropWhile (!endsWhere ·) else trees

/-- A name that is no keyword, and what follows it. -/
def readName (trees : List Tree) : Except Problem (List Char × List Tree) :=
  match trees with
  | .name word :: rest => if isKeyword word then .error (.keyword word) else .ok (word, rest)
  | _ => .error (.insteadOf .identifier trees)

/-- The semicolon that has to end a declaration, and what follows it. -/
def readSemicolon (what : Expected) (trees : List Tree) : Except Problem (List Tree) :=
  match trees with
  | .punct ';' _ :: rest => .ok rest
  | _ => .error (.insteadOf what trees)

/-- The fields of a struct, the first group in them in which something is left over, and what comes
after them. -/
structure Body where
  fields : Fields
  leftover : Option Delimiter
  rest : List Tree

/-- Reads the fields of a struct after its name. -/
def Body.read (trees : List Tree) : Except Problem Body := do
  let bounded := startsWithWord "where" trees
  match afterWhere trees with
  | .group .brace content :: rest =>
    let inner ← readSymbols [.fields true] content
    return ⟨.named ((fieldItems inner.trees).filterMap Field.namedOfTrees?), inner.leftover, rest⟩
  | .group .parenthesis content :: rest =>
    if bounded then throw (.expected .bodyAfterWhere false)
    let inner ← readSymbols [.fields false] content
    let what := if startsWithWord "where" rest then Expected.tupleEndAfterWhere else .tupleEnd
    return ⟨.unnamed ((fieldItems inner.trees).map (Field.ofTrees [])), inner.leftover,
      ← readSemicolon what (afterWhere rest)⟩
  | rest =>
    let what := if bounded then Expected.bodyAfterWhere else .body
    return ⟨.unit, none, ← readSemicolon what rest⟩

/-- Reads a struct after its attributes. -/
def readItem (trees : List Tree) : Except Problem (Parsed Item) := do
  let visibility ← readSymbols [.visibility] trees
  let declaration := trees.drop visibility.consumed
  if !startsWithWord "struct" declaration then throw (.insteadOf .structKeyword declaration)
  let (name, rest) ← readName (declaration.drop 1)
  let generics := rest.take (rest.length - (afterGenerics rest).length)
  let body ← Body.read (afterGenerics rest)
  return ⟨⟨visibility.trees, name, generics, body.fields⟩, trees.length - body.rest.length,
    (visibility.leftover.or body.leftover).map leftoverText⟩

/-! ### The parser -/

/-- What was read, as the parser gives it. -/
def Reading.parsed (r : Reading) : Parsed (List Tree) :=
  ⟨r.trees, r.consumed, r.leftover.map leftoverText⟩

/-- A parser of declarations, for the part of the language that the grammar covers. -/
def Parser.standard : Parser where
  trees source :=
    match Tree.ofSource? source with
    | none => .error Problem.unreadable.message
    | some trees => .ok trees
  attributes trees := (readAttributes trees).mapError Problem.message
  item trees := (readItem trees).mapError Problem.message
  expression trees := ((readExpression trees).map Reading.parsed).mapError Problem.message

end PowerRule.Declaration
