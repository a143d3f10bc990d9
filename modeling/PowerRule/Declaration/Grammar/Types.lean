import PowerRule.Declaration.Grammar.Symbol

/-!
# Paths, types and declarations

What stands in a declaration apart from expressions: paths, types, attributes, visibilities and
fields.
-/

namespace PowerRule.Declaration

/-! ## Paths

A path is names between double colons, from the root or from a place. A name may have generic
arguments in angle brackets. A path that is a bound may end with the parameters and the result of
a function; after one that is a type, parentheses do not belong to it any more. What may belong to
a path depends on where it stands (`PathUse`).
-/

/-- The double colon of paths. -/
def doubleColon : List Char := [':', ':']

/-- The arrow before a result. -/
def arrow : List Char := ['-', '>']

/-- The trees start with a double colon before a tree of a kind. -/
def colonsBefore (isNext : Tree → Bool) : List Tree → Bool
  | .punct ':' true :: .punct ':' _ :: t :: _ => isNext t
  | _ => false

/-- The trees start with a lifetime. -/
def startsLifetime : List Tree → Bool
  | .punct '\'' _ :: .name _ :: _ => true
  | _ => false

namespace Action

/-- Takes a lifetime. -/
def takeLifetime (trees : List Tree) (next : List Symbol) : Action :=
  take 1 (trees.take 2) next

/-- Where a name of a path has to stand. -/
def segment (use : PathUse) (plain : Bool) (t : Tree) : Action :=
  match t with
  | .name word =>
    if isPlace word then take 0 [t] [.afterSegment use plain false]
    else if isKeyword word && !t.isWord "Self" then fail (.keyword word)
    else take 0 [t] [.afterSegment use plain true]
  | _ => expected .identifier

/-- Where a path has to stand. -/
def path (use : PathUse) (t : Tree) (rest : List Tree) : Action :=
  if Tree.startsWith doubleColon (t :: rest) then takeOperator doubleColon [.segment use true]
  else segment use true t

/-- The call of a macro after its path. It is written as it is in the source. -/
def macroCall? (t : Tree) (rest : List Tree) : Option Action :=
  match t, rest with
  | .punct '!' true, .punct '=' _ :: _ => none
  | .punct '!' _, .group d content :: _ => some (take 1 [.punct '!' false, .group d content] [])
  | .punct '!' _, _ => some (fail (.insteadOf .delimiter rest))
  | _, _ => none

/-- After a type that is a path. -/
def afterPathType (plus plain : Bool) (t : Tree) (rest : List Tree) : Action :=
  match if plain then macroCall? t rest else none with
  | some call => call
  | none => if plus && t.isPunct '+' then takePunct '+' [.moreBounds true] else skip

/-- After a path that cannot go on. -/
def afterPath (use : PathUse) (plain : Bool) (t : Tree) (rest : List Tree) : Action :=
  match use with
  | .operand =>
    match t with
    | .group .brace _ => enter [.fieldValues] []
    | _ => if plain then (macroCall? t rest).getD skip else skip
  | .type plus => afterPathType plus plain t rest
  | .argument =>
    if t.isPunct '=' then takePunct '=' [.argumentValue]
    else if t.isPunct ':' then takePunct ':' [.argumentBounds]
    else afterPathType true plain t rest
  | .bound => skip
  | .trait => skip
  | .member => skip

end Action

namespace PathUse

/-- How a path stands that has more than one name. -/
def further : PathUse → PathUse
  | argument => type true
  | use => use

end PathUse

namespace Action

/-- After a name of a path and its arguments. -/
def afterArguments (use : PathUse) (plain : Bool) (t : Tree) (rest : List Tree) : Action :=
  let trees := t :: rest
  if Tree.startsWith doubleColon trees && !colonsBefore Tree.isParenthesized trees then
    takeOperator doubleColon [.segment use.further plain]
  else afterPath use plain t rest

/-- After a name of a path. -/
def afterSegment (use : PathUse) (plain generic : Bool) (t : Tree) (rest : List Tree) : Action :=
  let trees := t :: rest
  let isOpen (t : Tree) : Bool := t.isPunct '<'
  if generic && colonsBefore isOpen trees then
    enterArguments 2 (Tree.operator doubleColon ++ Tree.operator ['<']) [.afterArguments use false]
  else if generic && use != .operand && isOpen t && !Tree.startsWith ['<', '='] trees then
    enterArguments 0 (Tree.operator ['<']) [.afterArguments use false]
  else if use == .bound && t.isParenthesized then enter [.types] [.resultType]
  else if use == .bound && colonsBefore Tree.isParenthesized trees then
    takeOperator doubleColon [.afterSegment use plain false]
  else afterArguments use plain t rest

/-- A type after the bracket that opens it, the trait that it is taken as, and a name in that. -/
def qualified (use : PathUse) : Action :=
  takePunct '<' [.type true, .asTrait, .operator ['>'], .operator doubleColon, .segment use false]

end Action

/-! ## Items between commas

Fields and generic arguments are items between commas. The order of generic arguments is free, but
lifetimes are written before the others.
-/

/-- Trees between commas outside angle brackets, each with the comma after it. The arrow of a result
closes no bracket. -/
def itemsOf (depth : Nat) : List Tree → List (List Tree)
  | [] => []
  | .punct '-' true :: .punct '>' joined :: rest =>
    let arrow := [Tree.punct '-' true, .punct '>' joined]
    match itemsOf depth rest with
    | [] => [arrow]
    | item :: items => (arrow ++ item) :: items
  | t :: rest =>
    if t.isPunct ',' && depth == 0 then [t] :: itemsOf depth rest
    else
      let inside :=
        if t.isPunct '<' then depth + 1
        else if t.isPunct '>' then depth - 1
        else depth
      match itemsOf inside rest with
      | [] => [[t]]
      | item :: items => (t :: item) :: items

/-- The item is a lifetime, with or without a comma. -/
def isLifetimeItem (item : List Tree) : Bool :=
  startsLifetime item && (item.drop 2).all (Tree.isPunct ',')

/-- Items in a row, with a comma after each but the last, which has one if it had one. -/
def joinItems : List (List Tree) → List Tree
  | [] => []
  | [item] => item
  | item :: items =>
    let hasComma := match item.getLast? with
      | some t => t.isPunct ','
      | none => false
    item ++ (if hasComma then [] else [.punct ',' false]) ++ joinItems items

/-- Generic arguments and the closing bracket as they are written: lifetimes come first. -/
def orderedArguments (trees : List Tree) : List Tree :=
  let items := itemsOf 0 trees.dropLast
  let lifetimes := items.filter isLifetimeItem
  let others := items.filter (!isLifetimeItem ·)
  joinItems (lifetimes ++ others) ++ Tree.operator ['>']

/-! ## Types

A type is a path, a tuple, an array or a slice, a reference or a pointer, a function, an object or
some type with bounds, or one of the types that have a mark of their own.
-/

namespace Action

/-- Where a bound has to stand: a lifetime, or a trait with or without parentheses. -/
def bound (plus hasTrait : Bool) (t : Tree) (rest : List Tree) : Action :=
  let trees := t :: rest
  if startsLifetime trees then takeLifetime trees [.afterBound plus hasTrait]
  else if t.isParenthesized then enter [.bound false true] [.afterBound plus true]
  else if t.isPunct '?' then takePunct '?' [.bound plus true]
  else if t.isWord "for" then take 0 [t] [.operator ['<'], .lifetimes, .bound plus true]
  else (path .bound t rest).andThen [.afterBound plus true]

/-- After a bound. -/
def afterBound (plus hasTrait : Bool) (t : Tree) : Action :=
  if plus && t.isPunct '+' then takePunct '+' [.moreBounds hasTrait]
  else if hasTrait then skip
  else fail .noTrait

/-- After the plus of bounds, where another may stand. -/
def moreBounds (hasTrait : Bool) (t : Tree) (rest : List Tree) : Action :=
  let trees := t :: rest
  let isName := match t with
    | .name _ => true
    | _ => false
  let isBound := isName || Tree.startsWith doubleColon trees || t.isPunct '?' ||
    startsLifetime trees || t.isParenthesized
  if isBound then bound true hasTrait t rest
  else if hasTrait then skip
  else fail .noTrait

/-- Where a function type has to go on. -/
def functionKeyword (t : Tree) : Action :=
  if t.isWord "fn" then take 0 [t] [.parameterList, .resultType]
  else expected .functionKeyword

/-- Where a function type has to stand, after `unsafe` if that is there. -/
def functionType (t : Tree) (rest : List Tree) : Action :=
  if t.isWord "extern" then
    match rest with
    | .literal text :: _ => take 1 [t, .literal text] [.functionKeyword]
    | _ => take 0 [t] [.functionKeyword]
  else functionKeyword t

/-- A reference after its mark: a lifetime and `mut` may belong to it. -/
def reference (rest : List Tree) : Action :=
  let lifetime := if startsLifetime rest then rest.take 2 else []
  let mutable := match rest.drop lifetime.length with
    | t :: _ => if t.isWord "mut" then [t] else []
    | [] => []
  let marks := lifetime ++ mutable
  take marks.length (.punct '&' false :: marks) [.type false]

/-- A pointer after its mark: it has to be said whether it is constant. -/
def pointer (rest : List Tree) : Action :=
  match rest with
  | t :: _ =>
    if t.isWord "const" || t.isWord "mut" then take 1 [.punct '*' false, t] [.type false]
    else expected .pointerKind
  | [] => fail (.expected .pointerKind true)

/-- A type that starts with a word. -/
def wordType (plus : Bool) (word : List Char) (rest : List Tree) : Action :=
  let t := Tree.name word
  if t.isWord "for" then take 0 [t] [.operator ['<'], .lifetimes, .type plus]
  else if t.isWord "unsafe" then take 0 [t] [.functionType]
  else if t.isWord "fn" || t.isWord "extern" then functionType t rest
  else if t.isWord "dyn" || t.isWord "impl" then take 0 [t] [.bound plus (t.isWord "impl")]
  else if t.isWord "_" then take 0 [t] []
  else if startsPath word then segment (.type plus) true t
  else expected .type

/-- Where a type has to stand. -/
def type (plus : Bool) (t : Tree) (rest : List Tree) : Action :=
  match t with
  | .name word => wordType plus word rest
  | .literal _ => expected .type
  | .group .parenthesis _ => enter [.tupleTypes] []
  | .group .bracket _ => enter [.type true, .arrayLength] []
  | .group .brace _ => expected .type
  | .punct c _ =>
    if Tree.startsWith doubleColon (t :: rest) then
      takeOperator doubleColon [.segment (.type plus) true]
    else if c = '<' then qualified .member
    else if c = '&' then reference rest
    else if c = '*' then pointer rest
    else if c = '!' then takePunct '!' []
    else if startsLifetime (t :: rest) then bound plus false t rest
    else expected .type

/-- The tree is a literal, or one of the two words that are. -/
def isLiteral (t : Tree) : Bool :=
  match t with
  | .literal _ => true
  | t => t.isWord "true" || t.isWord "false"

/-- A constant that is given as an argument: a literal, a number with a minus sign, or a block. -/
def constant? (t : Tree) (rest : List Tree) : Option Action :=
  match t, rest with
  | .punct '-' _, .literal text :: _ =>
    if (Number.ofLiteral? text).isSome then some (take 1 [.punct '-' false, .literal text] [])
    else none
  | .group .brace _, _ => some (take 0 [t] [])
  | _, _ => if isLiteral t then some (take 0 [t] []) else none

/-- Where a type or a constant has to stand that a name in generic arguments is given. -/
def argumentValue (t : Tree) (rest : List Tree) : Action :=
  (constant? t rest).getD (type true t rest)

/-- Where a generic argument has to stand. -/
def argument (t : Tree) (rest : List Tree) : Action :=
  let trees := t :: rest
  if startsLifetime trees && !Tree.startsWith ['+'] (trees.drop 2) then takeLifetime trees []
  else
    match t with
    | .name word =>
      if !isLiteral t && !t.isWord "_" && startsPath word then segment .argument true t
      else argumentValue t rest
    | _ => argumentValue t rest

/-- Where a generic argument or the closing bracket has to stand. -/
def arguments (t : Tree) (rest : List Tree) : Action :=
  if t.isPunct '>' then takePunct '>' []
  else (argument t rest).andThen [.afterArgument]

/-- After an item of a list in angle brackets. -/
def afterItem (more : Symbol) (t : Tree) : Action :=
  if t.isPunct '>' then takePunct '>' []
  else if t.isPunct ',' then takePunct ',' [more]
  else expected (.operator [','])

/-- The bounds of a name in generic arguments. There may be none. -/
def argumentBounds (t : Tree) (rest : List Tree) : Action :=
  if t.isPunct ',' || t.isPunct '>' then skip
  else bound true true t rest

/-- After an item of a list that reaches to the end. -/
def afterElement (more : Symbol) (t : Tree) : Action :=
  if t.isPunct ',' then takePunct ',' [more] else expected (.operator [','])

/-- Where a parameter of a function type has to stand. It may have a name. -/
def parameter (t : Tree) (rest : List Tree) : Action :=
  match t, rest with
  | .name word, .punct ':' joined :: more =>
    if (!isKeyword word || t.isWord "_") &&
        !Tree.startsWith doubleColon (.punct ':' joined :: more) then
      take 1 [t, .punct ':' false] [.type true]
    else type true t rest
  | _, _ => type true t rest

/-- Lifetimes, or the closing bracket. -/
def lifetimes (t : Tree) (rest : List Tree) : Action :=
  if t.isPunct '>' then takePunct '>' []
  else if startsLifetime (t :: rest) then takeLifetime (t :: rest) [.afterLifetime]
  else expected .lifetime

end Action

/-! ## Parts of a declaration

Before a declaration or a field there may be attributes, and after them a visibility. The fields of
a struct lie between commas and have a type each, after a name or alone. A field may have the name
`_`, and fields in place of its type.
-/

namespace Action

/-- Where the brackets of an attribute have to stand. -/
def attributeBrackets (t : Tree) : Action :=
  match t with
  | .group .bracket _ => enter [.attributePath] []
  | _ => expected .brackets

/-- Where a name has to stand in a path that has only names. -/
def plainName (first : Bool) (t : Tree) : Action :=
  match t, first with
  | .name word, true =>
    if startsPath word then take 0 [t] [.afterPlainName] else fail (.keyword word)
  | .name word, false =>
    if startsPath word then take 0 [t] [.afterPlainName] else expected .pathSegment
  | _, true => expected .identifier
  | _, false => expected .pathSegment

/-- Where a path has to stand that has only names. -/
def plainPath (t : Tree) (rest : List Tree) : Action :=
  if Tree.startsWith doubleColon (t :: rest) then takeOperator doubleColon [.plainName true]
  else plainName true t

/-- After a name of a path that has only names. -/
def afterPlainName (t : Tree) (rest : List Tree) : Action :=
  if Tree.startsWith doubleColon (t :: rest) then takeOperator doubleColon [.plainName false]
  else skip

/-- Where the path of an attribute has to stand. It may be the word `unsafe`. -/
def attributePath (t : Tree) (rest : List Tree) : Action :=
  if t.isWord "unsafe" then take 0 [t] [.attributeArguments]
  else (plainPath t rest).andThen [.attributeArguments]

/-- After the path of an attribute: a group, which is written as it is in the source, or a value. -/
def attributeArguments (t : Tree) (rest : List Tree) : Action :=
  match t, rest with
  | .group _ _, _ => take 0 [t] []
  | .punct '=' _, .punct '#' _ :: .group .bracket _ :: _ => fail .nestedAttribute
  | .punct '=' _, _ => takePunct '=' [.expression]
  | _, _ => skip

/-- The group after `pub` restricts it to one of three places. -/
def isPlaceRestriction : List Tree → Bool
  | .group .parenthesis [t] :: _ => ["crate", "self", "super"].any t.isWord
  | _ => false

/-- The group after `pub` restricts it to a path. -/
def isPathRestriction : List Tree → Bool
  | .group .parenthesis (t :: _) :: _ => t.isWord "in"
  | _ => false

/-- Where a visibility may stand. -/
def visibility (t : Tree) (rest : List Tree) : Action :=
  if !t.isWord "pub" then skip
  else if isPlaceRestriction rest then take 1 (t :: rest.take 1) []
  else if isPathRestriction rest then take 0 [t] [.restriction]
  else take 0 [t] []

/-- Where the path of a restriction has to stand. -/
def inPath (t : Tree) : Action :=
  if t.isWord "in" then take 0 [t] [.plainPath] else expected .identifier

/-- Where the name of a field has to stand. -/
def fieldName (t : Tree) : Action :=
  match t with
  | .name word =>
    if t.isWord "_" then take 0 [t] [.operator [':'], .blankFieldType]
    else if isKeyword word then fail (.keyword word)
    else take 0 [t] [.operator [':'], .type true]
  | _ => expected .identifier

/-- Where the type of a field with the name `_` has to stand, or fields in its place. -/
def blankFieldType (t : Tree) (rest : List Tree) : Action :=
  let isBraced := match rest with
    | .group .brace _ :: _ => true
    | _ => false
  if t.isWord "struct" || (t.isWord "union" && isBraced) then take 0 [t] [.fieldBraces]
  else type true t rest

/-- Where fields in braces have to stand. -/
def fieldBraces (t : Tree) : Action :=
  match t with
  | .group .brace _ => enter [.fields true] []
  | _ => expected .braces

/-- Where a field has to stand. -/
def field (named : Bool) (t : Tree) (rest : List Tree) : Action :=
  match t with
  | .punct '#' _ => takePunct '#' [.attributeBrackets, .field named]
  | _ =>
    if t.isWord "pub" then
      (visibility t rest).andThen [if named then .fieldName else .type true]
    else if named then fieldName t
    else type true t rest

end Action

end PowerRule.Declaration
