import PowerRule.Declaration.Grammar.Types

/-!
# Expressions

An expression is operands with operators between them.
-/

namespace PowerRule.Declaration

/-! ## Operands

An operand is a literal, a path, the call of a macro, a struct, parentheses, a tuple or an array,
with marks before it and calls, indices, fields and methods after it.
-/

/-- Names that are an operand and no path. -/
def literalWords : List String := ["true", "false", "_"]

/-- Marks before an operand. Two of them in a row are never one. -/
def isMark (c : Char) : Bool := c == '-' || c == '!' || c == '*'

/-- What a range without an end may stand before. Other operators start its end. -/
def endsRange (trees : List Tree) : Bool :=
  let operators := [",", ";", "?", "=", "+", "/", "%", "^", ">", "<=", "!=", "-=", "*=", "&=", "|=",
    "<<="]
  match trees with
  | [] => true
  | t :: _ =>
    t.isWord "as" || operators.any (fun text => Tree.startsWith text.toList trees) ||
      (Tree.startsWith ['.'] trees && !Tree.startsWith ['.', '.'] trees)

namespace Action

/-- A range from its points on; they may be followed by an end. -/
def range (t : Tree) (rest : List Tree) : Action :=
  let trees := t :: rest
  let toEnd : List Symbol := [.operand, .operators false true]
  if Tree.startsWith ['.', '.', '='] trees then takeOperator ['.', '.', '='] toEnd
  else if Tree.startsWith ['.', '.', '.'] trees then expected .closedRange
  else takeOperator ['.', '.'] (if endsRange (rest.drop 1) then [] else toEnd)

/-- A reference after its mark: `mut` belongs to it, or `raw` with `mut` or `const`. -/
def borrow (rest : List Tree) : Action :=
  let mark := Tree.punct '&' false
  match rest with
  | t :: u :: _ =>
    if t.isWord "raw" && (u.isWord "mut" || u.isWord "const") then take 2 [mark, t, u] [.operand]
    else if t.isWord "mut" then take 1 [mark, t] [.operand]
    else take 0 [mark] [.operand]
  | [t] => if t.isWord "mut" then take 1 [mark, t] [.operand] else take 0 [mark] [.operand]
  | [] => take 0 [mark] [.operand]

/-- A word that an operand starts with. -/
def wordOperand (word : List Char) (rest : List Tree) : Action :=
  let t := Tree.name word
  let isTryPath := t.isWord "try" &&
    (Tree.startsWith ['!'] rest || Tree.startsWith doubleColon rest)
  if literalWords.contains (String.ofList word) then take 0 [t] [.afterOperand]
  else if t.isWord "builtin" && Tree.startsWith ['#'] rest then
    take 1 [t, .punct '#' false] [.builtinName, .builtinArguments, .afterOperand]
  else if startsPath word || isTryPath then
    (segment .operand true t).andThen [.afterOperand]
  else expected .expression

/-- Where an operand has to stand. -/
def operand (t : Tree) (rest : List Tree) : Action :=
  match t with
  | .literal _ => take 0 [t] [.afterOperand]
  | .name word => wordOperand word rest
  | .group .parenthesis _ => enter [.elements] [.afterOperand]
  | .group .bracket _ => enter [.arrayElements] [.afterOperand]
  | .group .brace _ => expected .expression
  | .punct c _ =>
    let trees := t :: rest
    if c = '#' then takePunct '#' [.attributeBrackets, .operand]
    else if c = '&' then borrow rest
    else if isMark c then takePunct c [.operand]
    else if c = '<' then (qualified .operand).andThen [.afterOperand]
    else if Tree.startsWith doubleColon trees then
      takeOperator doubleColon [.segment .operand true, .afterOperand]
    else if Tree.startsWith ['.', '.'] trees then range t rest
    else if startsLifetime trees then takeLifetime trees [.operator [':'], .labelled]
    else expected .expression

/-- Where the name of what is built in has to stand. -/
def builtinName (t : Tree) : Action :=
  match t with
  | .name word => if isKeyword word then fail (.keyword word) else take 0 [t] []
  | _ => expected .identifier

/-- After an operand: what belongs to it. -/
def afterOperand (t : Tree) (rest : List Tree) : Action :=
  match t with
  | .group .parenthesis _ => enter [.elements] [.afterOperand]
  | .group .bracket _ => enter [.expression] [.afterOperand]
  | .punct '.' _ =>
    if Tree.startsWith ['.', '.'] (t :: rest) then skip else takePunct '.' [.member true]
  | .punct '?' _ => takePunct '?' [.afterOperand]
  | _ => skip

/-- The number of a field, as it is written. -/
def indexTree (n : Nat) : Tree := .literal (Nat.toDigits 10 n)

/-- The fields that a number with a point selects, as they are written after a point. -/
def selectionTrees : List Nat → List Tree
  | [] => []
  | [n] => [indexTree n]
  | n :: more => indexTree n :: .punct '.' false :: selectionTrees more

/-- A number that selects fields. -/
def numberMember (fraction : Bool) (literal : List Char) : Action :=
  match Number.ofLiteral? literal, fraction with
  | some (.integer _ _), _ =>
    match indexOf literal with
    | .ok n => take 0 [indexTree n] [.afterOperand]
    | .error problem => fail problem
  | some .fraction, true =>
    match Selection.ofLiteral literal with
    | .ok s =>
      if s.hasPoint then take 0 (selectionTrees s.fields ++ [.punct '.' false]) [.member false]
      else take 0 (selectionTrees s.fields) [.afterOperand]
    | .error problem => fail problem
  | _, _ => expected .member

/-- A number after a minus sign, which selects nothing. -/
def signedMember (fraction : Bool) (literal : List Char) : Action :=
  match Number.ofLiteral? literal, fraction with
  | some (.integer _ _), _ => fail (signedProblem literal)
  | some .fraction, true => fail (signedProblem (literal.takeWhile (· != '.')))
  | _, _ => expected .member

/-- Where a member has to stand after a point. -/
def member (fraction : Bool) (t : Tree) (rest : List Tree) : Action :=
  match t, rest with
  | .literal text, _ => numberMember fraction text
  | .punct '-' _, .literal text :: _ => signedMember fraction text
  | .name word, _ =>
    if t.isWord "await" then take 0 [t] [.afterOperand]
    else if isKeyword word then expected .member
    else take 0 [t] [.afterMember, .afterOperand]
  | _, _ => expected .member

/-- After the name of a member. Generic arguments make it a method. -/
def afterMember (t : Tree) (rest : List Tree) : Action :=
  let trees := t :: rest
  if colonsBefore (Tree.isPunct '<') trees then
    enterArguments 2 (Tree.operator doubleColon ++ Tree.operator ['<']) [.methodArguments]
  else if Tree.startsWith doubleColon trees then
    takeOperator doubleColon [.operator ['<']]
  else skip

/-- After an element of an array. Only after the first one may there be a length. -/
def afterArrayElement (t : Tree) : Action :=
  if t.isPunct ',' then takePunct ',' [.elements]
  else if t.isPunct ';' then takePunct ';' [.expression]
  else expected .commaOrSemicolon

/-- Where the value of a field has to stand in a struct. -/
def fieldValue (t : Tree) : Action :=
  match t with
  | .punct '#' _ => takePunct '#' [.attributeBrackets, .fieldValue]
  | .name word =>
    if isKeyword word then expected .member else take 0 [t] [.afterFieldName]
  | .literal text =>
    match Number.ofLiteral? text with
    | some (.integer _ _) =>
      match indexOf text with
      | .ok n => take 0 [indexTree n] [.operator [':'], .expression]
      | .error problem => fail problem
    | _ => expected .member
  | _ => expected .member

/-- Where fields of a struct or the end may stand. The other fields may be taken from a value. -/
def fieldValues (t : Tree) (rest : List Tree) : Action :=
  if Tree.startsWith ['.', '.'] (t :: rest) then
    takeOperator ['.', '.'] (if rest.length ≤ 1 then [] else [.expression])
  else (fieldValue t).andThen [.afterFieldValue]

/-- After the name of a field in a struct. -/
def afterFieldName (t : Tree) : Action :=
  if t.isPunct ':' then takePunct ':' [.expression] else skip

end Action

/-! ## Operators between operands

How tightly operators bind does not change how an expression is written. It matters for what may
not stand together: a comparison is not compared again, and a range ends an expression but for
operators that bind more tightly.
-/

/-- How tightly an operator binds, as far as it matters. -/
inductive Binding where
  | assignment
  | logic
  | comparison
  | arithmetic
deriving DecidableEq, Repr

/-- Operators between two operands, longer ones first. -/
def binaryOperators : List (String × Binding) :=
  [("<<=", .assignment), (">>=", .assignment), ("+=", .assignment), ("-=", .assignment),
    ("*=", .assignment), ("/=", .assignment), ("%=", .assignment), ("^=", .assignment),
    ("&=", .assignment), ("|=", .assignment), ("&&", .logic), ("||", .logic), ("<<", .arithmetic),
    (">>", .arithmetic), ("==", .comparison), ("<=", .comparison), ("!=", .comparison),
    (">=", .comparison), ("+", .arithmetic), ("-", .arithmetic), ("*", .arithmetic),
    ("/", .arithmetic), ("%", .arithmetic), ("^", .arithmetic), ("&", .arithmetic),
    ("|", .arithmetic), ("<", .comparison), (">", .comparison)]

/-- The operator between operands at the start of trees. -/
def binaryOperator? (trees : List Tree) : Option (String × Binding) :=
  binaryOperators.find? fun (text, _) => Tree.startsWith text.toList trees

/-- An equals sign that is no arrow. -/
def startsAssignment (trees : List Tree) : Bool :=
  Tree.startsWith ['='] trees && !Tree.startsWith ['=', '>'] trees

namespace Action

/-- An assignment with this operator. -/
def assignment (ranged : Bool) (text : List Char) : Action :=
  if ranged then skip else takeOperator text [.operand, .operators false false]

/-- An operator between operands. -/
def binary (compared ranged : Bool) (text : List Char) (binding : Binding) : Action :=
  match binding with
  | .assignment => assignment ranged text
  | .logic => takeOperator text [.operand, .operators false ranged]
  | .comparison =>
    if compared then fail .chainedComparison
    else takeOperator text [.operand, .operators true ranged]
  | .arithmetic => takeOperator text [.operand, .operators compared ranged]

/-- After an operand with all that belongs to it. -/
def operators (compared ranged : Bool) (t : Tree) (rest : List Tree) : Action :=
  let trees := t :: rest
  match binaryOperator? trees with
  | some (text, binding) => binary compared ranged text.toList binding
  | none =>
    if t.isWord "as" then take 0 [t] [.type false, .afterCast, .operators compared ranged]
    else if startsAssignment trees then assignment ranged ['=']
    else if Tree.startsWith ['.', '.'] trees && !ranged then range t rest
    else skip

/-- What a point after a cast would select. -/
def selectedAfterCast (trees : List Tree) : String :=
  match trees with
  | .name word :: more =>
    let isCall := match more with
      | u :: _ => u.isParenthesized || Tree.startsWith doubleColon more
      | [] => false
    if word = "await".toList then "`.await`"
    else if !isKeyword word && isCall then "a method call"
    else "a field access"
  | _ => "a field access"

/-- After a cast, which nothing may belong to. -/
def afterCast (t : Tree) (rest : List Tree) : Action :=
  match t with
  | .group .parenthesis _ => fail (.afterCast "a function call")
  | .group .bracket _ => fail (.afterCast "indexing")
  | .punct '?' _ => fail (.afterCast "`?`")
  | .punct '.' _ =>
    if Tree.startsWith ['.', '.'] (t :: rest) then skip
    else fail (.afterCast (selectedAfterCast rest))
  | _ => skip

/-- Where an expression has to stand. -/
def expression (t : Tree) (rest : List Tree) : Action :=
  if Tree.startsWith ['.', '.'] (t :: rest) then range t rest
  else (operand t rest).andThen [.operators false false]

end Action

end PowerRule.Declaration
