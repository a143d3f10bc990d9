import PowerRule.Declaration.Parser

/-!
# Declared kinds of errors

A struct with the attribute `error` declares a kind of errors. The arguments of the attribute are
tags, and the expressions of the tags are what the code for it is made of.
-/

namespace PowerRule.Declaration

/-! ## Tags

The arguments of the attribute `error` are tags: a name, an equals sign and an expression each,
with commas between them and one allowed after the last. The tags may come in any order, each at
most once.
-/

/-- Why a declaration is refused. -/
inductive Refusal where
  /-- The parser says this. -/
  | unparsed (message : List Char)
  /-- A tag starts with something else than a name. -/
  | notIdentifier
  | keyword (word : List Char)
  | noEquals
  | noComma
  | unknownTag (name : List Char)
  | duplicateTag (name : List Char)
  /-- The attribute is a path alone. -/
  | missingArguments
  /-- The attribute has a value in place of arguments. -/
  | valueForArguments
  | missingAttribute
  | missingMessage
deriving DecidableEq, Repr

/-- The message of a refusal. -/
def Refusal.message : Refusal → List Char
  | unparsed message => message
  | notIdentifier => "expected identifier".toList
  | keyword word => "expected identifier, found keyword `".toList ++ word ++ "`".toList
  | noEquals => "expected `=`".toList
  | noComma => "expected `,`".toList
  | unknownTag name => "unknown tag `".toList ++ name ++ "`".toList
  | duplicateTag name => "duplicate tag `".toList ++ name ++ "`".toList
  | missingArguments => "expected attribute arguments in parentheses: #[error(...)]".toList
  | valueForArguments => "expected parentheses: #[error(...)]".toList
  | missingAttribute => "missing `#[error(...)]` attribute".toList
  | missingMessage => "the `error` attribute requires a `message` tag".toList

/-- The tags that there are. -/
inductive Tag where
  | message
  | labels
  | help
deriving DecidableEq, Repr

/-- The tag of a name. -/
def Tag.ofName? (name : List Char) : Option Tag :=
  if name = "message".toList then some message
  else if name = "labels".toList then some labels
  else if name = "help".toList then some help
  else none

/-- The expressions of the tags that are given. -/
structure Tags where
  message : Option (List Tree) := none
  labels : Option (List Tree) := none
  help : Option (List Tree) := none
deriving Repr

/-- Reads a name that is no keyword. -/
def readIdentifier : Tree → Except Refusal (List Char)
  | .name word => if isKeyword word then .error (.keyword word) else .ok word
  | _ => .error .notIdentifier

namespace Tags

/-- The expression of a tag. -/
def get? (tags : Tags) : Tag → Option (List Tree)
  | .message => tags.message
  | .labels => tags.labels
  | .help => tags.help

/-- The tags with one more. -/
def set (tags : Tags) (tag : Tag) (expression : List Tree) : Tags :=
  match tag with
  | .message => { tags with message := some expression }
  | .labels => { tags with labels := some expression }
  | .help => { tags with help := some expression }

/-- The tag that a name stands for, if it can still be given. -/
def vacant (tags : Tags) (name : List Char) : Except Refusal Tag :=
  match Tag.ofName? name with
  | none => .error (.unknownTag name)
  | some tag => if (tags.get? tag).isSome then .error (.duplicateTag name) else .ok tag

/-- Reads tags to the end, after those that were read before; `leftover` is what the first of these
says that leaves something over. -/
def readMore (parser : Parser) (tags : Tags) (leftover : Option (List Char)) (trees : List Tree) :
    Except Refusal (Tags × Option (List Char)) :=
  match trees with
  | [] => .ok (tags, leftover)
  | t :: rest => do
    let name ← readIdentifier t
    match rest with
    | .punct '=' _ :: value =>
      let tag ← tags.vacant name
      let parsed ← (parser.expression value).mapError .unparsed
      let tags := tags.set tag parsed.value
      let leftover := leftover.or parsed.leftover
      match _h : value.drop parsed.consumed with
      | [] => .ok (tags, leftover)
      | .punct ',' _ :: rest => readMore parser tags leftover rest
      | _ => .error .noComma
    | _ => .error .noEquals
termination_by trees.length
decreasing_by
  have hlen := congrArg List.length _h
  simp only [List.length_drop, List.length_cons] at hlen ⊢
  omega

/-- Reads the tags of an attribute. That something is left over in a group matters only if there is
nothing else to refuse. -/
def read (parser : Parser) (trees : List Tree) : Except Refusal Tags := do
  let (tags, leftover) ← readMore parser {} none trees
  match leftover with
  | some message => throw (.unparsed message)
  | none => return tags

end Tags

/-- The tags in the arguments of an attribute. -/
def Arguments.tags (parser : Parser) : Arguments → Except Refusal Tags
  | absent => .error .missingArguments
  | value _ => .error .valueForArguments
  | list _ content => Tags.read parser content

/-! ## Declared kinds of errors

A struct with the attribute `error` declares a kind of errors. What is kept of its source is all
that the code for it is made of: the name, the fields, and the expressions of the tags.
-/

/-- A struct with its attributes. -/
structure Struct where
  attributes : List Attribute
  item : Item
  /-- What there is to say if something is left over, in a group or after the struct. -/
  leftover : Option (List Char)
deriving Repr

/-- What is said of trees after the struct. -/
def unexpectedToken : List Char := "unexpected token".toList

namespace Struct

/-- Reads all attributes, then the struct. -/
def read (parser : Parser) (trees : List Tree) : Except Refusal Struct := do
  let attributes ← (parser.attributes trees).mapError .unparsed
  let item ← (parser.item (trees.drop attributes.consumed)).mapError .unparsed
  let rest := (trees.drop attributes.consumed).drop item.consumed
  let atEnd := if rest.isEmpty then none else some unexpectedToken
  return ⟨attributes.value, item.value, (attributes.leftover.or item.leftover).or atEnd⟩

/-- Reads a source. -/
def ofSource (parser : Parser) (source : List Char) : Except Refusal Struct := do
  let trees ← (parser.trees source).mapError .unparsed
  read parser trees

/-- The tags of a struct: those of the first attribute `error`, and of no other. -/
def tags (parser : Parser) (s : Struct) : Except Refusal Tags :=
  match s.attributes.find? (Attribute.isNamed "error") with
  | none => .error .missingAttribute
  | some a => a.arguments.tags parser

end Struct

/-- A declared kind of errors. -/
structure Target where
  name : List Char
  fields : Fields
  message : List Tree
  labels : Option (List Tree)
  help : Option (List Tree)
deriving Repr

namespace Target

/-- What a struct declares. -/
def ofStruct (parser : Parser) (s : Struct) : Except Refusal Target := do
  let tags ← s.tags parser
  match tags.message with
  | none => .error .missingMessage
  | some message =>
    match s.leftover with
    | some said => .error (.unparsed said)
    | none => .ok ⟨s.item.name, s.item.fields, message, tags.labels, tags.help⟩

/-- What the source of a struct declares. -/
def ofSource (parser : Parser) (source : List Char) : Except Refusal Target := do
  let s ← Struct.ofSource parser source
  ofStruct parser s

end Target

end PowerRule.Declaration
