/-!
# Token trees and their parser

The source of a declaration is a sequence of token trees. What is written in them is read by a
parser of which nothing else is known.
-/

namespace PowerRule.Declaration

/-! ## Token trees

The source of a declaration is a sequence of trees: names, punctuation characters, literals, and
groups in balanced delimiters. A tree is written on one line (`Tree.textOf`), with one space between
neighbours except after a punctuation character that is joined to the next one.
-/

/-- What encloses a group. -/
inductive Delimiter where
  | parenthesis
  | bracket
  | brace
deriving DecidableEq, Repr

/-- A tree. Keywords are names as well; a raw name keeps its mark. -/
inductive Tree where
  | name (text : List Char)
  | punct (char : Char) (joined : Bool)
  | literal (text : List Char)
  | group (delimiter : Delimiter) (content : List Tree)
deriving Repr

namespace Delimiter

/-- What is written before the content of a group. -/
def opening : Delimiter → List Char
  | parenthesis => ['(']
  | bracket => ['[']
  | brace => ['\x7b', ' ']

/-- What is written after the content of a group. -/
def closing : Delimiter → List Char
  | parenthesis => [')']
  | bracket => [']']
  | brace => ['\x7d']

end Delimiter

namespace Tree

/-- The tree is joined to the one after it. -/
def isJoined : Tree → Bool
  | punct _ joined => joined
  | _ => false

mutual

/-- A tree on one line. Inside braces there is a space at both ends. -/
def text : Tree → List Char
  | name text => text
  | punct char _ => [char]
  | literal text => text
  | group d [] => d.opening ++ d.closing
  | group .brace content => Delimiter.brace.opening ++ textOf content ++ " \x7d".toList
  | group d content => d.opening ++ textOf content ++ d.closing

/-- Trees on one line. -/
def textOf : List Tree → List Char
  | [] => []
  | [t] => t.text
  | t :: rest => t.text ++ (if t.isJoined then [] else [' ']) ++ textOf rest

end

/-- The characters of one operator: all but the last are joined. -/
def operator : List Char → List Tree
  | [] => []
  | [c] => [punct c false]
  | c :: rest => punct c true :: operator rest

/-- The tree is this word. -/
def isWord (word : String) : Tree → Bool
  | name found => found == word.toList
  | _ => false

/-- The tree is this punctuation character, joined or not. -/
def isPunct (char : Char) : Tree → Bool
  | punct found _ => found == char
  | _ => false

/-- The tree is a group in parentheses. -/
def isParenthesized : Tree → Bool
  | group .parenthesis _ => true
  | _ => false

/-- The trees start with these characters, joined to each other. -/
def startsWith : List Char → List Tree → Bool
  | [], _ => true
  | [c], punct d _ :: _ => c == d
  | c :: cs, punct d true :: rest => c == d && startsWith cs rest
  | _, _ => false

end Tree

/-- The words that are not names unless they are raw. -/
def keywords : List String :=
  ["_", "abstract", "as", "async", "await", "become", "box", "break", "const", "continue", "crate",
    "do", "dyn", "else", "enum", "extern", "false", "final", "fn", "for", "if", "impl", "in", "let",
    "loop", "macro", "match", "mod", "move", "mut", "override", "priv", "pub", "ref", "return",
    "Self", "self", "static", "struct", "super", "trait", "true", "try", "type", "typeof", "unsafe",
    "unsized", "use", "virtual", "where", "while", "yield"]

/-- The word is a keyword. -/
def isKeyword (word : List Char) : Bool := keywords.contains (String.ofList word)

/-! ## The parser of the language

Declarations are written in a language with a parser of its own, of which nothing is known here but
what it is called for: it divides a source into trees, and reads attributes, a struct and an
expression at the start of trees. All that is done with declarations takes such a parser
(`Parser`). Lists of tags rely on one thing more, namely that an expression ends where it ends,
whatever follows the comma after it (`Parser.ReadsItems`).
-/

/-! ### What is parsed -/

/-- What follows the path of an attribute. -/
inductive Arguments where
  | absent
  | value (expression : List Tree)
  | list (delimiter : Delimiter) (content : List Tree)
deriving Repr

/-- An attribute. The names of its path lie between double colons; a rooted path starts with one. -/
structure Attribute where
  rooted : Bool
  path : List (List Char)
  arguments : Arguments
deriving Repr

/-- The path is this one name. -/
def Attribute.isNamed (name : String) (a : Attribute) : Bool :=
  !a.rooted && a.path == [name.toList]

/-- A field of a struct, its name apart. -/
structure Field where
  attributes : List Attribute
  visibility : List Tree
  type : List Tree
deriving Repr

/-- The fields of a struct. -/
inductive Fields where
  | named (fields : List (List Char × Field))
  | unnamed (fields : List Field)
  | unit
deriving Repr

/-- A struct without the attributes before it. -/
structure Item where
  visibility : List Tree
  name : List Char
  /-- The generic parameters. -/
  generics : List Tree
  fields : Fields
deriving Repr

/-- What was parsed at the start of trees. -/
structure Parsed (α : Type) where
  value : α
  /-- How many trees it takes up. -/
  consumed : Nat
  /-- What there is to say if something in a group is left over. It is said when all the rest is
  parsed. -/
  leftover : Option (List Char)
deriving Repr

/-! ### Parsers -/

/-- What parses declarations. Each function gives what it finds or says why it finds nothing. -/
structure Parser where
  /-- The trees of a source. -/
  trees : List Char → Except (List Char) (List Tree)
  /-- All attributes at the start of trees. -/
  attributes : List Tree → Except (List Char) (Parsed (List Attribute))
  /-- The struct at the start of trees. -/
  item : List Tree → Except (List Char) (Parsed Item)
  /-- The expression at the start of trees, as it is written out again. -/
  expression : List Tree → Except (List Char) (Parsed (List Tree))

/-- The trees are at their end, or at a comma. -/
inductive EndsItem : List Tree → Prop where
  | nil : EndsItem []
  | comma {joined : Bool} {rest : List Tree} : EndsItem (.punct ',' joined :: rest)

/-- The parser reads one expression, up to the next comma: if there are these trees and then the end
or a comma, it reads the same whatever comes after that. -/
structure Parser.ReadsItems (parser : Parser) : Prop where
  /-- An expression is made of trees that are there. -/
  consumed_le : ∀ {trees r}, parser.expression trees = .ok r → r.consumed ≤ trees.length
  ends : ∀ {taken rest rest' r}, parser.expression (taken ++ rest) = .ok r →
    r.consumed = taken.length → EndsItem rest → EndsItem rest' →
    parser.expression (taken ++ rest') = .ok r

end PowerRule.Declaration
