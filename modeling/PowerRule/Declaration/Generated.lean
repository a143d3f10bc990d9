import PowerRule.Declaration.Target

/-!
# Generated code

The code for a declared kind of errors is an implementation of a trait: a function that is the same
for all of them, a function for the message, and one that builds a report. The last two take the
value apart first, so that the expressions of the tags can use its fields by name.
-/

namespace PowerRule.Declaration

/-! ## Pieces of code -/

namespace Tree

/-- A name. -/
def word (text : String) : Tree := name text.toList

/-- Trees in parentheses. -/
def parens (content : List Tree) : Tree := group .parenthesis content

/-- Trees in brackets. -/
def brackets (content : List Tree) : Tree := group .bracket content

/-- Trees in braces. -/
def braces (content : List Tree) : Tree := group .brace content

/-- A punctuation character that is not joined to the next one. -/
def mark (char : Char) : Tree := punct char false

/-- A lifetime. -/
def lifetime (text : String) : List Tree := [punct '\'' true, word text]

/-- The double colon between the names of a path. -/
def colons : List Tree := operator [':', ':']

/-- Names with double colons between them. -/
def path : List String → List Tree
  | [] => []
  | [last] => [word last]
  | first :: rest => word first :: colons ++ path rest

/-- A call of a method after what it is called for. -/
def call (method : String) (arguments : List Tree) : List Tree :=
  [mark '.', word method, parens arguments]

/-- Names with commas between them. -/
def nameList : List (List Char) → List Tree
  | [] => []
  | [last] => [name last]
  | first :: rest => name first :: mark ',' :: nameList rest

/-- The attribute before the statement that takes a value apart. -/
def allowUnused : List Tree := [mark '#', brackets [word "allow", parens [word "unused_variables"]]]

end Tree

/-- The statement that takes a value of this name apart into its fields. None is needed without
fields, and with unnamed ones there is an error instead. -/
def destructuring (name : List Char) : Fields → List Tree
  | .named fields =>
    [.word "let", .name name, .braces (Tree.nameList (fields.map Prod.fst)), .mark '=',
      .word "self", .mark ';']
  | .unnamed _ =>
    [.word "compile_error", .mark '!',
      .parens [.literal "\"`ErrorKind` cannot be derived for tuple structs\"".toList], .mark ';']
  | .unit => []

namespace Target

open PowerRule.Declaration.Tree

/-! ## The two functions -/

/-- A function: its name and what follows it up to its body, and what it does after a value is taken
apart. -/
def function (t : Target) (name : String) (signature body : List Tree) : List Tree :=
  word "fn" :: word name :: signature ++
    [braces (allowUnused ++ destructuring t.name t.fields ++ body)]

/-- The function for the message. -/
def messageFunction (t : Target) : List Tree :=
  t.function "message" (parens [mark '&', word "self"] :: operator ['-', '>'] ++ [word "String"])
    (parens t.message :: call "to_string" [])

/-- The type of spans. -/
def spanType : List Tree :=
  path ["std", "ops", "Range"] ++ [mark '<', word "usize", mark '>']

/-- What stands between the name of the function that builds a report and its body. -/
def reportSignature : List Tree :=
  mark '<' :: lifetime "a" ++
    [mark '>',
      parens ([mark '&', word "self", mark ',', word "src_id", mark ':', mark '&'] ++
        lifetime "a" ++ [word "str", mark ',', word "spans", mark ':', mark '&',
          brackets spanType, mark ','])] ++
    operator ['-', '>'] ++ path ["ariadne", "Report"] ++
    [mark '<', parens (mark '&' :: lifetime "a" ++ [word "str", mark ','] ++ spanType), mark '>']

/-- The start of the report, located at the first span. -/
def reportStart : List Tree :=
  [word "let", word "mut", word "builder", mark '='] ++ path ["ariadne", "Report", "build"] ++
    [parens (path ["ariadne", "ReportKind", "Error"] ++
      [mark ',', word "src_id", mark ',', word "spans", brackets [.literal ['0']], mark '.',
        word "start"])]

/-- What makes the label of a text and a span. An empty text is left out. -/
def labelBody : List Tree :=
  [word "let", word "mut", word "label", mark '='] ++ path ["ariadne", "Label", "new"] ++
    [parens [parens ([word "src_id", mark ',', word "span"] ++ call "clone" [])]] ++
    call "with_color" (path ["deriv_error", "EXPR"]) ++
    [mark ';', word "if", mark '!', word "label_str"] ++ call "is_empty" [] ++
    [braces ([word "label", mark '=', word "label"] ++ call "with_message" [word "label_str"] ++
      [mark ';']), word "label"]

/-- One label without text. -/
def emptyLabel : List Tree := [brackets [.literal ['"', '"']]]

/-- The labels: an empty one if there is no tag. -/
def labelTexts (t : Target) : List Tree := t.labels.getD emptyLabel

/-- The labels, each with a span, as long as there are both. -/
def labelsArgument (t : Target) : List Tree :=
  t.labelTexts ++ call "into_iter" [] ++ call "zip" (word "spans" :: call "iter" []) ++
    call "map" [mark '|', parens [word "label_str", mark ',', word "span"], mark '|',
      braces labelBody] ++
    [mark '.', word "collect"] ++ colons ++ [mark '<', word "Vec", mark '<', word "_"] ++
    operator ['>', '>'] ++ [parens []]

/-- The statement that sets the help text, if there is one. -/
def helpStatement (t : Target) : List Tree :=
  match t.help with
  | some help => word "builder" :: call "set_help" help ++ [mark ';']
  | none => []

/-- The function that builds a report. -/
def reportFunction (t : Target) : List Tree :=
  t.function "build_report" reportSignature
    (reportStart ++ call "with_message" t.message ++ call "with_labels" t.labelsArgument ++
      [mark ';'] ++ t.helpStatement ++ word "builder" :: call "finish" [])

/-- The two functions, one after the other. -/
def functions (t : Target) : List Tree := t.messageFunction ++ t.reportFunction

/-! ## The implementation -/

/-- The function that is the same for all kinds of errors. -/
def asAny : List Tree :=
  [word "fn", word "as_any", parens [mark '&', word "self"]] ++ operator ['-', '>'] ++
    [mark '&', word "dyn"] ++ path ["std", "any", "Any"] ++ [braces [word "self"]]

/-- The code for a declared kind of errors. -/
def generated (t : Target) : List Tree :=
  [word "impl", word "ErrorKind", word "for", .name t.name, braces (asAny ++ t.functions)]

end Target

end PowerRule.Declaration
