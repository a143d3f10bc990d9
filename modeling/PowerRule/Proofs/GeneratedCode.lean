import Mathlib.Data.List.Basic
import PowerRule.Proofs.DeclaredTarget

/-!
# What the generated code depends on

The code for a declared kind of errors is determined by the name, the fields, as far as they have
names, and the expressions of the tags, and determines these in turn (`Target.generated_eq_iff`).
So nothing else of an accepted source matters, whatever parser reads it (`generated_determined`).
The code is an implementation for the declared name, and its two functions take the value apart
before anything else, by a pattern that names the fields one by one in their order (`pattern`).
-/

namespace PowerRule.Declaration

/-- What code depends on of the fields of a struct: the names of named ones in their order. -/
inductive Shape where
  | named (names : List (List Char))
  | unnamed
  | unit

/-- The shape of fields. -/
def Fields.shape : Fields → Shape
  | named fields => .named (fields.map Prod.fst)
  | unnamed _ => .unnamed
  | unit => .unit

/-- The source is read as this struct, and its first attribute that is exactly `error` has these
tags. -/
def Declares (parser : Parser) (source : List Char) (s : Struct) (tags : Tags) : Prop :=
  Struct.ofSource parser source = .ok s ∧
    ∃ trees, s.IsTagged trees ∧ Tags.read parser trees = .ok tags

/-- The implementation of the trait for this name. -/
def implementation (name : List Char) (content : List Tree) : List Tree :=
  [.word "impl", .word "ErrorKind", .word "for", .name name, .braces content]

/-- The statement that takes a value apart: the names of its fields stand in braces, with commas
between them. -/
def pattern (name : List Char) (fields : List (List Char)) : List Tree :=
  [.word "let", .name name, .braces ((fields.map Tree.name).intersperse (.mark ',')), .mark '=',
    .word "self", .mark ';']

/-- The code is a function of this name. Its body is all that is in braces; there this statement is
the first, after an attribute. -/
def IsFunction (name : String) (statement code : List Tree) : Prop :=
  ∃ signature rest, (∀ content, .braces content ∉ signature) ∧
    code = .word "fn" :: .word name :: signature ++
      [.braces (Tree.allowUnused ++ statement ++ rest)]

variable {parser : Parser}

/-! ## What a source declares -/

/-- A source declares a struct with the tags that are read from it. -/
lemma declares_iff {source : List Char} {s : Struct} {tags : Tags} :
    Declares parser source s tags ↔
      Struct.ofSource parser source = .ok s ∧ s.tags parser = .ok tags := by
  constructor
  · rintro ⟨hs, trees, htagged, hread⟩
    exact ⟨hs, htagged.tags_eq.trans hread⟩
  · rintro ⟨hs, htags⟩
    exact ⟨hs, Struct.exists_isTagged htags⟩

/-- A source declares only one struct, and tags in one way. -/
lemma Declares.unique {source : List Char} {s s' : Struct} {tags tags' : Tags}
    (h : Declares parser source s tags) (h' : Declares parser source s' tags') :
    s' = s ∧ tags' = tags := by
  obtain ⟨hs, htags⟩ := declares_iff.mp h
  obtain ⟨hs', htags'⟩ := declares_iff.mp h'
  cases hs.symm.trans hs'
  cases htags.symm.trans htags'
  exact ⟨rfl, rfl⟩

/-- The parts of an accepted source are those of the struct and the tags that it declares. -/
lemma Target.ofSource_eq_ok_iff {source : List Char} {t : Target} :
    Target.ofSource parser source = .ok t ↔ ∃ s tags, Declares parser source s tags ∧
      s.leftover = none ∧ t.name = s.item.name ∧ t.fields = s.item.fields ∧
        tags.message = some t.message ∧ tags.labels = t.labels ∧ tags.help = t.help := by
  cases hs : Struct.ofSource parser source with
  | error refusal =>
    have hofSource : Target.ofSource parser source = .error refusal := by
      unfold Target.ofSource
      rw [hs]
      rfl
    rw [hofSource]
    constructor
    · exact fun h => by cases h
    · rintro ⟨s, tags, hdeclares, -⟩
      cases hs.symm.trans (declares_iff.mp hdeclares).1
  | ok s =>
    have hofSource : Target.ofSource parser source = Target.ofStruct parser s := by
      unfold Target.ofSource
      rw [hs]
      rfl
    rw [hofSource, Target.ofStruct_eq_ok_iff_tags]
    constructor
    · rintro ⟨hleftover, hname, hfields, tags, htags, hrest⟩
      exact ⟨s, tags, declares_iff.mpr ⟨hs, htags⟩, hleftover, hname, hfields, hrest⟩
    · rintro ⟨s', tags, hdeclares, hleftover, hname, hfields, hrest⟩
      obtain ⟨hs', htags⟩ := declares_iff.mp hdeclares
      cases hs.symm.trans hs'
      exact ⟨hleftover, hname, hfields, tags, htags, hrest⟩

/-! ## Taking a value apart -/

/-- Names with commas between them are names with a comma put between any two. -/
lemma Tree.nameList_eq (names : List (List Char)) :
    nameList names = (names.map Tree.name).intersperse (mark ',') := by
  induction names with
  | nil => rfl
  | cons name names ih =>
    cases names with
    | nil => rfl
    | cons next names =>
      show Tree.name name :: mark ',' :: nameList (next :: names) = _
      rw [ih]
      rfl

/-- The names can be told from the list. -/
lemma Tree.nameList_injective {names names' : List (List Char)}
    (h : nameList names = nameList names') : names = names' := by
  induction names generalizing names' with
  | nil =>
    cases names' with
    | nil => rfl
    | cons name' names' => cases names' <;> cases h
  | cons name names ih =>
    cases names' with
    | nil => cases names <;> cases h
    | cons name' names' =>
      cases names with
      | nil =>
        cases names' with
        | nil =>
          cases h
          rfl
        | cons next' names' => cases h
      | cons next names =>
        cases names' with
        | nil => cases h
        | cons next' names' =>
          obtain ⟨hname, htail⟩ := List.cons.inj h
          cases hname
          rw [ih (List.cons.inj htail).2]

/-- With named fields a value is taken apart by the pattern. -/
lemma destructuring_named (name : List Char) (fields : List (List Char × Field)) :
    destructuring name (.named fields) = pattern name (fields.map Prod.fst) := by
  rw [destructuring, pattern, Tree.nameList_eq]

/-- How a value is taken apart depends on the shape of the fields. -/
lemma destructuring_congr (name : List Char) {fields fields' : Fields}
    (h : fields.shape = fields'.shape) :
    destructuring name fields = destructuring name fields' := by
  cases fields with
  | named fields =>
    cases fields' with
    | named fields' =>
      rw [destructuring_named, destructuring_named, Shape.named.inj h]
    | unnamed fields' => cases h
    | unit => cases h
  | unnamed fields => cases fields' <;> first | rfl | cases h
  | unit => cases fields' <;> first | rfl | cases h

/-- The shape of the fields can be told from how a value is taken apart. -/
lemma shape_eq_of_destructuring {name name' : List Char} {fields fields' : Fields}
    (h : destructuring name fields = destructuring name' fields') :
    fields.shape = fields'.shape := by
  have hlength := congrArg List.length h
  cases fields with
  | named fields =>
    cases fields' with
    | named fields' =>
      have hnames := (List.cons.inj (List.cons.inj (List.cons.inj h).2).2).1
      exact congrArg Shape.named (Tree.nameList_injective (Tree.group.inj hnames).2)
    | unnamed fields' => cases hlength
    | unit => cases hlength
  | unnamed fields => cases fields' <;> first | rfl | cases hlength
  | unit => cases fields' <;> first | rfl | cases hlength

/-! ## What code determines -/

namespace Target

open PowerRule.Declaration.Tree

variable {t t' : Target}

/-- The code is an implementation of the three functions for the name. -/
lemma generated_eq (t : Target) :
    t.generated = implementation t.name (asAny ++ t.messageFunction ++ t.reportFunction) := by
  rw [generated, implementation, functions, List.append_assoc]

/-- Functions with the same name and signature have the same code exactly if they do the same. -/
lemma function_eq_iff {name : String} {signature body body' : List Tree} :
    t.function name signature body = t'.function name signature body' ↔
      destructuring t.name t.fields ++ body = destructuring t'.name t'.fields ++ body' := by
  unfold function
  constructor
  · intro h
    have hbody := List.append_cancel_left (List.cons.inj (List.cons.inj h).2).2
    rw [List.append_assoc, List.append_assoc] at hbody
    exact List.append_cancel_left (Tree.group.inj (List.cons.inj hbody).1).2
  · intro h
    rw [List.append_assoc, List.append_assoc, h]

/-- The function for the message determines the message and how the value is taken apart. -/
lemma messageFunction_eq_iff : t.messageFunction = t'.messageFunction ↔
    destructuring t.name t.fields = destructuring t'.name t'.fields ∧ t.message = t'.message := by
  unfold messageFunction
  rw [function_eq_iff]
  constructor
  · intro h
    obtain ⟨hpattern, hmessage⟩ := List.append_inj' h rfl
    exact ⟨hpattern, (Tree.group.inj (List.cons.inj hmessage).1).2⟩
  · rintro ⟨hpattern, hmessage⟩
    rw [hpattern, hmessage]

/-- What is done for the labels determines their texts. -/
lemma labelsArgument_eq_iff :
    t.labelsArgument = t'.labelsArgument ↔ t.labelTexts = t'.labelTexts := by
  unfold labelsArgument
  simp only [List.append_assoc]
  exact List.append_left_inj _

/-- The statement for the help text determines it. -/
lemma helpStatement_eq_iff : t.helpStatement = t'.helpStatement ↔ t.help = t'.help := by
  unfold helpStatement
  constructor
  · intro h
    cases hhelp : t.help with
    | none =>
      cases hhelp' : t'.help with
      | none => rfl
      | some help' =>
        rw [hhelp, hhelp'] at h
        cases h
    | some help =>
      cases hhelp' : t'.help with
      | none =>
        rw [hhelp, hhelp'] at h
        cases h
      | some help' =>
        rw [hhelp, hhelp'] at h
        cases h
        rfl
  · intro h
    rw [h]

/-- If values are taken apart in the same way, the function that builds a report determines all
three expressions. -/
lemma reportFunction_eq_iff
    (h : destructuring t.name t.fields = destructuring t'.name t'.fields) :
    t.reportFunction = t'.reportFunction ↔
      t.message = t'.message ∧ t.labelTexts = t'.labelTexts ∧ t.help = t'.help := by
  unfold reportFunction
  rw [function_eq_iff, h, List.append_cancel_left_eq]
  constructor
  · intro hbody
    simp only [List.append_assoc] at hbody
    obtain ⟨hmessage, hbody⟩ := List.append_inj (List.append_cancel_left hbody) rfl
    obtain ⟨hlabels, hbody⟩ := List.append_inj hbody rfl
    obtain ⟨hhelp, -⟩ := List.append_inj' (List.append_cancel_left hbody) rfl
    have hmessage := (List.cons.inj (List.cons.inj (List.cons.inj hmessage).2).2).1
    have hlabels := (List.cons.inj (List.cons.inj (List.cons.inj hlabels).2).2).1
    exact ⟨(Tree.group.inj hmessage).2, labelsArgument_eq_iff.mp (Tree.group.inj hlabels).2,
      helpStatement_eq_iff.mp hhelp⟩
  · rintro ⟨hmessage, hlabels, hhelp⟩
    rw [hmessage, labelsArgument_eq_iff.mpr hlabels, helpStatement_eq_iff.mpr hhelp]

/-- Two kinds of errors have the same code exactly if they agree on the name, on the shape of the
fields, and on the expressions of the tags, where labels may be empty or missing. -/
theorem generated_eq_iff : t.generated = t'.generated ↔
    t.name = t'.name ∧ t.fields.shape = t'.fields.shape ∧ t.message = t'.message ∧
      t.labelTexts = t'.labelTexts ∧ t.help = t'.help := by
  rw [generated_eq, generated_eq, List.append_assoc, List.append_assoc]
  constructor
  · intro h
    obtain ⟨hname, hcontent⟩ :=
      List.cons.inj (List.cons.inj (List.cons.inj (List.cons.inj h).2).2).2
    have hfunctions := (Tree.group.inj (List.cons.inj hcontent).1).2
    obtain ⟨hmessage, hreport⟩ := List.append_inj (List.append_cancel_left hfunctions) rfl
    obtain ⟨hpattern, -⟩ := messageFunction_eq_iff.mp hmessage
    exact ⟨Tree.name.inj hname, shape_eq_of_destructuring hpattern,
      (reportFunction_eq_iff hpattern).mp hreport⟩
  · rintro ⟨hname, hshape, hmessage, hrest⟩
    have hpattern : destructuring t.name t.fields = destructuring t'.name t'.fields := by
      rw [hname, destructuring_congr t'.name hshape]
    rw [hname, messageFunction_eq_iff.mpr ⟨hpattern, hmessage⟩,
      (reportFunction_eq_iff hpattern).mpr ⟨hmessage, hrest⟩]

/-- Both functions take the value apart before anything else. -/
lemma isFunction_both (t : Target) :
    IsFunction "message" (destructuring t.name t.fields) t.messageFunction ∧
      IsFunction "build_report" (destructuring t.name t.fields) t.reportFunction := by
  refine ⟨⟨_, _, fun content hmem => ?_, rfl⟩, ⟨_, _, fun content hmem => ?_, rfl⟩⟩
  · simp [parens, braces, word, mark, operator] at hmem
  · simp [reportSignature, spanType, lifetime, path, colons, brackets, parens, braces, word, mark,
      operator] at hmem

end Target

/-! ## Accepted sources -/

/-- An accepted source declares a struct and tags in one way. Two accepted sources that agree on the
name of the struct, on the shape of its fields, that is whether they are named and then on their
names in order, and on the expressions of the tags in the first attribute `error` get the same code,
whatever else they have. Sources with the same code in turn agree on all this, but that labels may
be missing in one and empty in the other.

The code is an implementation for the name of the struct. With named fields its two functions take
the value apart before anything else, by a pattern in which each field stands once and in its
place. -/
theorem generated_determined {source source' : List Char} {t t' : Target}
    (h : Target.ofSource parser source = .ok t) (h' : Target.ofSource parser source' = .ok t') :
    (∃ s tags, Declares parser source s tags ∧
      ∀ s' tags', Declares parser source s' tags' → s' = s ∧ tags' = tags) ∧
    (∀ s tags s' tags', Declares parser source s tags → Declares parser source' s' tags' →
      (s.item.name = s'.item.name → s.item.fields.shape = s'.item.fields.shape → tags = tags' →
        t.generated = t'.generated) ∧
      (t.generated = t'.generated →
        s.item.name = s'.item.name ∧ s.item.fields.shape = s'.item.fields.shape ∧
        tags.message = tags'.message ∧ tags.help = tags'.help ∧
        tags.labels.getD Target.emptyLabel = tags'.labels.getD Target.emptyLabel)) ∧
    ∀ s tags, Declares parser source s tags → ∃ message report,
      t.generated = implementation s.item.name (Target.asAny ++ message ++ report) ∧
      ∀ names, s.item.fields.shape = .named names →
        IsFunction "message" (pattern s.item.name names) message ∧
        IsFunction "build_report" (pattern s.item.name names) report := by
  obtain ⟨s, tags, hdeclares, -, hname, hfields, hmessage, hlabels, hhelp⟩ :=
    Target.ofSource_eq_ok_iff.mp h
  obtain ⟨s', tags', hdeclares', -, hname', hfields', hmessage', hlabels', hhelp'⟩ :=
    Target.ofSource_eq_ok_iff.mp h'
  refine ⟨⟨s, tags, hdeclares, fun _ _ hd => hdeclares.unique hd⟩, ?_, ?_⟩
  · intro s₁ tags₁ s₂ tags₂ hd hd'
    obtain ⟨rfl, rfl⟩ := hdeclares.unique hd
    obtain ⟨rfl, rfl⟩ := hdeclares'.unique hd'
    rw [Target.generated_eq_iff, Target.labelTexts, Target.labelTexts, hname, hname', hfields,
      hfields', ← hlabels, ← hlabels', ← hhelp, ← hhelp', hmessage, hmessage']
    refine ⟨fun hsame hshape htags => ?_, ?_⟩
    · subst htags
      exact ⟨hsame, hshape, Option.some.inj (hmessage.symm.trans hmessage'), rfl, rfl⟩
    · rintro ⟨hsame, hshape, hmessages, htexts, hhelps⟩
      exact ⟨hsame, hshape, congrArg some hmessages, hhelps, htexts⟩
  · intro s₁ tags₁ hd
    obtain ⟨rfl, rfl⟩ := hdeclares.unique hd
    refine ⟨t.messageFunction, t.reportFunction, hname ▸ t.generated_eq, fun names hshape => ?_⟩
    have hpattern : destructuring t.name t.fields = pattern s₁.item.name names := by
      rw [hname, hfields]
      cases hcases : s₁.item.fields with
      | named fields =>
        rw [hcases] at hshape
        rw [destructuring_named, ← Shape.named.inj hshape]
      | unnamed fields =>
        rw [hcases] at hshape
        cases hshape
      | unit =>
        rw [hcases] at hshape
        cases hshape
    exact hpattern ▸ t.isFunction_both

/-! ## Two sources with the same code -/

/-- A struct with two fields and one attribute. -/
def plainSource : List Char := "#[error(message = 1)] struct S { a: u8, b: T }".toList

/-- The same struct with a comment, a further attribute `error` without arguments, visibilities, an
attribute on a field, and other types. -/
def decoratedSource : List Char :=
  "/// d
#[error(message = 1)] #[error] pub struct S { #[x] pub a: T<u8, T>, b: u8 }".toList

/-- The trees of the fields in the first source. -/
def plainFields : List Tree :=
  [.name ['a'], .punct ':' false, .name "u8".toList, .punct ',' false,
    .name ['b'], .punct ':' false, .name ['T']]

/-- The trees of the fields in the second source. -/
def decoratedFields : List Tree :=
  [.punct '#' false, .group .bracket [.name ['x']], .name "pub".toList, .name ['a'],
    .punct ':' false, .name ['T'], .punct '<' false, .name "u8".toList, .punct ',' false,
    .name ['T'], .punct '>' true, .punct ',' false,
    .name ['b'], .punct ':' false, .name "u8".toList]

/-- The struct in the first source. -/
def plainItem : Item :=
  ⟨[], ['S'], [], .named [(['a'], ⟨[], [], [.name "u8".toList]⟩), (['b'], ⟨[], [], [.name ['T']]⟩)]⟩

/-- The struct in the second source. -/
def decoratedItem : Item :=
  ⟨[.name "pub".toList], ['S'], [],
    .named [(['a'], ⟨[⟨false, [['x']], .absent⟩], [.name "pub".toList],
        [.name ['T'], .punct '<' false, .name "u8".toList, .punct ',' false, .name ['T'],
          .punct '>' false]⟩),
      (['b'], ⟨[], [], [.name "u8".toList]⟩)]⟩

/-- The attributes in the second source. -/
def decoratedAttributes : List Attribute :=
  [⟨false, ["doc".toList], .value [.literal "\" d\"".toList]⟩,
    ⟨false, ["error".toList], .list .parenthesis (tagTrees .message)⟩,
    ⟨false, ["error".toList], .absent⟩]

/-- An attribute in trees, and what follows it. -/
def attributeTrees (content rest : List Tree) : List Tree :=
  .punct '#' false :: .group .bracket content :: rest

/-- The trees of the first source. -/
lemma trees_plainSource : Parser.standard.trees plainSource =
    .ok (attributeTrees [.name "error".toList, .group .parenthesis (tagTrees .message)]
      [.name "struct".toList, .name ['S'], .group .brace plainFields]) := by
  with_unfolding_all rfl

/-- The trees of the second source. -/
lemma trees_decoratedSource : Parser.standard.trees decoratedSource =
    .ok (attributeTrees [.name "doc".toList, .punct '=' false, .literal "\" d\"".toList]
      (attributeTrees [.name "error".toList, .group .parenthesis (tagTrees .message)]
        (attributeTrees [.name "error".toList]
          [.name "pub".toList, .name "struct".toList, .name ['S'],
            .group .brace decoratedFields]))) := by
  with_unfolding_all rfl

/-- The fields of the first source are read to the end. -/
lemma reads_plainFields : ∃ r, readSymbols [.fields true] plainFields = .ok r ∧
    r.leftover = none ∧
    .named ((fieldItems r.trees).filterMap Field.namedOfTrees?) = plainItem.fields :=
  have hreads : Reads [.fields true] plainFields _ :=
    .take rfl (.take rfl (.take rfl (.skip rfl (.take rfl
      (.take rfl (.take rfl (.take rfl (.ended rfl (.ended rfl .nil)))))))))
  ⟨_, hreads.readSymbols, rfl, rfl⟩

/-- So are those of the second. -/
lemma reads_decoratedFields : ∃ r, readSymbols [.fields true] decoratedFields = .ok r ∧
    r.leftover = none ∧
    .named ((fieldItems r.trees).filterMap Field.namedOfTrees?) = decoratedItem.fields :=
  have hattribute : Reads [.attributePath] [.name ['x']] (.after [.name ['x']] 1 .empty) :=
    .take (show _ = Action.take 0 _ [.afterPlainName, .attributeArguments] from rfl)
      (.ended rfl (.ended rfl .nil))
  have harguments (rest : List Tree) : Reads [.arguments]
      (.name "u8".toList :: .punct ',' false :: .name ['T'] :: .punct '>' true :: rest) _ :=
    .take rfl (.skip rfl (.take rfl (.take rfl (.skip rfl (.take rfl .nil)))))
  have hreads : Reads [.fields true] decoratedFields _ :=
    .take rfl (.group rfl hattribute (.take rfl (.take rfl (.take rfl (.take rfl
      (.arguments rfl (harguments _) (.skip rfl (.take rfl (.take rfl (.take rfl (.take rfl
        (.ended rfl (.ended rfl .nil)))))))))))))
  ⟨_, hreads.readSymbols, rfl, rfl⟩

/-- Fields in braces that are read to the end are the body of a struct. -/
lemma Body.read_braces {content : List Tree} {inner : Reading}
    (h : readSymbols [.fields true] content = .ok inner) (rest : List Tree) :
    Body.read (.group .brace content :: rest) = .ok ⟨.named
      ((fieldItems inner.trees).filterMap Field.namedOfTrees?), inner.leftover, rest⟩ := by
  show (readSymbols [.fields true] content).bind _ = _
  rw [h]
  rfl

/-- An attribute is read before others. -/
lemma readAttributes_cons {content rest : List Tree} {inner : Reading}
    {more : Parsed (List Attribute)} (h : readSymbols [.attributePath] content = .ok inner)
    (hmore : readAttributes rest = .ok more) :
    readAttributes (attributeTrees content rest) =
      .ok ⟨.ofTrees false [] inner.trees :: more.value, more.consumed + 2,
        ((Reading.ofGroup .bracket content inner).leftover.map leftoverText).or more.leftover⟩ := by
  rw [attributeTrees, readAttributes]
  show (readSymbols [.attributePath] content).bind _ = _
  rw [h]
  show (readAttributes rest).bind _ = _
  rw [hmore]
  rfl

/-- The attribute of both sources. -/
lemma readSymbols_errorAttribute (arguments : List Tree) :
    readSymbols [.attributePath] [.name "error".toList, .group .parenthesis arguments] =
      .ok (.after [.name "error".toList] 1 (.after [.group .parenthesis arguments] 1 .empty)) :=
  Reads.readSymbols <|
    .take (show _ = Action.take 0 _ [.afterPlainName, .attributeArguments] from rfl)
      (.skip rfl (.take (show _ = Action.take 0 _ [] from rfl) .nil))

/-- There are no attributes at the start of a name. -/
lemma readAttributes_name (word : List Char) (rest : List Tree) :
    readAttributes (.name word :: rest) = .ok ⟨[], 0, none⟩ := by
  rw [readAttributes]
  · exact fun _ _ _ h => by cases h
  · exact fun _ _ h => by cases h

/-- Trees that are read from their start to their end are a struct. -/
lemma Struct.ofSource_standard {source : List Char} {trees : List Tree}
    {attributes : Parsed (List Attribute)} {item : Parsed Item}
    (htrees : Parser.standard.trees source = .ok trees)
    (hattributes : readAttributes trees = .ok attributes)
    (hitem : readItem (trees.drop attributes.consumed) = .ok item)
    (hend : (trees.drop attributes.consumed).drop item.consumed = []) :
    Struct.ofSource .standard source =
      .ok ⟨attributes.value, item.value, attributes.leftover.or item.leftover⟩ := by
  have hstandard : Parser.standard.attributes trees = .ok attributes := by
    show (readAttributes trees).mapError Problem.message = _
    rw [hattributes]
    rfl
  have hstandard' : Parser.standard.item (trees.drop attributes.consumed) = .ok item := by
    show (readItem (trees.drop attributes.consumed)).mapError Problem.message = _
    rw [hitem]
    rfl
  unfold Struct.ofSource
  rw [htrees]
  show Struct.read .standard trees = _
  unfold Struct.read
  rw [hstandard]
  show ((Parser.standard.item (trees.drop attributes.consumed)).mapError _).bind _ = _
  rw [hstandard']
  show Except.ok (Struct.mk _ _ (Option.or _ (if List.isEmpty _ then _ else _))) = _
  rw [hend, List.isEmpty_nil, if_pos rfl, Option.or_none]

/-- A struct is read to the end of its body. -/
lemma readItem_eq (name : List Char) {trees rest : List Tree} {visibility : Reading} {body : Body}
    (hvisibility : readSymbols [.visibility] trees = .ok visibility)
    (hdrop : trees.drop visibility.consumed = .name "struct".toList :: .name name :: rest)
    (hname : isKeyword name = false) (hgenerics : afterGenerics rest = rest)
    (hbody : Body.read rest = .ok body) :
    readItem trees = .ok ⟨⟨visibility.trees, name, [], body.fields⟩,
      trees.length - body.rest.length,
      (visibility.leftover.or body.leftover).map leftoverText⟩ := by
  have hread : readName (.name name :: rest) = .ok (name, rest) := by
    rw [readName, hname]
    rfl
  have htake : rest.take (rest.length - rest.length) = [] := by
    rw [Nat.sub_self, List.take_zero]
  unfold readItem
  rw [hvisibility]
  dsimp only [bind, Except.bind]
  rw [hdrop]
  show (readName (.name name :: rest)).bind _ = _
  rw [hread]
  show (Body.read (afterGenerics rest)).bind _ = _
  rw [hgenerics, hbody]
  show Except.ok (Parsed.mk (Item.mk _ _ (rest.take _) _) _ _) = _
  rw [htake]

/-- The first source is this struct. -/
lemma ofSource_plainSource : Struct.ofSource .standard plainSource =
    .ok ⟨[⟨false, ["error".toList], .list .parenthesis (tagTrees .message)⟩], plainItem, none⟩ := by
  obtain ⟨r, hread, hleftover, hfields⟩ := reads_plainFields
  have hattributes := readAttributes_cons (readSymbols_errorAttribute (tagTrees .message))
    (readAttributes_name "struct".toList [.name ['S'], .group .brace plainFields])
  have hitem := readItem_eq ['S'] (Reads.skip rfl .nil).readSymbols rfl (by decide) rfl
    (Body.read_braces hread [])
  rw [hfields, hleftover] at hitem
  exact Struct.ofSource_standard trees_plainSource hattributes hitem rfl

/-- The second source is this one. -/
lemma ofSource_decoratedSource : Struct.ofSource .standard decoratedSource =
    .ok ⟨decoratedAttributes, decoratedItem, none⟩ := by
  obtain ⟨r, hread, hleftover, hfields⟩ := reads_decoratedFields
  have hdoc : Reads [.attributePath]
      [.name "doc".toList, .punct '=' false, .literal "\" d\"".toList]
      (.after [.name "doc".toList] 1
        (.after [.punct '=' false] 1 (.after [.literal "\" d\"".toList] 1 .empty))) :=
    .take (show _ = Action.take 0 _ [.afterPlainName, .attributeArguments] from rfl)
      (.skip rfl (.take (show _ = Action.takePunct '=' [.expression] from rfl)
        (.take (show _ = Action.take 0 _ [.afterOperand, .operators false false] from rfl)
          (.ended rfl (.ended rfl .nil)))))
  have herror : Reads [.attributePath] [.name "error".toList]
      (.after [.name "error".toList] 1 .empty) :=
    .take (show _ = Action.take 0 _ [.afterPlainName, .attributeArguments] from rfl)
      (.ended rfl (.ended rfl .nil))
  have hattributes := readAttributes_cons hdoc.readSymbols
    (readAttributes_cons (readSymbols_errorAttribute (tagTrees .message))
      (readAttributes_cons herror.readSymbols (readAttributes_name "pub".toList
        [.name "struct".toList, .name ['S'], .group .brace decoratedFields])))
  have hvisibility : Reads [.visibility]
      [.name "pub".toList, .name "struct".toList, .name ['S'], .group .brace decoratedFields]
      (.after [.name "pub".toList] 1 .empty) :=
    .take (show _ = Action.take 0 _ [] from rfl) .nil
  have hitem := readItem_eq ['S'] hvisibility.readSymbols rfl (by decide) rfl
    (Body.read_braces hread [])
  rw [hfields, hleftover] at hitem
  exact Struct.ofSource_standard trees_decoratedSource hattributes hitem rfl

/-- A source whose attribute has a message and nothing else declares it. -/
lemma declares_message {source : List Char} {s : Struct}
    (hs : Struct.ofSource .standard source = .ok s) (htagged : s.IsTagged (tagTrees .message)) :
    Declares .standard source s ⟨some [.literal ['1']], none, none⟩ := by
  have hread := (Tags.read_eq_ok_iff Parser.standard_readsItems).mpr
    ⟨_, .last (.ofTag .message) false, acceptable_map_ofTag [.message] (by decide), rfl⟩
  exact ⟨hs, _, htagged, hread⟩

/-- Both sources are accepted and get the same code, which takes the value apart into the fields `a`
and `b`. -/
theorem generated_determined_decorated :
    ∃ t t', Target.ofSource .standard plainSource = .ok t ∧
      Target.ofSource .standard decoratedSource = .ok t' ∧ t.generated = t'.generated ∧
      ∃ message report,
        t.generated = implementation ['S'] (Target.asAny ++ message ++ report) ∧
        IsFunction "message" (pattern ['S'] [['a'], ['b']]) message ∧
        IsFunction "build_report" (pattern ['S'] [['a'], ['b']]) report := by
  have hdeclares := declares_message ofSource_plainSource
    ⟨[], _, [], _, rfl, fun b hb => (by cases hb), rfl, rfl⟩
  have hdeclares' := declares_message ofSource_decoratedSource
    ⟨[_], _, [_], _, rfl, fun b hb => (by cases List.mem_singleton.mp hb; rfl), rfl, rfl⟩
  have hplain : Target.ofSource .standard plainSource =
      .ok ⟨['S'], plainItem.fields, [.literal ['1']], none, none⟩ :=
    Target.ofSource_eq_ok_iff.mpr ⟨_, _, hdeclares, rfl, rfl, rfl, rfl, rfl, rfl⟩
  have hdecorated : Target.ofSource .standard decoratedSource =
      .ok ⟨['S'], decoratedItem.fields, [.literal ['1']], none, none⟩ :=
    Target.ofSource_eq_ok_iff.mpr ⟨_, _, hdeclares', rfl, rfl, rfl, rfl, rfl, rfl⟩
  obtain ⟨-, hsame, hcode⟩ := generated_determined hplain hdecorated
  obtain ⟨message, report, hgenerated, hpattern⟩ := hcode _ _ hdeclares
  exact ⟨_, _, hplain, hdecorated, (hsame _ _ _ _ hdeclares hdeclares').1 rfl rfl rfl, message,
    report, hgenerated, hpattern _ rfl⟩

end PowerRule.Declaration
