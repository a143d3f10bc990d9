import Mathlib.Data.List.Nodup
import Mathlib.Tactic.Lemma
import Mathlib.Tactic.SplitIfs
import PowerRule.Declaration.Target

/-!
# Lists of tags

What the attribute `error` is given is a list of tags with commas between them (`TagList`), where
the value of a tag is an expression from its start to its end. Such a list is read if every tag is
one of the three and none is given twice (`Tags.read_eq_ok_iff`), and then its order does not matter
(`TagList.read_perm`). Otherwise reading stops at the first tag that is at fault
(`Tags.read_eq_error_iff`). All of this holds of every parser that reads one expression up to a
comma.
-/

namespace PowerRule.Declaration

/-- The name of a tag. -/
def Tag.name : Tag → List Char
  | message => "message".toList
  | labels => "labels".toList
  | help => "help".toList

/-- A tag that is given: a name, and trees that are one expression and nothing else. -/
structure GivenTag (parser : Parser) where
  name : List Char
  value : List Tree
  expression : Parsed (List Tree)
  isName : isKeyword name = false
  reads : parser.expression value = .ok expression
  readsAll : expression.consumed = value.length

/-- Tags with commas between them. One may follow the last. -/
inductive TagList {parser : Parser} : List Tree → List (GivenTag parser) → Prop where
  | nil : TagList [] []
  | last (g : GivenTag parser) (joined : Bool) :
    TagList (.name g.name :: .punct '=' joined :: g.value) [g]
  | cons (g : GivenTag parser) (joined joined' : Bool) {rest : List Tree}
      {given : List (GivenTag parser)} :
    TagList rest given →
    TagList (.name g.name :: .punct '=' joined :: (g.value ++ .punct ',' joined' :: rest))
      (g :: given)

/-- Every tag is one that there is, and none is given twice. -/
structure Distinct {parser : Parser} (given : List (GivenTag parser)) : Prop where
  known : ∀ g ∈ given, ∃ tag : Tag, g.name = tag.name
  nodup : (given.map GivenTag.name).Nodup

/-- Moreover, nothing is left over in the groups of the expressions. -/
structure Acceptable {parser : Parser} (given : List (GivenTag parser)) : Prop
    extends Distinct given where
  complete : ∀ g ∈ given, g.expression.leftover = none

/-- What is given for a tag: an expression, or nothing. -/
def Gives {parser : Parser} (given : List (GivenTag parser)) (tag : Tag)
    (expression : Option (List Tree)) : Prop :=
  ∀ e, expression = some e ↔ ∃ g ∈ given, g.name = tag.name ∧ g.expression.value = e

/-- What is left over in the first of the expressions that leaves something. -/
def firstLeftover {parser : Parser} (given : List (GivenTag parser)) : Option (List Char) :=
  given.findSome? fun g => g.expression.leftover

/-- What is wrong with the tag at the start of trees, after tags with these names. The name is
looked at first, then the equals sign, then whether there is such a tag, then whether it was given
before, then the expression, and last the comma. -/
inductive TagFault (parser : Parser) (names : List (List Char)) : List Tree → Refusal → Prop where
  | notName {t : Tree} {rest : List Tree} :
    (∀ word, t ≠ .name word) →
    TagFault parser names (t :: rest) .notIdentifier
  | keyword {word : List Char} {rest : List Tree} :
    isKeyword word = true →
    TagFault parser names (.name word :: rest) (.keyword word)
  | noEquals {name : List Char} {rest : List Tree} :
    isKeyword name = false →
    (∀ joined value, rest ≠ .punct '=' joined :: value) →
    TagFault parser names (.name name :: rest) .noEquals
  | unknown {name : List Char} {joined : Bool} {value : List Tree} :
    isKeyword name = false →
    (∀ tag : Tag, name ≠ tag.name) →
    TagFault parser names (.name name :: .punct '=' joined :: value) (.unknownTag name)
  | duplicate {tag : Tag} {joined : Bool} {value : List Tree} :
    tag.name ∈ names →
    TagFault parser names (.name tag.name :: .punct '=' joined :: value) (.duplicateTag tag.name)
  | expression {tag : Tag} {joined : Bool} {value : List Tree} {message : List Char} :
    tag.name ∉ names →
    parser.expression value = .error message →
    TagFault parser names (.name tag.name :: .punct '=' joined :: value) (.unparsed message)
  | noComma {tag : Tag} {joined : Bool} {value : List Tree} {r : Parsed (List Tree)} :
    tag.name ∉ names →
    parser.expression value = .ok r →
    ¬EndsItem (value.drop r.consumed) →
    TagFault parser names (.name tag.name :: .punct '=' joined :: value) .noComma

/-- What is wrong with the first tag that is at fault, after tags with these names. -/
inductive FirstFault (parser : Parser) : List (List Char) → List Tree → Refusal → Prop where
  | here {names : List (List Char)} {trees : List Tree} {refusal : Refusal} :
    TagFault parser names trees refusal →
    FirstFault parser names trees refusal
  | later {names : List (List Char)} {rest : List Tree} {refusal : Refusal}
      (g : GivenTag parser) (joined joined' : Bool) {tag : Tag} :
    g.name = tag.name →
    g.name ∉ names →
    FirstFault parser (g.name :: names) rest refusal →
    FirstFault parser names
      (.name g.name :: .punct '=' joined :: (g.value ++ .punct ',' joined' :: rest)) refusal

variable {parser : Parser}

/-! ## Names of tags -/

/-- The names of tags are no keywords. -/
lemma Tag.isKeyword_name (tag : Tag) : isKeyword tag.name = false := by
  cases tag <;> decide

/-- A tag is known by its name. -/
lemma Tag.ofName?_eq_some_iff {name : List Char} {tag : Tag} :
    Tag.ofName? name = some tag ↔ name = tag.name := by
  constructor
  · intro h
    unfold Tag.ofName? at h
    split_ifs at h with hmessage hlabels hhelp
    · cases h
      exact hmessage
    · cases h
      exact hlabels
    · cases h
      exact hhelp
  · rintro rfl
    cases tag <;> decide

/-- Tags with the same name are the same. -/
lemma Tag.name_injective {tag tag' : Tag} (h : tag.name = tag'.name) : tag = tag' :=
  Option.some.inj ((Tag.ofName?_eq_some_iff.mpr rfl).symm.trans (Tag.ofName?_eq_some_iff.mpr h))

/-- Other names are no tags. -/
lemma Tag.ofName?_eq_none_iff {name : List Char} :
    Tag.ofName? name = none ↔ ∀ tag : Tag, name ≠ tag.name := by
  rw [Option.eq_none_iff_forall_ne_some]
  exact forall_congr' fun tag => not_congr Tag.ofName?_eq_some_iff

/-! ## One tag -/

namespace Tags

variable {tags : Tags} {leftover : Option (List Char)} {name : List Char} {tag : Tag} {t : Tree}
  {joined : Bool} {value rest : List Tree} {refusal : Refusal} {message : List Char}
  {r : Parsed (List Tree)}

/-- Without tags nothing is given. -/
@[simp] lemma get?_empty (tag : Tag) : ({} : Tags).get? tag = none := by
  cases tag <;> rfl

/-- A tag that is set has its expression. -/
lemma get?_set_self (tags : Tags) (tag : Tag) (expression : List Tree) :
    (tags.set tag expression).get? tag = some expression := by
  cases tag <;> rfl

/-- The other tags stay as they are. -/
lemma get?_set_of_ne {tag tag' : Tag} (h : tag' ≠ tag) (tags : Tags) (expression : List Tree) :
    (tags.set tag expression).get? tag' = tags.get? tag' := by
  cases tag <;> cases tag' <;> first | rfl | exact absurd rfl h

/-- Tags are the same if each has the same expression. -/
lemma eq_of_get? {tags' : Tags} (h : ∀ tag, tags.get? tag = tags'.get? tag) : tags = tags' := by
  obtain ⟨message, labels, help⟩ := tags
  obtain ⟨message', labels', help'⟩ := tags'
  cases show message = message' from h .message
  cases show labels = labels' from h .labels
  cases show help = help' from h .help
  rfl

/-- A tag without an expression can be given. -/
lemma vacant_of_notMem (h : tags.get? tag = none) : tags.vacant tag.name = .ok tag := by
  rw [vacant, Tag.ofName?_eq_some_iff.mpr rfl]
  dsimp only
  rw [h]
  rfl

/-- A tag with an expression cannot be given again. -/
lemma vacant_of_mem (h : (tags.get? tag).isSome = true) :
    tags.vacant tag.name = .error (.duplicateTag tag.name) := by
  rw [vacant, Tag.ofName?_eq_some_iff.mpr rfl]
  exact if_pos h

/-- A name that is none of a tag cannot be given. -/
lemma vacant_of_unknown (h : ∀ tag : Tag, name ≠ tag.name) :
    tags.vacant name = .error (.unknownTag name) := by
  rw [vacant, Tag.ofName?_eq_none_iff.mpr h]

/-- At the end there are no more tags. -/
lemma readMore_nil : readMore parser tags leftover [] = .ok (tags, leftover) := by
  rw [readMore]

/-- What follows the expression of a tag decides how to go on. -/
lemma readMore_expression (hname : isKeyword name = false) (hvacant : tags.vacant name = .ok tag)
    (hread : parser.expression value = .ok r) :
    readMore parser tags leftover (.name name :: .punct '=' joined :: value) =
      match value.drop r.consumed with
      | [] => .ok (tags.set tag r.value, leftover.or r.leftover)
      | .punct ',' _ :: rest =>
        readMore parser (tags.set tag r.value) (leftover.or r.leftover) rest
      | _ => .error .noComma := by
  rw [readMore]
  simp only [readIdentifier, hname, Bool.false_eq_true, if_false, bind, Except.bind, hvacant, hread,
    Except.mapError]
  split
  · rename_i h
    rw [h]
  · rename_i h
    rw [h]
    rfl
  · rename_i hend hcomma
    split
    · rename_i h
      exact absurd h hend
    · rename_i h
      exact absurd h (hcomma _ _)
    · rfl

/-- The last tag ends at the end. -/
lemma readMore_last (hname : isKeyword name = false) (hvacant : tags.vacant name = .ok tag)
    (hread : parser.expression value = .ok r) (hdrop : value.drop r.consumed = []) :
    readMore parser tags leftover (.name name :: .punct '=' joined :: value) =
      .ok (tags.set tag r.value, leftover.or r.leftover) := by
  rw [readMore_expression hname hvacant hread, hdrop]

/-- After a tag that ends at a comma, the others are read. -/
lemma readMore_comma (hname : isKeyword name = false) (hvacant : tags.vacant name = .ok tag)
    (hread : parser.expression value = .ok r) {joined' : Bool}
    (hdrop : value.drop r.consumed = .punct ',' joined' :: rest) :
    readMore parser tags leftover (.name name :: .punct '=' joined :: value) =
      readMore parser (tags.set tag r.value) (leftover.or r.leftover) rest := by
  rw [readMore_expression hname hvacant hread, hdrop]
  rfl

/-- A tag that ends elsewhere lacks its comma. -/
lemma readMore_noComma (hname : isKeyword name = false) (hvacant : tags.vacant name = .ok tag)
    (hread : parser.expression value = .ok r) (hdrop : ¬EndsItem (value.drop r.consumed)) :
    readMore parser tags leftover (.name name :: .punct '=' joined :: value) =
      .error .noComma := by
  rw [readMore_expression hname hvacant hread]
  split
  · rename_i h
    exact absurd (h ▸ EndsItem.nil) hdrop
  · rename_i h
    exact absurd (h ▸ EndsItem.comma) hdrop
  · rfl

/-- A value that is no expression is refused as the parser refuses it. -/
lemma readMore_noExpression (hname : isKeyword name = false) (hvacant : tags.vacant name = .ok tag)
    (hread : parser.expression value = .error message) :
    readMore parser tags leftover (.name name :: .punct '=' joined :: value) =
      .error (.unparsed message) := by
  rw [readMore]
  simp only [readIdentifier, hname, Bool.false_eq_true, if_false, bind, Except.bind, hvacant, hread,
    Except.mapError]

/-- A tag that cannot be given is refused. -/
lemma readMore_notVacant (hname : isKeyword name = false)
    (hvacant : tags.vacant name = .error refusal) :
    readMore parser tags leftover (.name name :: .punct '=' joined :: value) =
      .error refusal := by
  rw [readMore]
  simp only [readIdentifier, hname, Bool.false_eq_true, if_false, bind, Except.bind, hvacant]

/-- A name without an equals sign is refused. -/
lemma readMore_noEquals (hname : isKeyword name = false)
    (hrest : ∀ joined value, rest ≠ .punct '=' joined :: value) :
    readMore parser tags leftover (.name name :: rest) = .error .noEquals := by
  rw [readMore]
  simp only [readIdentifier, hname, Bool.false_eq_true, if_false, bind, Except.bind]

/-- A keyword in place of a name is refused. -/
lemma readMore_keyword (hname : isKeyword name = true) :
    readMore parser tags leftover (.name name :: rest) = .error (.keyword name) := by
  rw [readMore]
  simp only [readIdentifier, hname, if_true, bind, Except.bind]

/-- Anything else in place of a name is refused. -/
lemma readMore_notName (ht : ∀ word, t ≠ .name word) :
    readMore parser tags leftover (t :: rest) = .error .notIdentifier := by
  rw [readMore]
  cases t with
  | name word => exact absurd rfl (ht word)
  | punct c joined => rfl
  | literal text => rfl
  | group d content => rfl

/-! ## All tags -/

/-- The tags with one that is given. -/
def add (tags : Tags) (g : GivenTag parser) : Tags :=
  match Tag.ofName? g.name with
  | some tag => tags.set tag g.expression.value
  | none => tags

/-- A tag that is given is set. -/
lemma add_eq {g : GivenTag parser} (h : g.name = tag.name) (tags : Tags) :
    tags.add g = tags.set tag g.expression.value := by
  rw [add, Tag.ofName?_eq_some_iff.mpr h]

/-- The other tags stay as they are. -/
lemma get?_add_of_ne {g : GivenTag parser} (h : g.name ≠ tag.name) (tags : Tags) :
    (tags.add g).get? tag = tags.get? tag := by
  unfold add
  split
  · rename_i tag' htag
    refine get?_set_of_ne ?_ _ _
    rintro rfl
    exact h (Tag.ofName?_eq_some_iff.mp htag)
  · rfl

/-- A tag that is not among those given stays as it is. -/
lemma get?_foldl_of_notMem {given : List (GivenTag parser)}
    (h : tag.name ∉ given.map GivenTag.name) (tags : Tags) :
    (given.foldl add tags).get? tag = tags.get? tag := by
  induction given generalizing tags with
  | nil => rfl
  | cons g given ih =>
    rw [List.map_cons, List.mem_cons, not_or] at h
    exact (ih h.2 _).trans (get?_add_of_ne (Ne.symm h.1) tags)

/-- A tag that is given once has its expression in the end. -/
lemma get?_foldl_of_mem {given : List (GivenTag parser)}
    (hnodup : (given.map GivenTag.name).Nodup) {g : GivenTag parser} (hg : g ∈ given)
    (hname : g.name = tag.name) (tags : Tags) :
    (given.foldl add tags).get? tag = some g.expression.value := by
  induction given generalizing tags with
  | nil => cases hg
  | cons g' given ih =>
    obtain ⟨hnot, hnodup⟩ := List.nodup_cons.mp hnodup
    cases hg with
    | head =>
      rw [hname] at hnot
      rw [List.foldl_cons, get?_foldl_of_notMem hnot, add_eq hname, get?_set_self]
    | tail _ hg => exact ih hnodup hg _

/-- In the end every tag has what is given for it. -/
lemma gives_iff {given : List (GivenTag parser)} (hnodup : (given.map GivenTag.name).Nodup)
    {expression : Option (List Tree)} :
    Gives given tag expression ↔ expression = (given.foldl add {}).get? tag := by
  have hget : Gives given tag ((given.foldl add {}).get? tag) := by
    intro e
    constructor
    · intro h
      by_cases hmem : tag.name ∈ given.map GivenTag.name
      · obtain ⟨g, hg, hname⟩ := List.mem_map.mp hmem
        rw [get?_foldl_of_mem hnodup hg hname] at h
        exact ⟨g, hg, hname, Option.some.inj h⟩
      · rw [get?_foldl_of_notMem hmem, get?_empty] at h
        cases h
    · rintro ⟨g, hg, hname, rfl⟩
      exact get?_foldl_of_mem hnodup hg hname {}
  constructor
  · intro h
    exact Option.ext fun e => (h e).trans (hget e).symm
  · rintro rfl
    exact hget

/-- The order of tags that are given once does not matter. -/
lemma foldl_add_perm {given given' : List (GivenTag parser)} (h : given'.Perm given)
    (hnodup : (given.map GivenTag.name).Nodup) (tags : Tags) :
    given'.foldl add tags = given.foldl add tags := by
  have hnodup' := (h.map GivenTag.name).nodup_iff.mpr hnodup
  refine eq_of_get? fun tag => ?_
  by_cases hmem : tag.name ∈ given.map GivenTag.name
  · obtain ⟨g, hg, hname⟩ := List.mem_map.mp hmem
    rw [get?_foldl_of_mem hnodup hg hname, get?_foldl_of_mem hnodup' (h.mem_iff.mpr hg) hname]
  · rw [get?_foldl_of_notMem hmem,
      get?_foldl_of_notMem fun hmem' => hmem ((h.map GivenTag.name).mem_iff.mp hmem')]

end Tags

/-- The expression of a tag is read before a comma as well. -/
lemma GivenTag.reads_before (hparser : parser.ReadsItems) (g : GivenTag parser) {rest : List Tree}
    (h : EndsItem rest) : parser.expression (g.value ++ rest) = .ok g.expression := by
  have hreads : parser.expression (g.value ++ []) = .ok g.expression := by
    rw [List.append_nil]
    exact g.reads
  exact hparser.ends hreads g.readsAll .nil h

/-- What follows the expression of a tag is left. -/
lemma GivenTag.drop_append (g : GivenTag parser) (rest : List Tree) :
    (g.value ++ rest).drop g.expression.consumed = rest := by
  rw [g.readsAll, List.drop_left]

/-- A list of tags is read from its start to its end. -/
theorem TagList.readMore_eq (hparser : parser.ReadsItems) {trees : List Tree}
    {given : List (GivenTag parser)} (h : TagList trees given) (hdistinct : Distinct given)
    {tags : Tags}
    (hvacant : ∀ tag : Tag, tag.name ∈ given.map GivenTag.name → tags.get? tag = none)
    (leftover : Option (List Char)) :
    tags.readMore parser leftover trees =
      .ok (given.foldl Tags.add tags, leftover.or (firstLeftover given)) := by
  induction h generalizing tags leftover with
  | nil => rw [Tags.readMore_nil, firstLeftover, List.findSome?_nil, Option.or_none]; rfl
  | last g joined =>
    obtain ⟨tag, hname⟩ := hdistinct.known g List.mem_cons_self
    have hnone := Tags.vacant_of_notMem (hvacant tag (by simp [hname]))
    rw [Tags.readMore_last g.isName (hname ▸ hnone) g.reads (by rw [g.readsAll, List.drop_length]),
      List.foldl_cons, Tags.add_eq hname]
    cases hleftover : g.expression.leftover <;> simp [firstLeftover, hleftover]
  | @cons g joined joined' rest given _ ih =>
    obtain ⟨tag, hname⟩ := hdistinct.known g List.mem_cons_self
    obtain ⟨hnot, hnodup⟩ := List.nodup_cons.mp hdistinct.nodup
    have hnone := Tags.vacant_of_notMem (hvacant tag (by simp [hname]))
    rw [Tags.readMore_comma g.isName (hname ▸ hnone) (g.reads_before hparser .comma)
      (g.drop_append (.punct ',' joined' :: rest)),
      ih ⟨fun g' hg' => hdistinct.known g' (List.mem_cons_of_mem _ hg'), hnodup⟩ ?_,
      List.foldl_cons, Tags.add_eq hname, Option.or_assoc]
    · cases hleftover : g.expression.leftover <;> simp [firstLeftover, hleftover]
    · intro tag' hmem
      have hne : tag' ≠ tag := by
        rintro rfl
        exact hnot (hname ▸ hmem)
      rw [Tags.get?_set_of_ne hne]
      exact hvacant tag' (List.mem_cons_of_mem _ hmem)

/-- A tag at fault is refused for its fault. -/
lemma TagFault.readMore_eq {names : List (List Char)} {trees : List Tree} {refusal : Refusal}
    (h : TagFault parser names trees refusal) {tags : Tags}
    (hgiven : ∀ tag : Tag, (tags.get? tag).isSome = true ↔ tag.name ∈ names)
    (leftover : Option (List Char)) : tags.readMore parser leftover trees = .error refusal := by
  have hvacant : ∀ {tag : Tag}, tag.name ∉ names → tags.vacant tag.name = .ok tag := by
    intro tag hnot
    refine Tags.vacant_of_notMem ?_
    rw [← Option.not_isSome_iff_eq_none, hgiven]
    exact hnot
  cases h with
  | notName ht => exact Tags.readMore_notName ht
  | keyword hword => exact Tags.readMore_keyword hword
  | noEquals hname hrest => exact Tags.readMore_noEquals hname hrest
  | unknown hname hunknown => exact Tags.readMore_notVacant hname (Tags.vacant_of_unknown hunknown)
  | @duplicate tag _ _ hmem =>
    exact Tags.readMore_notVacant tag.isKeyword_name (Tags.vacant_of_mem ((hgiven tag).mpr hmem))
  | @expression tag _ _ _ hnot hread =>
    exact Tags.readMore_noExpression tag.isKeyword_name (hvacant hnot) hread
  | @noComma tag _ _ _ hnot hread hdrop =>
    exact Tags.readMore_noComma tag.isKeyword_name (hvacant hnot) hread hdrop

/-- Reading stops at the first tag that is at fault. -/
theorem FirstFault.readMore_eq (hparser : parser.ReadsItems) {names : List (List Char)}
    {trees : List Tree} {refusal : Refusal} (h : FirstFault parser names trees refusal)
    {tags : Tags} (hgiven : ∀ tag : Tag, (tags.get? tag).isSome = true ↔ tag.name ∈ names)
    (leftover : Option (List Char)) : tags.readMore parser leftover trees = .error refusal := by
  induction h generalizing tags leftover with
  | here hfault => exact hfault.readMore_eq hgiven leftover
  | @later names rest refusal g joined joined' tag hname hnot _ ih =>
    have hnone : tags.get? tag = none := by
      rw [← Option.not_isSome_iff_eq_none, hgiven, ← hname]
      exact hnot
    rw [Tags.readMore_comma g.isName (hname ▸ Tags.vacant_of_notMem hnone)
      (g.reads_before hparser .comma) (g.drop_append (.punct ',' joined' :: rest))]
    refine ih (fun tag' => ?_) _
    rw [List.mem_cons, hname]
    by_cases htag : tag' = tag
    · subst htag
      rw [Tags.get?_set_self]
      exact iff_of_true rfl (.inl rfl)
    · rw [Tags.get?_set_of_ne htag, hgiven]
      exact ⟨.inr, fun h => h.resolve_left fun heq => htag (Tag.name_injective heq)⟩

/-! ## A list of tags, or a first fault -/

/-- The trees at the start of which an expression is read, as a tag with this name. -/
lemma exists_givenTag (hparser : parser.ReadsItems) {name : List Char}
    (hname : isKeyword name = false) {value : List Tree} {r : Parsed (List Tree)}
    (hread : parser.expression value = .ok r) (hends : EndsItem (value.drop r.consumed)) :
    ∃ g : GivenTag parser, g.name = name ∧ value = g.value ++ value.drop r.consumed ∧
      g.expression = r := by
  have hlength : r.consumed = (value.take r.consumed).length := by
    rw [List.length_take, Nat.min_eq_left (hparser.consumed_le hread)]
  have hsplit := (List.take_append_drop r.consumed value).symm
  have hreads : parser.expression (value.take r.consumed ++ []) = .ok r := by
    rw [hsplit] at hread
    exact hparser.ends hread hlength hends .nil
  rw [List.append_nil] at hreads
  exact ⟨⟨name, value.take r.consumed, r, hname, hreads, hlength⟩, rfl, hsplit, rfl⟩

/-- The first tag is at fault, or it is a new one that ends at a comma or at the end. -/
lemma tagFault_or_givenTag (hparser : parser.ReadsItems) (names : List (List Char)) (t : Tree)
    (rest : List Tree) :
    (∃ refusal, TagFault parser names (t :: rest) refusal) ∨
      ∃ (g : GivenTag parser) (tag : Tag) (joined : Bool) (after : List Tree),
        g.name = tag.name ∧ g.name ∉ names ∧ EndsItem after ∧
        t :: rest = .name g.name :: .punct '=' joined :: (g.value ++ after) := by
  by_cases ht : ∃ word, t = .name word
  swap
  · exact .inl ⟨_, .notName fun word heq => ht ⟨word, heq⟩⟩
  obtain ⟨name, rfl⟩ := ht
  cases hname : isKeyword name with
  | true => exact .inl ⟨_, .keyword hname⟩
  | false =>
    by_cases hrest : ∃ joined value, rest = .punct '=' joined :: value
    swap
    · exact .inl ⟨_, .noEquals hname fun joined value heq => hrest ⟨joined, value, heq⟩⟩
    obtain ⟨joined, value, rfl⟩ := hrest
    by_cases hknown : ∃ tag : Tag, name = tag.name
    swap
    · exact .inl ⟨_, .unknown hname fun tag heq => hknown ⟨tag, heq⟩⟩
    obtain ⟨tag, rfl⟩ := hknown
    by_cases hmem : tag.name ∈ names
    · exact .inl ⟨_, .duplicate hmem⟩
    · cases hread : parser.expression value with
      | error message => exact .inl ⟨_, .expression hmem hread⟩
      | ok r =>
        by_cases hends : EndsItem (value.drop r.consumed)
        · obtain ⟨g, hg, hvalue, -⟩ := exists_givenTag hparser hname hread hends
          exact .inr ⟨g, tag, joined, _, hg, hg ▸ hmem, hends, by rw [hg, ← hvalue]⟩
        · exact .inl ⟨_, .noComma hmem hread hends⟩

/-- Trees are a list of tags after others, or one of their tags is the first at fault. -/
theorem tagList_or_firstFault (hparser : parser.ReadsItems) (names : List (List Char))
    (trees : List Tree) :
    (∃ given : List (GivenTag parser), TagList trees given ∧ Distinct given ∧
        ∀ g ∈ given, g.name ∉ names) ∨
      ∃ refusal, FirstFault parser names trees refusal := by
  induction hlength : trees.length using Nat.strongRecOn generalizing names trees with
  | ind n ih =>
    subst hlength
    cases trees with
    | nil =>
      exact .inl ⟨[], .nil, ⟨fun g hg => (by cases hg), List.nodup_nil⟩, fun g hg => (by cases hg)⟩
    | cons t rest =>
      rcases tagFault_or_givenTag hparser names t rest with ⟨refusal, hfault⟩ |
        ⟨g, tag, joined, after, hname, hnot, hends, heq⟩
      · exact .inr ⟨refusal, .here hfault⟩
      rw [heq]
      cases hends with
      | nil =>
        rw [List.append_nil]
        refine .inl ⟨[g], .last g joined, ⟨fun g' hg' => ⟨tag, ?_⟩, List.nodup_singleton _⟩,
          fun g' hg' => ?_⟩
        · rw [List.mem_singleton.mp hg', hname]
        · rw [List.mem_singleton.mp hg']
          exact hnot
      | @comma joined' rest' =>
        have hlt : rest'.length < (t :: rest).length := by
          rw [heq]
          simp only [List.length_cons, List.length_append]
          omega
        rcases ih _ hlt (g.name :: names) rest' rfl with ⟨given, hlist, hdistinct, hnames⟩ |
          ⟨refusal, hfault⟩
        · refine .inl ⟨g :: given, .cons g joined joined' hlist, ⟨?_, ?_⟩, ?_⟩
          · exact List.forall_mem_cons.mpr ⟨⟨tag, hname⟩, hdistinct.known⟩
          · refine List.nodup_cons.mpr ⟨fun hmem => ?_, hdistinct.nodup⟩
            obtain ⟨g', hg', hsame⟩ := List.mem_map.mp hmem
            exact hnames g' hg' (List.mem_cons.mpr (.inl hsame))
          · exact List.forall_mem_cons.mpr
              ⟨hnot, fun g' hg' hmem => hnames g' hg' (List.mem_cons_of_mem _ hmem)⟩
        · exact .inr ⟨refusal, .later g joined joined' hname hnot hfault⟩

/-! ## Reading tags -/

/-- A list of distinct tags is read, unless something is left over in an expression. -/
lemma TagList.read_eq (hparser : parser.ReadsItems) {trees : List Tree}
    {given : List (GivenTag parser)} (h : TagList trees given) (hdistinct : Distinct given) :
    Tags.read parser trees =
      match firstLeftover given with
      | some message => .error (.unparsed message)
      | none => .ok (given.foldl Tags.add {}) := by
  unfold Tags.read
  rw [h.readMore_eq hparser hdistinct fun tag _ => Tags.get?_empty tag]
  show (match Option.or none (firstLeftover given) with | some message => _ | none => _) = _
  rw [Option.none_or]
  cases firstLeftover given with
  | some message => rfl
  | none => rfl

/-- Trees with a tag at fault are refused for the first fault. -/
lemma FirstFault.read_eq (hparser : parser.ReadsItems) {trees : List Tree} {refusal : Refusal}
    (h : FirstFault parser [] trees refusal) : Tags.read parser trees = .error refusal := by
  unfold Tags.read
  rw [h.readMore_eq hparser fun tag => by simp]
  rfl

/-- Nothing is left over in any expression. -/
lemma firstLeftover_eq_none_iff {given : List (GivenTag parser)} :
    firstLeftover given = none ↔ ∀ g ∈ given, g.expression.leftover = none :=
  List.findSome?_eq_none_iff

/-- Tags are read exactly from acceptable lists. -/
theorem Tags.read_eq_ok_iff (hparser : parser.ReadsItems) {trees : List Tree} {tags : Tags} :
    Tags.read parser trees = .ok tags ↔ ∃ given : List (GivenTag parser),
      TagList trees given ∧ Acceptable given ∧ tags = given.foldl Tags.add {} := by
  constructor
  · intro h
    rcases tagList_or_firstFault hparser [] trees with
      ⟨given, hlist, hdistinct, -⟩ | ⟨refusal, hfault⟩
    · rw [hlist.read_eq hparser hdistinct] at h
      cases hleftover : firstLeftover given with
      | some message =>
        rw [hleftover] at h
        cases h
      | none =>
        rw [hleftover] at h
        cases h
        exact ⟨given, hlist, ⟨hdistinct, firstLeftover_eq_none_iff.mp hleftover⟩, rfl⟩
    · rw [hfault.read_eq hparser] at h
      cases h
  · rintro ⟨given, hlist, hgiven, rfl⟩
    rw [hlist.read_eq hparser hgiven.toDistinct, firstLeftover_eq_none_iff.mpr hgiven.complete]

/-- Other trees are refused for the first tag at fault; what is left over in an expression comes
after all of them. -/
theorem Tags.read_eq_error_iff (hparser : parser.ReadsItems) {trees : List Tree}
    {refusal : Refusal} :
    Tags.read parser trees = .error refusal ↔ FirstFault parser [] trees refusal ∨
      ∃ (given : List (GivenTag parser)) (message : List Char), TagList trees given ∧
        Distinct given ∧ firstLeftover given = some message ∧ refusal = .unparsed message := by
  constructor
  · intro h
    rcases tagList_or_firstFault hparser [] trees with
      ⟨given, hlist, hdistinct, -⟩ | ⟨refusal', hfault⟩
    · rw [hlist.read_eq hparser hdistinct] at h
      cases hleftover : firstLeftover given with
      | some message =>
        rw [hleftover] at h
        cases h
        exact .inr ⟨given, message, hlist, hdistinct, hleftover, rfl⟩
      | none =>
        rw [hleftover] at h
        cases h
    · rw [hfault.read_eq hparser] at h
      cases h
      exact .inl hfault
  · rintro (hfault | ⟨given, message, hlist, hdistinct, hleftover, rfl⟩)
    · exact hfault.read_eq hparser
    · rw [hlist.read_eq hparser hdistinct, hleftover]

/-- Tags can be read exactly from acceptable lists. -/
lemma Tags.exists_read_iff (hparser : parser.ReadsItems) {trees : List Tree} :
    (∃ tags, Tags.read parser trees = .ok tags) ↔
      ∃ given : List (GivenTag parser), TagList trees given ∧ Acceptable given := by
  constructor
  · rintro ⟨tags, h⟩
    obtain ⟨given, hlist, hgiven, -⟩ := (Tags.read_eq_ok_iff hparser).mp h
    exact ⟨given, hlist, hgiven⟩
  · rintro ⟨given, hlist, hgiven⟩
    exact ⟨_, (Tags.read_eq_ok_iff hparser).mpr ⟨given, hlist, hgiven, rfl⟩⟩

/-- Tags are acceptable in every order. -/
lemma Acceptable.of_perm {given given' : List (GivenTag parser)} (h : given'.Perm given)
    (hgiven : Acceptable given) : Acceptable given' where
  known g hg := hgiven.known g (h.mem_iff.mp hg)
  nodup := (h.map GivenTag.name).nodup_iff.mpr hgiven.nodup
  complete g hg := hgiven.complete g (h.mem_iff.mp hg)

/-- Tags in another order are read as the same. -/
theorem TagList.read_perm (hparser : parser.ReadsItems) {trees trees' : List Tree}
    {given given' : List (GivenTag parser)} (h : TagList trees given) (hgiven : Acceptable given)
    (hperm : given'.Perm given) (h' : TagList trees' given') :
    Tags.read parser trees' = Tags.read parser trees := by
  rw [(Tags.read_eq_ok_iff hparser).mpr ⟨given, h, hgiven, rfl⟩,
    (Tags.read_eq_ok_iff hparser).mpr ⟨given', h', hgiven.of_perm hperm, rfl⟩,
    Tags.foldl_add_perm hperm hgiven.nodup]

/-- Any tags can be written as a list, with a comma at the end. -/
lemma exists_tagList (given : List (GivenTag parser)) : ∃ trees, TagList trees given := by
  induction given with
  | nil => exact ⟨[], .nil⟩
  | cons g given ih =>
    obtain ⟨rest, hrest⟩ := ih
    exact ⟨_, .cons g false false hrest⟩

end PowerRule.Declaration
