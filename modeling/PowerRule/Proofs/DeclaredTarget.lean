import PowerRule.Declaration.Generated
import PowerRule.Proofs.Lookahead
import PowerRule.Proofs.TagList

/-!
# What a struct declares

The tags of a struct are those of its first attribute `error` (`Struct.IsTagged`). It declares
something exactly if they can be read and there is a message among them
(`Target.ofStruct_eq_ok_iff`, `Target.exists_ofStruct_iff`); that there is none is found only after
the whole list. `tag_lists` puts this together with how tags are read.
-/

namespace PowerRule.Declaration

/-- The first attribute of the struct that is exactly `error` has these arguments. -/
def Struct.IsTagged (s : Struct) (trees : List Tree) : Prop :=
  ∃ before a after d, s.attributes = before ++ a :: after ∧
    (∀ b ∈ before, b.isNamed "error" = false) ∧ a.isNamed "error" = true ∧
    a.arguments = .list d trees

variable {parser : Parser}

/-! ## The tags of a struct -/

/-- The tags of a struct are read from the arguments of its first attribute `error`. -/
lemma Struct.IsTagged.tags_eq {s : Struct} {trees : List Tree} (h : s.IsTagged trees) :
    s.tags parser = Tags.read parser trees := by
  obtain ⟨before, a, after, d, hsplit, hbefore, hnamed, harguments⟩ := h
  have hfind : s.attributes.find? (Attribute.isNamed "error") = some a := by
    rw [List.find?_eq_some_iff_append]
    refine ⟨hnamed, before, after, hsplit, fun b hb => ?_⟩
    rw [hbefore b hb]
    rfl
  unfold Struct.tags
  rw [hfind]
  dsimp only
  rw [harguments]
  rfl

/-- A struct whose tags can be read has such an attribute. -/
lemma Struct.exists_isTagged {s : Struct} {tags : Tags} (h : s.tags parser = .ok tags) :
    ∃ trees, s.IsTagged trees ∧ Tags.read parser trees = .ok tags := by
  unfold Struct.tags at h
  split at h
  · cases h
  · rename_i a hfind
    obtain ⟨hnamed, before, after, hsplit, hbefore⟩ := List.find?_eq_some_iff_append.mp hfind
    cases harguments : a.arguments with
    | absent =>
      rw [harguments] at h
      cases h
    | value expression =>
      rw [harguments] at h
      cases h
    | list d content =>
      rw [harguments] at h
      refine ⟨content, ⟨before, a, after, d, hsplit, fun b hb => ?_, hnamed, harguments⟩, h⟩
      exact Bool.not_eq_true' _ ▸ hbefore b hb

/-! ## Declared targets -/

/-- No fault of a tag is that the message is missing. -/
lemma TagFault.ne_missingMessage {names : List (List Char)} {trees : List Tree}
    {refusal : Refusal} (h : TagFault parser names trees refusal) : refusal ≠ .missingMessage := by
  cases h <;> exact Refusal.noConfusion

/-- Neither is the first fault. -/
lemma FirstFault.ne_missingMessage {names : List (List Char)} {trees : List Tree}
    {refusal : Refusal} (h : FirstFault parser names trees refusal) : refusal ≠ .missingMessage := by
  induction h with
  | here hfault => exact hfault.ne_missingMessage
  | later _ _ _ _ _ _ ih => exact ih

/-- Reading tags never ends with a missing message. -/
lemma Tags.read_ne_missingMessage (hparser : parser.ReadsItems) {trees : List Tree} :
    Tags.read parser trees ≠ .error .missingMessage := by
  intro h
  rcases (Tags.read_eq_error_iff hparser).mp h with hfault | ⟨_, _, _, _, _, heq⟩
  · exact hfault.ne_missingMessage rfl
  · cases heq

namespace Target

variable {s : Struct} {trees : List Tree}

/-- If the tags of a struct are refused, the struct is. -/
lemma ofStruct_of_error {refusal : Refusal} (h : s.tags parser = .error refusal) :
    ofStruct parser s = .error refusal := by
  unfold ofStruct
  rw [h]
  rfl

/-- What a struct with these tags declares. -/
lemma ofStruct_of_ok {tags : Tags} (h : s.tags parser = .ok tags) :
    ofStruct parser s = match tags.message with
      | none => .error .missingMessage
      | some message =>
        match s.leftover with
        | some said => .error (.unparsed said)
        | none => .ok ⟨s.item.name, s.item.fields, message, tags.labels, tags.help⟩ := by
  unfold ofStruct
  rw [h]
  rfl

/-- A struct declares something with these parts exactly if nothing is left over and its tags have
these expressions. -/
lemma ofStruct_eq_ok_iff_tags {t : Target} :
    ofStruct parser s = .ok t ↔ s.leftover = none ∧ t.name = s.item.name ∧
      t.fields = s.item.fields ∧ ∃ tags, s.tags parser = .ok tags ∧
        tags.message = some t.message ∧ tags.labels = t.labels ∧ tags.help = t.help := by
  cases htags : s.tags parser with
  | error refusal =>
    rw [ofStruct_of_error htags]
    constructor
    · exact fun h => by cases h
    · rintro ⟨-, -, -, tags, h, -⟩
      cases h
  | ok tags =>
    rw [ofStruct_of_ok htags]
    constructor
    · intro h
      cases hmessage : tags.message with
      | none =>
        rw [hmessage] at h
        cases h
      | some message =>
        cases hleftover : s.leftover with
        | some said =>
          rw [hmessage, hleftover] at h
          cases h
        | none =>
          rw [hmessage, hleftover] at h
          cases h
          exact ⟨rfl, rfl, rfl, tags, rfl, hmessage, rfl, rfl⟩
    · obtain ⟨name, fields, message, labels, help⟩ := t
      rintro ⟨hleftover, hname, hfields, tags', htags', hmessage, hlabels, hhelp⟩
      cases htags'
      cases hname
      cases hfields
      cases hlabels
      cases hhelp
      rw [hmessage, hleftover]

/-- A struct declares something exactly if nothing is left over and its list of tags is acceptable.
The parts are those of the struct, and what is given for the tags. -/
theorem ofStruct_eq_ok_iff (hparser : parser.ReadsItems) (h : s.IsTagged trees) {t : Target} :
    ofStruct parser s = .ok t ↔ s.leftover = none ∧ t.name = s.item.name ∧
      t.fields = s.item.fields ∧ ∃ given : List (GivenTag parser), TagList trees given ∧
        Acceptable given ∧ Gives given .message (some t.message) ∧
        Gives given .labels t.labels ∧ Gives given .help t.help := by
  rw [ofStruct_eq_ok_iff_tags, h.tags_eq]
  constructor
  · rintro ⟨hleftover, hname, hfields, tags, hread, hmessage, hlabels, hhelp⟩
    obtain ⟨given, hlist, hgiven, rfl⟩ := (Tags.read_eq_ok_iff hparser).mp hread
    have hgives : ∀ {tag e}, Gives given tag e ↔ e = (given.foldl Tags.add {}).get? tag :=
      Tags.gives_iff hgiven.nodup
    exact ⟨hleftover, hname, hfields, given, hlist, hgiven, hgives.mpr hmessage.symm,
      hgives.mpr hlabels.symm, hgives.mpr hhelp.symm⟩
  · rintro ⟨hleftover, hname, hfields, given, hlist, hgiven, hmessage, hlabels, hhelp⟩
    exact ⟨hleftover, hname, hfields, _,
      (Tags.read_eq_ok_iff hparser).mpr ⟨given, hlist, hgiven, rfl⟩,
      ((Tags.gives_iff hgiven.nodup).mp hmessage).symm,
      ((Tags.gives_iff hgiven.nodup).mp hlabels).symm,
      ((Tags.gives_iff hgiven.nodup).mp hhelp).symm⟩

/-- There is no message among acceptable tags exactly if none has its name. -/
lemma message_foldl {given : List (GivenTag parser)} (hgiven : Acceptable given) :
    (given.foldl Tags.add {}).message = none ↔ Tag.message.name ∉ given.map GivenTag.name := by
  constructor
  · intro h hmem
    obtain ⟨g, hg, hname⟩ := List.mem_map.mp hmem
    cases h.symm.trans (Tags.get?_foldl_of_mem hgiven.nodup hg hname {})
  · intro h
    exact Tags.get?_foldl_of_notMem h {}

/-- A struct declares something if and only if its list of tags is acceptable and has a message,
unless something is left over elsewhere. -/
lemma exists_ofStruct_iff (hparser : parser.ReadsItems) (h : s.IsTagged trees) :
    (∃ t, ofStruct parser s = .ok t) ↔ s.leftover = none ∧
      ∃ given : List (GivenTag parser), TagList trees given ∧ Acceptable given ∧
        Tag.message.name ∈ given.map GivenTag.name := by
  constructor
  · rintro ⟨t, ht⟩
    obtain ⟨hleftover, -, -, given, hlist, hgiven, hmessage, -, -⟩ :=
      (ofStruct_eq_ok_iff hparser h).mp ht
    obtain ⟨g, hg, hname, -⟩ := (hmessage t.message).mp rfl
    exact ⟨hleftover, given, hlist, hgiven, hname ▸ List.mem_map_of_mem hg⟩
  · rintro ⟨hleftover, given, hlist, hgiven, hmem⟩
    have hread := (Tags.read_eq_ok_iff hparser).mpr ⟨given, hlist, hgiven, rfl⟩
    rw [ofStruct_of_ok (h.tags_eq.trans hread)]
    cases hmessage : (given.foldl Tags.add {}).message with
    | none => exact absurd hmem ((message_foldl hgiven).mp hmessage)
    | some message =>
      rw [hleftover]
      exact ⟨_, rfl⟩

/-- A missing message is found only after the whole list. -/
lemma ofStruct_eq_missingMessage_iff (hparser : parser.ReadsItems) (h : s.IsTagged trees) :
    ofStruct parser s = .error .missingMessage ↔
      ∃ given : List (GivenTag parser), TagList trees given ∧ Acceptable given ∧
        Tag.message.name ∉ given.map GivenTag.name := by
  constructor
  · intro ht
    cases hread : Tags.read parser trees with
    | error refusal =>
      rw [ofStruct_of_error (h.tags_eq.trans hread)] at ht
      cases ht
      exact absurd hread (Tags.read_ne_missingMessage hparser)
    | ok tags =>
      obtain ⟨given, hlist, hgiven, rfl⟩ := (Tags.read_eq_ok_iff hparser).mp hread
      refine ⟨given, hlist, hgiven, (message_foldl hgiven).mp ?_⟩
      rw [ofStruct_of_ok (h.tags_eq.trans hread)] at ht
      cases hmessage : (given.foldl Tags.add {}).message with
      | none => rfl
      | some message =>
        rw [hmessage] at ht
        cases hleftover : s.leftover with
        | some said =>
          rw [hleftover] at ht
          cases ht
        | none =>
          rw [hleftover] at ht
          cases ht
  · rintro ⟨given, hlist, hgiven, hnot⟩
    have hread := (Tags.read_eq_ok_iff hparser).mpr ⟨given, hlist, hgiven, rfl⟩
    rw [ofStruct_of_ok (h.tags_eq.trans hread), (message_foldl hgiven).mpr hnot]

/-- Structs with the same tags, name and fields declare the same. -/
lemma ofStruct_congr {s' : Struct} (htags : s'.tags parser = s.tags parser)
    (hname : s'.item.name = s.item.name) (hfields : s'.item.fields = s.item.fields)
    (hleftover : s'.leftover = s.leftover) : ofStruct parser s' = ofStruct parser s := by
  unfold ofStruct
  rw [htags, hname, hfields, hleftover]

end Target

/-! ## Lists of tags -/

/-- Tags are read exactly from lists of tags that there are, each at most once, in which the
expressions are read to the end of their groups. Each tag then has the expression that it is given.
Otherwise the refusal is that of the first tag at fault, or without such a tag that something is
left over in a group.

A struct whose attribute has these arguments declares something exactly if there is a message among
the tags: its name, its fields, and the expressions that the tags are given. That there is no
message is found only after the whole list. The order of the tags does not matter for what is
declared, and a comma at the end does not either. -/
theorem tag_lists (hparser : parser.ReadsItems) (trees : List Tree) :
    ((∃ tags, Tags.read parser trees = .ok tags) ↔
      ∃ given : List (GivenTag parser), TagList trees given ∧ Acceptable given) ∧
    (∀ given : List (GivenTag parser), TagList trees given → Acceptable given →
      ∃ tags, Tags.read parser trees = .ok tags ∧ ∀ tag, Gives given tag (tags.get? tag)) ∧
    (∀ refusal, Tags.read parser trees = .error refusal ↔
      FirstFault parser [] trees refusal ∨
        ∃ (given : List (GivenTag parser)) (message : List Char), TagList trees given ∧
          Distinct given ∧ firstLeftover given = some message ∧ refusal = .unparsed message) ∧
    (∀ s : Struct, s.IsTagged trees →
      (∀ t, Target.ofStruct parser s = .ok t ↔ s.leftover = none ∧ t.name = s.item.name ∧
        t.fields = s.item.fields ∧ ∃ given : List (GivenTag parser), TagList trees given ∧
          Acceptable given ∧ Gives given .message (some t.message) ∧
          Gives given .labels t.labels ∧ Gives given .help t.help) ∧
      ((∃ t, Target.ofStruct parser s = .ok t) ↔ s.leftover = none ∧
        ∃ given : List (GivenTag parser), TagList trees given ∧ Acceptable given ∧
          Tag.message.name ∈ given.map GivenTag.name) ∧
      (Target.ofStruct parser s = .error .missingMessage ↔
        ∃ given : List (GivenTag parser), TagList trees given ∧ Acceptable given ∧
          Tag.message.name ∉ given.map GivenTag.name) ∧
      ∀ refusal, Tags.read parser trees = .error refusal →
        Target.ofStruct parser s = .error refusal) ∧
    ∀ given : List (GivenTag parser), TagList trees given → Acceptable given →
      ∀ given', given'.Perm given →
        (∃ trees', TagList trees' given') ∧
        ∀ trees', TagList trees' given' →
          Tags.read parser trees' = Tags.read parser trees ∧
          ∀ s s' : Struct, s.IsTagged trees → s'.IsTagged trees' → s'.item.name = s.item.name →
            s'.item.fields = s.item.fields → s'.leftover = s.leftover →
            Target.ofStruct parser s' = Target.ofStruct parser s ∧
            (Target.ofStruct parser s').map Target.generated =
              (Target.ofStruct parser s).map Target.generated := by
  refine ⟨Tags.exists_read_iff hparser, ?_, fun _ => Tags.read_eq_error_iff hparser, ?_, ?_⟩
  · intro given hlist hgiven
    refine ⟨_, (Tags.read_eq_ok_iff hparser).mpr ⟨given, hlist, hgiven, rfl⟩, fun tag => ?_⟩
    exact (Tags.gives_iff hgiven.nodup).mpr rfl
  · intro s htagged
    refine ⟨fun _ => Target.ofStruct_eq_ok_iff hparser htagged,
      Target.exists_ofStruct_iff hparser htagged,
      Target.ofStruct_eq_missingMessage_iff hparser htagged, ?_⟩
    exact fun refusal hread => Target.ofStruct_of_error (htagged.tags_eq.trans hread)
  · intro given hlist hgiven given' hperm
    refine ⟨exists_tagList given', fun trees' hlist' => ?_⟩
    have hread := hlist.read_perm hparser hgiven hperm hlist'
    refine ⟨hread, fun s s' hs hs' hname hfields hleftover => ?_⟩
    have htags := hs'.tags_eq.trans (hread.trans hs.tags_eq.symm)
    have htarget := Target.ofStruct_congr htags hname hfields hleftover
    exact ⟨htarget, congrArg (Except.map Target.generated) htarget⟩

/-- A tag whose value is a digit. -/
def GivenTag.ofTag (tag : Tag) : GivenTag .standard where
  name := tag.name
  value := [.literal ['1']]
  expression := ⟨[.literal ['1']], 1, none⟩
  isName := tag.isKeyword_name
  reads :=
    have hreads : Reads [.expression] [.literal ['1']]
        (.after [.literal ['1']] (0 + 1) .empty) :=
      .take (show _ = Action.take 0 _ [.afterOperand, .operators false false] from rfl)
        (.ended rfl (.ended rfl .nil))
    Parser.standard_expression_eq_ok_iff.mpr ⟨_, hreads, rfl⟩
  readsAll := rfl

/-- Such tags are acceptable if none occurs twice. -/
lemma acceptable_map_ofTag (tags : List Tag) (hnodup : tags.Nodup) :
    Acceptable (tags.map GivenTag.ofTag) := by
  refine ⟨⟨fun g hg => ?_, ?_⟩, fun g hg => ?_⟩
  · obtain ⟨tag, -, rfl⟩ := List.mem_map.mp hg
    exact ⟨tag, rfl⟩
  · rw [List.map_map]
    exact hnodup.map fun tag tag' h => Tag.name_injective h
  · obtain ⟨tag, -, rfl⟩ := List.mem_map.mp hg
    rfl

/-- The trees of such a tag. -/
def tagTrees (tag : Tag) : List Tree := [.name tag.name, .punct '=' false, .literal ['1']]

/-- A struct without fields whose attribute has these arguments. -/
def taggedStruct (arguments : List Tree) : Struct :=
  ⟨[⟨false, ["error".toList], .list .parenthesis arguments⟩], ⟨[], "S".toList, [], .unit⟩, none⟩

/-- The target of labels and a message that are a digit each. -/
def labelledTarget : Target :=
  ⟨"S".toList, .unit, [.literal ['1']], some [.literal ['1']], none⟩

/-- Labels and a message declare the same in both orders, with a comma at the end and without one.
Labels alone do not suffice, and labels cannot be given twice. -/
theorem tag_lists_reordered :
    Parser.standard.ReadsItems ∧
    Target.ofStruct .standard (taggedStruct
      (tagTrees .labels ++ .punct ',' false :: tagTrees .message)) = .ok labelledTarget ∧
    Target.ofStruct .standard (taggedStruct
        (tagTrees .message ++ .punct ',' false :: (tagTrees .labels ++ [.punct ',' false]))) =
      .ok labelledTarget ∧
    Target.ofStruct .standard (taggedStruct (tagTrees .labels)) = .error .missingMessage ∧
    Tags.read .standard (tagTrees .labels ++ .punct ',' false :: tagTrees .labels) =
      .error (.duplicateTag "labels".toList) := by
  have hparser := Parser.standard_readsItems
  have htagged : ∀ trees, (taggedStruct trees).IsTagged trees :=
    fun trees => ⟨[], _, [], _, rfl, fun b hb => (by cases hb), rfl, rfl⟩
  have hlist := TagList.cons (.ofTag .labels) false false (.last (.ofTag .message) false)
  have hlist' :=
    TagList.cons (.ofTag .message) false false (.cons (.ofTag .labels) false false .nil)
  have hboth := acceptable_map_ofTag [.labels, .message] (by decide)
  obtain ⟨-, -, -, hstruct, hperm⟩ :=
    tag_lists hparser (tagTrees .labels ++ .punct ',' false :: tagTrees .message)
  obtain ⟨-, -, -, hlabels, -⟩ := tag_lists hparser (tagTrees .labels)
  obtain ⟨-, -, herror, -, -⟩ :=
    tag_lists hparser (tagTrees .labels ++ .punct ',' false :: tagTrees .labels)
  have hnodup := hboth.nodup
  have htarget := ((hstruct _ (htagged _)).1 labelledTarget).mpr ⟨rfl, rfl, rfl, _, hlist, hboth,
    (Tags.gives_iff hnodup).mpr rfl, (Tags.gives_iff hnodup).mpr rfl,
    (Tags.gives_iff hnodup).mpr rfl⟩
  refine ⟨hparser, htarget, ?_, ?_, ?_⟩
  · exact (((hperm _ hlist hboth _ (List.Perm.swap _ _ _)).2 _ hlist').2 _ _ (htagged _)
      (htagged _) rfl rfl rfl).1.trans htarget
  · exact (hlabels _ (htagged _)).2.2.1.mpr
      ⟨_, .last (.ofTag .labels) false, acceptable_map_ofTag [.labels] (by decide), by decide⟩
  · have hagain : Tag.labels.name ∈ [Tag.labels.name] := List.mem_cons_self
    exact (herror _).mpr (.inl (.later (.ofTag .labels) false false
      (show (GivenTag.ofTag .labels).name = Tag.labels.name from rfl) (by decide)
      (.here (.duplicate hagain))))

end PowerRule.Declaration
