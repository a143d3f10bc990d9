import Mathlib.Data.List.Find
import PowerRule.Declaration.Grammar.Standard
import PowerRule.Proofs.SymbolActions

/-!
# What follows a comma

An expression or a type is read from the start of trees and ends before a comma or at the end. What
comes after does not matter: trees that agree up to there (`SameFront`) are read in the same way
(`Reads.sameFront`), although actions look further than the next tree. So lists of tags can be read
with this grammar (`Parser.standard_readsItems`).
-/

namespace PowerRule.Declaration

/-- The first trees, this many, are the same, and then both are at their end or at a comma. -/
inductive SameFront : Nat → List Tree → List Tree → Prop where
  | ended {trees trees' : List Tree} :
    EndsItem trees →
    EndsItem trees' →
    SameFront 0 trees trees'
  | cons {n : Nat} {trees trees' : List Tree} (t : Tree) :
    SameFront n trees trees' →
    SameFront (n + 1) (t :: trees) (t :: trees')

/-- The actions are the same, or both fail. -/
def Action.Alike (a a' : Action) : Prop :=
  a = a' ∨ (∃ p, a = fail p) ∧ ∃ p, a' = fail p

/-! ## Looking at the same front -/

/-- The tree is a name. -/
def Tree.isName : Tree → Bool
  | name _ => true
  | _ => false

/-- Whether a lifetime starts depends on the first two trees. -/
lemma startsLifetime_cons (t : Tree) (rest : List Tree) :
    startsLifetime (t :: rest) = (t.isPunct '\'' && rest.head?.any Tree.isName) := by
  unfold startsLifetime
  split
  · rename_i heq
    cases heq
    rfl
  · rename_i hnot
    symm
    rw [Bool.and_eq_false_iff]
    cases t with
    | punct c joined =>
      cases rest with
      | nil => exact .inr rfl
      | cons u rest =>
        cases u with
        | name word =>
          refine .inl (beq_eq_false_iff_ne.mpr ?_)
          rintro rfl
          exact hnot _ _ _ rfl
        | punct _ _ => exact .inr rfl
        | literal _ => exact .inr rfl
        | group _ _ => exact .inr rfl
    | name _ => exact .inl rfl
    | literal _ => exact .inl rfl
    | group _ _ => exact .inl rfl

/-- Trees that start with a character start with a tree for it. -/
lemma exists_of_startsWith_single {c : Char} {trees : List Tree}
    (h : Tree.startsWith [c] trees = true) : ∃ joined rest, trees = .punct c joined :: rest := by
  cases trees with
  | nil => cases h
  | cons t rest =>
    cases t with
    | punct d joined => exact ⟨joined, rest, by rw [beq_iff_eq.mp (show (c == d) = true from h)]⟩
    | name _ => cases h
    | literal _ => cases h
    | group _ _ => cases h

/-- Trees that start with an operator start with its first character, joined to the others. -/
lemma exists_of_startsWith_cons {c d : Char} {text : List Char} {trees : List Tree}
    (h : Tree.startsWith (c :: d :: text) trees = true) :
    ∃ rest, trees = .punct c true :: rest ∧ Tree.startsWith (d :: text) rest = true := by
  cases trees with
  | nil => cases h
  | cons t rest =>
    cases t with
    | punct e joined =>
      cases joined with
      | true =>
        obtain ⟨hc, hrest⟩ := (Bool.and_eq_true _ _).mp h
        exact ⟨rest, by rw [beq_iff_eq.mp hc], hrest⟩
      | false => cases h
    | name _ => cases h
    | literal _ => cases h
    | group _ _ => cases h

/-- A double colon before a tree is a double colon, and then the tree. -/
lemma colonsBefore_eq (isNext : Tree → Bool) (trees : List Tree) :
    colonsBefore isNext trees =
      (Tree.startsWith doubleColon trees && (trees.drop 2).head?.any isNext) := by
  unfold colonsBefore
  split
  · rfl
  · rename_i hnot
    cases hcolons : Tree.startsWith doubleColon trees with
    | false => rfl
    | true =>
      obtain ⟨rest, rfl, hcolon⟩ := exists_of_startsWith_cons hcolons
      obtain ⟨joined, rest, rfl⟩ := exists_of_startsWith_single hcolon
      cases rest with
      | nil => rfl
      | cons t rest => exact absurd rfl (hnot joined t rest)

namespace SameFront

variable {n : Nat} {trees trees' : List Tree}

/-- Fewer of the first trees are the same as well. -/
lemma drop (h : SameFront n trees trees') {k : Nat} (hk : k ≤ n) :
    SameFront (n - k) (trees.drop k) (trees'.drop k) := by
  induction h generalizing k with
  | ended h h' =>
    cases Nat.le_zero.mp hk
    exact .ended h h'
  | @cons n trees trees' t h ih =>
    cases k with
    | zero => exact .cons t h
    | succ k =>
      rw [Nat.add_sub_add_right]
      exact ih (Nat.le_of_succ_le_succ hk)

/-- Characters other than a comma do not begin what is at its end or at a comma. -/
lemma startsWith_of_endsItem (h : EndsItem trees) {c : Char} {text : List Char} (hc : c ≠ ',') :
    Tree.startsWith (c :: text) trees = false := by
  cases h with
  | nil =>
    rw [Tree.startsWith.eq_def]
    cases text <;> rfl
  | @comma joined rest =>
    have hfalse : (c == ',') = false := beq_eq_false_iff_ne.mpr hc
    cases text with
    | nil => exact hfalse
    | cons d text =>
      cases joined with
      | true =>
        rw [Tree.startsWith.eq_def]
        dsimp only
        rw [hfalse]
        rfl
      | false => rfl

/-- What the trees after the next one start with decides about all of them. -/
lemma startsWith_cons_congr (t : Tree) (c : Char) {text : List Char}
    (h : Tree.startsWith text trees = Tree.startsWith text trees') :
    Tree.startsWith (c :: text) (t :: trees) = Tree.startsWith (c :: text) (t :: trees') := by
  cases text with
  | nil => cases t <;> rfl
  | cons d text =>
    cases t with
    | punct e joined =>
      cases joined with
      | true => exact congrArg ((c == e) && ·) h
      | false => rfl
    | name _ => rfl
    | literal _ => rfl
    | group _ _ => rfl

/-- The same front starts with the same operators. -/
lemma startsWith (h : SameFront n trees trees') {text : List Char} (htext : ',' ∉ text) :
    Tree.startsWith text trees = Tree.startsWith text trees' := by
  induction text generalizing n trees trees' with
  | nil => rw [Tree.startsWith.eq_1, Tree.startsWith.eq_1]
  | cons c text ih =>
    have hc : c ≠ ',' := fun hc => htext (by simp [hc])
    cases h with
    | ended h h' => rw [startsWith_of_endsItem h hc, startsWith_of_endsItem h' hc]
    | cons t h =>
      have hnot := fun hmem => htext (List.mem_cons_of_mem _ hmem)
      exact startsWith_cons_congr t c (ih h hnot)

/-- A comma is like the end for what looks for another tree. -/
lemma any_head (h : SameFront n trees trees') {p : Tree → Bool}
    (hcomma : ∀ joined, p (.punct ',' joined) = false) :
    trees.head?.any p = trees'.head?.any p := by
  have hends : ∀ {l}, EndsItem l → l.head?.any p = false := by
    intro l hl
    cases hl with
    | nil => rfl
    | comma => exact hcomma _
  cases h with
  | ended h h' => rw [hends h, hends h']
  | cons t h => rfl

/-- The same front starts with a lifetime or does not. -/
lemma startsLifetime (h : SameFront n trees trees') :
    startsLifetime trees = startsLifetime trees' := by
  cases h with
  | ended h h' => cases h <;> cases h' <;> rfl
  | cons t h => rw [startsLifetime_cons, startsLifetime_cons, h.any_head fun _ => rfl]

/-- The same front starts with a double colon before a tree or does not. -/
lemma colonsBefore (h : SameFront n trees trees') {isNext : Tree → Bool}
    (hcomma : ∀ joined, isNext (.punct ',' joined) = false) :
    colonsBefore isNext trees = colonsBefore isNext trees' := by
  rw [colonsBefore_eq, colonsBefore_eq, h.startsWith (by decide)]
  cases hcolons : Tree.startsWith doubleColon trees' with
  | false => rfl
  | true =>
    -- Two colons are there, so both have the same trees after them.
    obtain ⟨rest', rfl, hcolon⟩ := exists_of_startsWith_cons hcolons
    obtain ⟨joined, rest', rfl⟩ := exists_of_startsWith_single hcolon
    cases h with
    | ended h h' => cases h'
    | cons _ h =>
      cases h with
      | ended h h' => cases h'
      | cons _ h => exact congrArg (true && ·) (h.any_head hcomma)

/-- With one more tree before it, the same front starts with the same operators. -/
lemma startsWith_cons (h : SameFront n trees trees') (t : Tree) {text : List Char}
    (htext : ',' ∉ text.tail) :
    Tree.startsWith text (t :: trees) = Tree.startsWith text (t :: trees') := by
  cases text with
  | nil => rw [Tree.startsWith.eq_1, Tree.startsWith.eq_1]
  | cons c text => exact startsWith_cons_congr t c (h.startsWith htext)

/-- It also starts with one of the same operators. -/
lemma any_startsWith_cons (h : SameFront n trees trees') (t : Tree) {texts : List String}
    (htexts : ∀ text ∈ texts, ',' ∉ text.toList.tail) :
    (texts.any fun text => Tree.startsWith text.toList (t :: trees)) =
      texts.any fun text => Tree.startsWith text.toList (t :: trees') := by
  induction texts with
  | nil => rfl
  | cons text texts ih =>
    rw [List.any_cons, List.any_cons, h.startsWith_cons t (htexts text List.mem_cons_self),
      ih fun text' hmem => htexts text' (List.mem_cons_of_mem _ hmem)]

/-- A range may end before the same front or may not. -/
lemma endsRange (h : SameFront n trees trees') : endsRange trees = endsRange trees' := by
  have hends : ∀ {l}, EndsItem l → Declaration.endsRange l = true := by
    intro l hl
    cases hl with
    | nil => rfl
    | comma => rfl
  cases h with
  | ended h h' => rw [hends h, hends h']
  | cons t h =>
    unfold Declaration.endsRange
    dsimp only
    rw [h.any_startsWith_cons t (by decide), h.startsWith_cons t (by decide),
      h.startsWith_cons t (by decide)]

/-- The same front has the same operator between operands. -/
lemma binaryOperator? (h : SameFront n trees trees') :
    binaryOperator? trees = binaryOperator? trees' := by
  have hcomma : ∀ o ∈ binaryOperators, ',' ∉ o.1.toList := by decide
  exact List.find?_congr fun o hmem => h.startsWith (hcomma o hmem)

/-- The same front starts with an assignment or does not. -/
lemma startsAssignment (h : SameFront n trees trees') :
    startsAssignment trees = startsAssignment trees' := by
  unfold Declaration.startsAssignment
  rw [h.startsWith (by decide), h.startsWith (by decide)]

end SameFront

/-! ## Acting on the same front -/

namespace Action

variable {n : Nat} {t : Tree} {rest rest' : List Tree}

/-- An action is alike to itself. -/
lemma Alike.refl (a : Action) : a.Alike a := .inl rfl

/-- Two actions that fail are alike. -/
lemma Alike.fail (problem problem' : Problem) : Alike (fail problem) (fail problem') :=
  .inr ⟨⟨_, rfl⟩, _, rfl⟩

/-- Actions that are alike still are so with more symbols to come. -/
lemma Alike.andThen {a a' : Action} (h : a.Alike a') (below : List Symbol) :
    (a.andThen below).Alike (a'.andThen below) := by
  rcases h with rfl | ⟨⟨problem, rfl⟩, problem', rfl⟩
  · exact .refl _
  · exact .fail _ _

/-- What is done at a path does not depend on what follows a comma. -/
lemma alike_path (h : SameFront n rest rest') (use : PathUse) :
    (path use t rest).Alike (path use t rest') := by
  unfold path
  rw [(h.cons t).startsWith (by decide)]
  exact .refl _

/-- What is done at the call of a macro does not depend on what follows a comma. -/
lemma alike_macroCall (h : SameFront n rest rest') (otherwise : Action) :
    ((macroCall? t rest).getD otherwise).Alike ((macroCall? t rest').getD otherwise) := by
  cases t with
  | punct c joined =>
    by_cases hc : c = '!'
    · subst hc
      cases h with
      | ended h h' => cases h <;> cases h' <;> cases joined <;> exact .fail _ _
      | cons u h =>
        refine .inl ?_
        cases u with
        | punct d joined' =>
          by_cases hd : d = '='
          · subst hd
            cases joined <;> rfl
          · cases joined <;> simp [macroCall?, hd, Problem.insteadOf]
        | group d content => cases joined <;> rfl
        | name word => cases joined <;> rfl
        | literal text => cases joined <;> rfl
    · have hnone : ∀ l, macroCall? (.punct c joined) l = none := by
        intro l
        cases l with
        | nil => simp [macroCall?, hc]
        | cons u l => cases u <;> simp [macroCall?, hc]
      rw [hnone, hnone]
      exact .refl _
  | name _ => exact .refl _
  | literal _ => exact .refl _
  | group _ _ => exact .refl _

/-- What is done after a type that is a path does not depend on what follows a comma. -/
lemma alike_afterPathType (h : SameFront n rest rest') (plus plain : Bool) :
    (afterPathType plus plain t rest).Alike (afterPathType plus plain t rest') := by
  cases plain with
  | false => exact .refl _
  | true =>
    have hgetD : ∀ l, afterPathType plus true t l = (macroCall? t l).getD
        (if plus && t.isPunct '+' then takePunct '+' [.moreBounds true] else skip) := by
      intro l
      unfold afterPathType
      rw [if_pos rfl]
      cases macroCall? t l <;> rfl
    rw [hgetD, hgetD]
    exact alike_macroCall h _

/-- What is done after a path does not depend on what follows a comma. -/
lemma alike_afterPath (h : SameFront n rest rest') (use : PathUse) (plain : Bool) :
    (afterPath use plain t rest).Alike (afterPath use plain t rest') := by
  cases use with
  | operand =>
    unfold afterPath
    dsimp only
    split
    · exact .refl _
    · split_ifs
      · exact alike_macroCall h _
      · exact .refl _
  | type plus => exact alike_afterPathType h plus plain
  | argument =>
    unfold afterPath
    dsimp only
    split_ifs
    · exact .refl _
    · exact .refl _
    · exact alike_afterPathType h true plain
  | bound => exact .refl _
  | trait => exact .refl _
  | member => exact .refl _

/-- What is done after the arguments of a name in a path does not depend on what follows a comma. -/
lemma alike_afterArguments (h : SameFront n rest rest') (use : PathUse) (plain : Bool) :
    (afterArguments use plain t rest).Alike (afterArguments use plain t rest') := by
  unfold afterArguments
  dsimp only
  rw [(h.cons t).startsWith (by decide), (h.cons t).colonsBefore fun _ => rfl]
  split_ifs
  · exact .refl _
  · exact alike_afterPath h use plain

/-- What is done after a name of a path does not depend on what follows a comma. -/
lemma alike_afterSegment (h : SameFront n rest rest') (use : PathUse) (plain generic : Bool) :
    (afterSegment use plain generic t rest).Alike (afterSegment use plain generic t rest') := by
  unfold afterSegment
  dsimp only
  rw [(h.cons t).startsWith (by decide), (h.cons t).colonsBefore fun _ => rfl,
    (h.cons t).colonsBefore fun _ => rfl]
  split_ifs
  · exact .refl _
  · exact .refl _
  · exact .refl _
  · exact .refl _
  · exact alike_afterArguments h use plain

/-- A lifetime that is there is taken whatever follows. -/
lemma takeLifetime_eq (h : SameFront n rest rest') (hlifetime : startsLifetime (t :: rest) = true)
    (next : List Symbol) : takeLifetime (t :: rest) next = takeLifetime (t :: rest') next := by
  cases h with
  | ended h h' =>
    rw [startsLifetime_cons] at hlifetime
    cases h with
    | nil => cases ((Bool.and_eq_true _ _).mp hlifetime).2
    | comma => cases ((Bool.and_eq_true _ _).mp hlifetime).2
  | cons u h => rfl

/-- What is done at a bound does not depend on what follows a comma. -/
lemma alike_bound (h : SameFront n rest rest') (plus hasTrait : Bool) :
    (bound plus hasTrait t rest).Alike (bound plus hasTrait t rest') := by
  unfold bound
  dsimp only
  rw [← (h.cons t).startsLifetime]
  split_ifs with hlifetime
  · exact .inl (takeLifetime_eq h hlifetime _)
  · exact .refl _
  · exact .refl _
  · exact .refl _
  · exact (alike_path h .bound).andThen _

/-- What is done after the plus of bounds does not depend on what follows a comma. -/
lemma alike_moreBounds (h : SameFront n rest rest') (hasTrait : Bool) :
    (moreBounds hasTrait t rest).Alike (moreBounds hasTrait t rest') := by
  unfold moreBounds
  dsimp only
  rw [← (h.cons t).startsLifetime, ← (h.cons t).startsWith (by decide)]
  split_ifs
  · exact alike_bound h true hasTrait
  · exact .refl _
  · exact .refl _

/-- What is done at a function type does not depend on what follows a comma. -/
lemma alike_functionType (h : SameFront n rest rest') :
    (functionType t rest).Alike (functionType t rest') := by
  unfold functionType
  split_ifs
  · cases h with
    | ended h h' => cases h <;> cases h' <;> exact .refl _
    | cons u h => cases u <;> exact .refl _
  · exact .refl _

/-- What is done at a reference does not depend on what follows a comma. -/
lemma reference_eq (h : SameFront n rest rest') : reference rest = reference rest' := by
  cases hlifetime : startsLifetime rest with
  | false =>
    have hlifetime' := h.startsLifetime.symm.trans hlifetime
    unfold reference
    dsimp only
    rw [hlifetime, hlifetime']
    cases h with
    | ended h h' => cases h <;> cases h' <;> rfl
    | cons t h => rfl
  | true =>
    -- The lifetime is the same two trees on both sides.
    cases h with
    | ended h h' => cases h <;> cases hlifetime
    | cons t h =>
      cases h with
      | ended h h' =>
        rw [startsLifetime_cons] at hlifetime
        cases h with
        | nil => cases ((Bool.and_eq_true _ _).mp hlifetime).2
        | comma => cases ((Bool.and_eq_true _ _).mp hlifetime).2
      | @cons m l l' u h =>
        have hlifetime' : startsLifetime (t :: u :: l') = true := by
          rw [startsLifetime_cons] at hlifetime ⊢
          exact hlifetime
        unfold reference
        dsimp only
        rw [hlifetime, hlifetime']
        cases h with
        | ended h h' => cases h <;> cases h' <;> rfl
        | cons v h => rfl

/-- What is done at a pointer does not depend on what follows a comma. -/
lemma alike_pointer (h : SameFront n rest rest') : (pointer rest).Alike (pointer rest') := by
  cases h with
  | ended h h' => cases h <;> cases h' <;> exact .fail _ _
  | cons t h => exact .refl _

/-- What is done at a type that starts with a word does not depend on what follows a comma. -/
lemma alike_wordType (h : SameFront n rest rest') (plus : Bool) (word : List Char) :
    (wordType plus word rest).Alike (wordType plus word rest') := by
  unfold wordType
  dsimp only
  split_ifs
  · exact .refl _
  · exact .refl _
  · exact alike_functionType h
  · exact .refl _
  · exact .refl _
  · exact .refl _
  · exact .refl _

/-- What is done at a type does not depend on what follows a comma. -/
lemma alike_type (h : SameFront n rest rest') (plus : Bool) :
    (type plus t rest).Alike (type plus t rest') := by
  cases t with
  | name word => exact alike_wordType h plus word
  | literal text => exact .refl _
  | group d content => cases d <;> exact .refl _
  | punct c joined =>
    unfold type
    dsimp only
    rw [← (h.cons _).startsLifetime, ← (h.cons _).startsWith (by decide)]
    split_ifs
    · exact .refl _
    · exact .refl _
    · exact .inl (reference_eq h)
    · exact alike_pointer h
    · exact .refl _
    · exact alike_bound h plus false
    · exact .refl _

/-- A constant in generic arguments is found whatever follows a comma. -/
lemma constant?_eq (h : SameFront n rest rest') : constant? t rest = constant? t rest' := by
  cases t with
  | punct c joined =>
    by_cases hc : c = '-'
    · subst hc
      cases h with
      | ended h h' => cases h <;> cases h' <;> rfl
      | cons u h => cases u <;> rfl
    · simp [constant?, hc]
  | name word => rfl
  | literal text => rfl
  | group d content => cases d <;> rfl

/-- What is done at what a name in generic arguments is given does not depend on what follows a
comma. -/
lemma alike_argumentValue (h : SameFront n rest rest') :
    (argumentValue t rest).Alike (argumentValue t rest') := by
  unfold argumentValue
  rw [constant?_eq h]
  cases constant? t rest' with
  | none => exact alike_type h true
  | some action => exact .refl _

/-- A lifetime that is no bound starts both or none of the trees. -/
lemma startsLifetime_and_eq (h : SameFront n rest rest') :
    (startsLifetime (t :: rest) && !Tree.startsWith ['+'] ((t :: rest).drop 2)) =
      (startsLifetime (t :: rest') && !Tree.startsWith ['+'] ((t :: rest').drop 2)) := by
  rw [← (h.cons t).startsLifetime]
  cases hlifetime : startsLifetime (t :: rest) with
  | false => rfl
  | true =>
    cases h with
    | ended h h' =>
      rw [startsLifetime_cons] at hlifetime
      cases h with
      | nil => cases ((Bool.and_eq_true _ _).mp hlifetime).2
      | comma => cases ((Bool.and_eq_true _ _).mp hlifetime).2
    | cons u h => exact congrArg (true && !·) (h.startsWith (by decide))

/-- What is done at a generic argument does not depend on what follows a comma. -/
lemma alike_argument (h : SameFront n rest rest') :
    (argument t rest).Alike (argument t rest') := by
  unfold argument
  dsimp only
  rw [← startsLifetime_and_eq h]
  split_ifs with hlifetime
  · exact .inl (takeLifetime_eq h ((Bool.and_eq_true _ _).mp hlifetime).1 _)
  · cases t with
    | name word =>
      dsimp only
      split_ifs
      · exact .refl _
      · exact alike_argumentValue h
    | punct c joined => exact alike_argumentValue h
    | literal text => exact alike_argumentValue h
    | group d content => exact alike_argumentValue h

/-- What is done at generic arguments or their end does not depend on what follows a comma. -/
lemma alike_arguments (h : SameFront n rest rest') :
    (arguments t rest).Alike (arguments t rest') := by
  unfold arguments
  split_ifs
  · exact .refl _
  · exact (alike_argument h).andThen _

/-- What is done at the bounds of a name in generic arguments does not depend on what follows a
comma. -/
lemma alike_argumentBounds (h : SameFront n rest rest') :
    (argumentBounds t rest).Alike (argumentBounds t rest') := by
  unfold argumentBounds
  split_ifs
  · exact .refl _
  · exact alike_bound h true true

/-- What is done at lifetimes or their end does not depend on what follows a comma. -/
lemma alike_lifetimes (h : SameFront n rest rest') :
    (lifetimes t rest).Alike (lifetimes t rest') := by
  unfold lifetimes
  rw [← (h.cons t).startsLifetime]
  split_ifs with _ hlifetime
  · exact .refl _
  · exact .inl (takeLifetime_eq h hlifetime _)
  · exact .refl _

/-- What is done at the type of a field with the name `_` does not depend on what follows a comma.
-/
lemma alike_blankFieldType (h : SameFront n rest rest') :
    (blankFieldType t rest).Alike (blankFieldType t rest') := by
  have hbraced : ∀ isBraced : Bool,
      Alike (if t.isWord "struct" || (t.isWord "union" && isBraced) then take 0 [t] [.fieldBraces]
        else type true t rest)
      (if t.isWord "struct" || (t.isWord "union" && isBraced) then take 0 [t] [.fieldBraces]
        else type true t rest') := by
    intro isBraced
    split_ifs
    · exact .refl _
    · exact alike_type h true
  cases h with
  | ended h h' => cases h <;> cases h' <;> exact hbraced false
  | cons u h =>
    cases u with
    | group d content =>
      cases d with
      | brace => exact hbraced true
      | bracket => exact hbraced false
      | parenthesis => exact hbraced false
    | name word => exact hbraced false
    | punct c joined => exact hbraced false
    | literal text => exact hbraced false

/-- What is done at a range does not depend on what follows a comma. -/
lemma alike_range (h : SameFront n rest rest')
    (hrange : Tree.startsWith ['.', '.'] (t :: rest) = true) :
    (range t rest).Alike (range t rest') := by
  have hends : endsRange (rest.drop 1) = endsRange (rest'.drop 1) := by
    obtain ⟨more, heq, hpoint⟩ := exists_of_startsWith_cons hrange
    cases heq
    obtain ⟨joined, more, rfl⟩ := exists_of_startsWith_single hpoint
    cases h with
    | ended h h' => cases h
    | cons u h => exact h.endsRange
  unfold range
  dsimp only
  rw [← (h.cons t).startsWith (by decide), ← (h.cons t).startsWith (by decide), ← hends]
  exact .refl _

/-- What is done at the mark of a reference does not depend on what follows a comma. -/
lemma alike_borrow (h : SameFront n rest rest') : (borrow rest).Alike (borrow rest') := by
  have hends : ∀ {l}, EndsItem l → borrow l = take 0 [.punct '&' false] [.operand] := by
    intro l hl
    cases hl with
    | nil => rfl
    | @comma joined l => cases l <;> rfl
  have hlast : ∀ t {l}, EndsItem l → borrow (t :: l) =
      if t.isWord "mut" then take 1 [.punct '&' false, t] [.operand]
      else take 0 [.punct '&' false] [.operand] := by
    intro t l hl
    cases hl with
    | nil => rfl
    | comma => simp [borrow, Tree.isWord]
  refine .inl ?_
  cases h with
  | ended h h' => rw [hends h, hends h']
  | cons t h =>
    cases h with
    | ended h h' => rw [hlast t h, hlast t h']
    | cons u h => rfl

/-- What is done at an operand that starts with a word does not depend on what follows a comma. -/
lemma alike_wordOperand (h : SameFront n rest rest') (word : List Char) :
    (wordOperand word rest).Alike (wordOperand word rest') := by
  unfold wordOperand
  dsimp only
  rw [h.startsWith (by decide), h.startsWith (by decide), h.startsWith (by decide)]
  exact .refl _

/-- What is done at an operand does not depend on what follows a comma. -/
lemma alike_operand (h : SameFront n rest rest') :
    (operand t rest).Alike (operand t rest') := by
  cases t with
  | literal text => exact .refl _
  | name word => exact alike_wordOperand h word
  | group d content => cases d <;> exact .refl _
  | punct c joined =>
    unfold operand
    dsimp only
    rw [← (h.cons _).startsLifetime, ← (h.cons _).startsWith (by decide),
      ← (h.cons _).startsWith (by decide)]
    split_ifs with _ _ _ _ _ hrange hlifetime
    · exact .refl _
    · exact alike_borrow h
    · exact .refl _
    · exact .refl _
    · exact .refl _
    · exact alike_range h hrange
    · exact .inl (takeLifetime_eq h hlifetime _)
    · exact .refl _

/-- What is done after an operand does not depend on what follows a comma. -/
lemma alike_afterOperand (h : SameFront n rest rest') :
    (afterOperand t rest).Alike (afterOperand t rest') := by
  unfold afterOperand
  rw [← (h.cons t).startsWith (by decide)]
  exact .refl _

/-- What is done at a member does not depend on what follows a comma. -/
lemma alike_member (h : SameFront n rest rest') (fraction : Bool) :
    (member fraction t rest).Alike (member fraction t rest') := by
  cases t with
  | literal text => exact .refl _
  | name word => exact .refl _
  | group d content => exact .refl _
  | punct c joined =>
    refine .inl ?_
    by_cases hc : c = '-'
    · subst hc
      cases h with
      | ended h h' => cases h <;> cases h' <;> rfl
      | cons u h => cases u <;> rfl
    · simp [member, hc]

/-- What is done after the name of a member does not depend on what follows a comma. -/
lemma alike_afterMember (h : SameFront n rest rest') :
    (afterMember t rest).Alike (afterMember t rest') := by
  unfold afterMember
  dsimp only
  rw [← (h.cons t).startsWith (by decide), ← (h.cons t).colonsBefore fun _ => rfl]
  exact .refl _

/-- What is done after an operand with all that belongs to it does not depend on what follows a
comma. -/
lemma alike_operators (h : SameFront n rest rest') (compared ranged : Bool) :
    (operators compared ranged t rest).Alike (operators compared ranged t rest') := by
  unfold operators
  dsimp only
  rw [← (h.cons t).binaryOperator?, ← (h.cons t).startsAssignment,
    ← (h.cons t).startsWith (by decide)]
  split
  · exact .refl _
  · split_ifs with _ _ hrange
    · exact .refl _
    · exact .refl _
    · exact alike_range h ((Bool.and_eq_true _ _).mp hrange).1
    · exact .refl _

/-- What is done after a cast does not depend on what follows a comma. -/
lemma alike_afterCast (h : SameFront n rest rest') :
    (afterCast t rest).Alike (afterCast t rest') := by
  unfold afterCast
  rw [← (h.cons t).startsWith (by decide)]
  split
  · exact .refl _
  · exact .refl _
  · exact .refl _
  · split_ifs
    · exact .refl _
    · exact .fail _ _
  · exact .refl _

/-- What is done at an expression does not depend on what follows a comma. -/
lemma alike_expression (h : SameFront n rest rest') :
    (expression t rest).Alike (expression t rest') := by
  unfold expression
  rw [← (h.cons t).startsWith (by decide)]
  split_ifs with hrange
  · exact alike_range h hrange
  · exact (alike_operand h).andThen _

end Action

/-- Inline symbols look no further than to a comma. -/
theorem Symbol.alike_action {s : Symbol} (hs : s.isInline = true) {n : Nat} {rest rest' : List Tree}
    (h : SameFront n rest rest') (t : Tree) : (s.action t rest).Alike (s.action t rest') := by
  cases s with
  | operator text =>
    have htext : ',' ∉ text := by
      intro hmem
      rw [isInline, List.contains_iff_mem.mpr hmem] at hs
      cases hs
    unfold Symbol.action
    dsimp only
    rw [(h.cons t).startsWith htext]
    exact .refl _
  | expression => exact Action.alike_expression h
  | operand => exact Action.alike_operand h
  | afterOperand => exact Action.alike_afterOperand h
  | operators compared ranged => exact Action.alike_operators h compared ranged
  | afterCast => exact Action.alike_afterCast h
  | builtinName => exact .refl _
  | builtinArguments => exact .refl _
  | labelled => exact .refl _
  | member fraction => exact Action.alike_member h fraction
  | afterMember => exact Action.alike_afterMember h
  | methodArguments => exact .refl _
  | attributeBrackets => exact .refl _
  | path use => exact Action.alike_path h use
  | segment use plain => exact .refl _
  | afterSegment use plain generic => exact Action.alike_afterSegment h use plain generic
  | afterArguments use plain => exact Action.alike_afterArguments h use plain
  | arguments => exact Action.alike_arguments h
  | afterArgument => exact .refl _
  | argumentValue => exact Action.alike_argumentValue h
  | argumentBounds => exact Action.alike_argumentBounds h
  | asTrait => exact .refl _
  | type plus => exact Action.alike_type h plus
  | functionType => exact Action.alike_functionType h
  | functionKeyword => exact .refl _
  | parameterList => exact .refl _
  | resultType =>
    unfold Symbol.action
    dsimp only
    rw [(h.cons t).startsWith (by decide)]
    exact .refl _
  | bound plus hasTrait => exact Action.alike_bound h plus hasTrait
  | afterBound plus hasTrait => exact .refl _
  | moreBounds hasTrait => exact Action.alike_moreBounds h hasTrait
  | lifetimes => exact Action.alike_lifetimes h
  | afterLifetime => exact .refl _
  | blankFieldType => exact Action.alike_blankFieldType h
  | fieldBraces => exact .refl _
  | _ => cases hs

/-! ## Acting on a comma -/

/-- After a path there is nothing at a comma. -/
lemma Action.afterPath_comma (use : PathUse) (plain joined : Bool) (rest : List Tree) :
    afterPath use plain (.punct ',' joined) rest = .skip := by
  have hcall : macroCall? (.punct ',' joined) rest = none := by simp [macroCall?]
  have htype : ∀ plus plain, afterPathType plus plain (.punct ',' joined) rest = .skip := by
    intro plus plain
    unfold afterPathType
    rw [hcall, ite_self]
    cases plus <;> rfl
  cases use with
  | operand =>
    unfold afterPath
    dsimp only
    rw [hcall]
    exact ite_self _
  | type plus => exact htype plus plain
  | argument => exact htype true plain
  | bound => rfl
  | trait => rfl
  | member => rfl

/-- After the arguments of a name in a path there is nothing at a comma. -/
lemma Action.afterArguments_comma (use : PathUse) (plain joined : Bool) (rest : List Tree) :
    afterArguments use plain (.punct ',' joined) rest = .skip := by
  cases joined <;> exact afterPath_comma use plain _ rest

/-- After a name of a path there is nothing at a comma. -/
lemma Action.afterSegment_comma (use : PathUse) (plain generic joined : Bool) (rest : List Tree) :
    afterSegment use plain generic (.punct ',' joined) rest = .skip := by
  have hcolons : ∀ isNext, colonsBefore isNext (.punct ',' joined :: rest) = false := by
    intro isNext
    rw [colonsBefore_eq, doubleColon, SameFront.startsWith_of_endsItem .comma (by decide)]
    rfl
  unfold afterSegment
  dsimp only
  rw [hcolons, hcolons, afterArguments_comma]
  simp [Tree.isPunct, Tree.isParenthesized]

/-- At a comma nothing of an inline symbol is there exactly if nothing of it need be. -/
lemma Symbol.action_comma {s : Symbol} (hs : s.isInline = true) (joined : Bool) (rest : List Tree) :
    s.action (.punct ',' joined) rest = .skip ↔ s.atEnd? = none := by
  cases s with
  | operator text =>
    refine iff_of_false ?_ (fun h => nomatch h)
    unfold Symbol.action
    dsimp only
    split_ifs <;> exact fun h => nomatch h
  | afterSegment use plain generic =>
    exact iff_of_true (Action.afterSegment_comma use plain generic joined rest) rfl
  | afterArguments use plain =>
    exact iff_of_true (Action.afterArguments_comma use plain joined rest) rfl
  | afterBound plus hasTrait =>
    cases plus <;> cases hasTrait <;>
      first
      | exact iff_of_true rfl rfl
      | exact iff_of_false (fun h => nomatch h) (fun h => nomatch h)
  | moreBounds hasTrait =>
    cases joined <;> cases hasTrait <;>
      first
      | exact iff_of_true rfl rfl
      | exact iff_of_false (fun h => nomatch h) (fun h => nomatch h)
  | _ =>
    -- The others either stand for something that may be missing, or do not.
    cases joined <;>
      first
      | cases hs; done
      | exact iff_of_true rfl rfl
      | exact iff_of_false (fun h => nomatch h) (fun h => nomatch h)

/-! ## Reading the same front -/

/-- A stack that reads nothing at the end reads nothing before a comma, and conversely. -/
lemma Reads.nothing {stack : List Symbol} (hstack : stack.all Symbol.isInline = true)
    {trees trees' : List Tree} (h : EndsItem trees) (h' : EndsItem trees') {r : Reading}
    (hread : Reads stack trees r) (hr : r.consumed = 0) : Reads stack trees' r := by
  have hskip : ∀ {s below r}, s.isInline = true → s.atEnd? = none → Reads below trees' r →
      Reads (s :: below) trees' r := by
    intro s below r hs hnone hbelow
    cases h' with
    | nil => exact .ended hnone hbelow
    | comma => exact .skip ((Symbol.action_comma hs _ _).mpr hnone) hbelow
  induction hread with
  | nil => exact .nil
  | ended hend _ ih =>
    obtain ⟨hs, hbelow⟩ := (Bool.and_eq_true _ _).mp hstack
    exact hskip hs hend (ih hbelow h hr)
  | skip haction _ ih =>
    obtain ⟨hs, hbelow⟩ := (Bool.and_eq_true _ _).mp hstack
    cases h with
    | comma => exact hskip hs ((Symbol.action_comma hs _ _).mp haction) (ih hbelow .comma hr)
  | take => exact absurd hr (by rw [Reading.consumed_after]; omega)
  | arguments => exact absurd hr (by rw [Reading.arguments, Reading.consumed_after]; omega)
  | group => cases h

/-- What is read from the trees before a comma or the end does not depend on what follows. -/
theorem Reads.sameFront {stack : List Symbol} {trees : List Tree} {r : Reading}
    (h : Reads stack trees r) (hstack : stack.all Symbol.isInline = true) {n : Nat}
    {trees' : List Tree} (hfront : SameFront n trees trees') (hr : r.consumed ≤ n) :
    Reads stack trees' r := by
  induction h generalizing n trees' with
  | nil => exact .nil
  | ended hend h ih =>
    cases hfront with
    | ended hends hends' =>
      exact Reads.nothing hstack hends hends' (.ended hend h) (Nat.le_zero.mp hr)
  | @skip s below t rest r haction h ih =>
    obtain ⟨hs, hbelow⟩ := (Bool.and_eq_true _ _).mp hstack
    cases hfront with
    | ended hends hends' =>
      exact Reads.nothing hstack hends hends' (.skip haction h) (Nat.le_zero.mp hr)
    | cons t hrest =>
      rcases Symbol.alike_action hs hrest t with heq | ⟨⟨problem, hfail⟩, _⟩
      · exact .skip (heq.symm.trans haction) (ih hbelow (hrest.cons t) hr)
      · cases haction.symm.trans hfail
  | @take s below t rest r further written next haction h ih =>
    obtain ⟨hs, _⟩ := (Bool.and_eq_true _ _).mp hstack
    have hfits := s.fits_action hs t rest
    rw [haction] at hfits
    rw [Reading.consumed_after] at hr
    cases hfront with
    | ended => exact absurd hr (by omega)
    | cons t hrest =>
      rcases Symbol.alike_action hs hrest t with heq | ⟨⟨problem, hfail⟩, _⟩
      · exact .take (heq.symm.trans haction)
          (ih (Symbol.all_next hstack hfits.2) (hrest.drop (by omega)) (by omega))
      · cases haction.symm.trans hfail
  | @arguments s below t rest inner outer further written next haction _ _ ihinner ihouter =>
    obtain ⟨hs, _⟩ := (Bool.and_eq_true _ _).mp hstack
    have hfits := s.fits_action hs t rest
    rw [haction] at hfits
    replace hr : further + 1 + (inner.consumed + outer.consumed) ≤ n := hr
    cases hfront with
    | ended => exact absurd hr (by omega)
    | cons t hrest =>
      rcases Symbol.alike_action hs hrest t with heq | ⟨⟨problem, hfail⟩, _⟩
      · exact .arguments (heq.symm.trans haction)
          (ihinner rfl (hrest.drop (by omega)) (by omega))
          (ihouter (Symbol.all_next hstack hfits.2) (hrest.drop (by omega)) (by omega))
      · cases haction.symm.trans hfail
  | @group s below rest inner outer d content symbols next haction hinner _ _ ihouter =>
    obtain ⟨hs, _⟩ := (Bool.and_eq_true _ _).mp hstack
    have hfits := s.fits_action hs (.group d content) rest
    rw [haction] at hfits
    replace hr : 1 + outer.consumed ≤ n := hr
    cases hfront with
    | ended hends => cases hends
    | cons t hrest =>
      rcases Symbol.alike_action hs hrest (.group d content) with heq | ⟨⟨problem, hfail⟩, _⟩
      · exact .group (heq.symm.trans haction) hinner
          (ihouter (Symbol.all_next hstack hfits) hrest (by omega))
      · cases haction.symm.trans hfail

/-- The same trees before what ends an item. -/
lemma SameFront.append (front : List Tree) {trees trees' : List Tree} (h : EndsItem trees)
    (h' : EndsItem trees') : SameFront front.length (front ++ trees) (front ++ trees') := by
  induction front with
  | nil => exact .ended h h'
  | cons t front ih => exact .cons t ih

/-! ## The standard parser -/

/-- The expressions of the standard parser are those that the symbol for expressions reads. -/
lemma Parser.standard_expression_eq_ok_iff {trees : List Tree} {r : Parsed (List Tree)} :
    Parser.standard.expression trees = .ok r ↔
      ∃ reading, Reads [.expression] trees reading ∧ r = reading.parsed := by
  have hexpression : Parser.standard.expression trees =
    ((readSymbols [.expression] trees).map Reading.parsed).mapError Problem.message := rfl
  rw [hexpression]
  constructor
  · intro h
    cases hread : readSymbols [.expression] trees with
    | error problem =>
      rw [hread] at h
      cases h
    | ok reading =>
      rw [hread] at h
      exact ⟨reading, .of_readSymbols hread, (Except.ok.inj h).symm⟩
  · rintro ⟨reading, hreads, rfl⟩
    rw [hreads.readSymbols]
    rfl

/-- The standard parser reads one expression, up to the next comma. -/
theorem Parser.standard_readsItems : Parser.standard.ReadsItems where
  consumed_le h := by
    obtain ⟨reading, hreads, rfl⟩ := standard_expression_eq_ok_iff.mp h
    exact hreads.consumed_le rfl
  ends {taken _ _ _} h hconsumed hends hends' := by
    obtain ⟨reading, hreads, rfl⟩ := standard_expression_eq_ok_iff.mp h
    have hfront := SameFront.append taken hends hends'
    exact standard_expression_eq_ok_iff.mpr
      ⟨reading, hreads.sameFront rfl hfront (Nat.le_of_eq hconsumed), rfl⟩

end PowerRule.Declaration
