import Mathlib.Data.List.Basic
import Mathlib.Tactic.SplitIfs
import PowerRule.Proofs.SymbolStack

/-!
# Actions on symbols

Most symbols stand for a part of an expression or a type (`Symbol.isInline`) and lead to symbols of
this kind again, outside of groups. Their actions take no more than is there, so neither does a
reading (`Reads.consumed_le`).
-/

namespace PowerRule.Declaration

/-- The symbols that an expression or the type of a field is read with outside of groups. -/
def Symbol.isInline : Symbol → Bool
  | operator text => !text.contains ','
  | expression | operand | afterOperand | operators _ _ | afterCast | builtinName
  | builtinArguments | labelled | member _ | afterMember | methodArguments | attributeBrackets
  | path _ | segment _ _ | afterSegment _ _ _ | afterArguments _ _ | arguments | afterArgument
  | argumentValue | argumentBounds | asTrait | type _ | functionType | functionKeyword
  | parameterList | resultType | bound _ _ | afterBound _ _ | moreBounds _ | lifetimes
  | afterLifetime | blankFieldType | fieldBraces => true
  | _ => false

namespace Action

/-- The action takes no more than is there, and what is to come next outside of groups are inline
symbols. -/
def Fits (rest : List Tree) : Action → Prop
  | take further _ next => further ≤ rest.length ∧ next.all Symbol.isInline = true
  | enterArguments further _ next => further ≤ rest.length ∧ next.all Symbol.isInline = true
  | enter _ next => next.all Symbol.isInline = true
  | skip => True
  | fail _ => True

end Action

/-! ## Taking no more than is there -/

namespace Action

variable {rest : List Tree} {t : Tree}

/-- An action that fits still does so with more inline symbols to come. -/
lemma Fits.andThen {a : Action} (h : a.Fits rest) {below : List Symbol}
    (hbelow : below.all Symbol.isInline = true) : (a.andThen below).Fits rest := by
  cases a with
  | take further written next =>
    refine ⟨h.1, ?_⟩
    rw [List.all_append, h.2, hbelow]
    rfl
  | enterArguments further written next =>
    refine ⟨h.1, ?_⟩
    rw [List.all_append, h.2, hbelow]
    rfl
  | enter content next =>
    show (next ++ below).all Symbol.isInline = true
    rw [List.all_append, show next.all Symbol.isInline = true from h, hbelow]
    rfl
  | skip => trivial
  | fail problem => trivial

/-- Trees that start with an operator are at least as many as its characters. -/
lemma length_le_of_startsWith {text : List Char} {trees : List Tree}
    (h : Tree.startsWith text trees = true) : text.length ≤ trees.length := by
  induction text generalizing trees with
  | nil => exact Nat.zero_le _
  | cons c text ih =>
    cases trees with
    | nil =>
      rw [Tree.startsWith.eq_def] at h
      cases text <;> cases h
    | cons t trees =>
      cases text with
      | nil => exact Nat.succ_le_succ (Nat.zero_le _)
      | cons d text =>
        cases t with
        | punct e joined =>
          cases joined with
          | true => exact Nat.succ_le_succ (ih ((Bool.and_eq_true _ _).mp h).2)
          | false => cases h
        | name _ => cases h
        | literal _ => cases h
        | group _ _ => cases h

/-- An operator is taken only if it is there. -/
lemma fits_takeOperator {text : List Char} {next : List Symbol}
    (h : Tree.startsWith text (t :: rest) = true) (hnext : next.all Symbol.isInline = true) :
    (takeOperator text next).Fits rest := by
  refine ⟨?_, hnext⟩
  have hlength := length_le_of_startsWith h
  rw [List.length_cons] at hlength
  omega

/-- What is done at a name of a path fits. -/
lemma fits_segment (use : PathUse) (plain : Bool) : (segment use plain t).Fits rest := by
  unfold segment
  split
  · split_ifs
    · exact ⟨Nat.zero_le _, rfl⟩
    · trivial
    · exact ⟨Nat.zero_le _, rfl⟩
  · trivial

/-- What is done at a path fits. -/
lemma fits_path (use : PathUse) : (path use t rest).Fits rest := by
  unfold path
  split_ifs with hcolon
  · exact fits_takeOperator hcolon rfl
  · exact fits_segment use true

/-- What is done at the call of a macro fits. -/
lemma fits_macroCall {call : Action} (h : macroCall? t rest = some call) : call.Fits rest := by
  unfold macroCall? at h
  split at h
  · cases h
  · cases h
    exact ⟨Nat.succ_le_succ (Nat.zero_le _), rfl⟩
  · cases h
    trivial
  · cases h

/-- What is done after a type that is a path fits. -/
lemma fits_afterPathType (plus plain : Bool) : (afterPathType plus plain t rest).Fits rest := by
  unfold afterPathType
  split
  · rename_i call hcall
    split_ifs at hcall
    exact fits_macroCall hcall
  · split_ifs
    · exact ⟨Nat.zero_le _, rfl⟩
    · trivial

/-- What is done after a path fits. -/
lemma fits_afterPath (use : PathUse) (plain : Bool) : (afterPath use plain t rest).Fits rest := by
  cases use with
  | operand =>
    unfold afterPath
    dsimp only
    split
    · exact rfl
    · split_ifs
      · cases hcall : macroCall? t rest with
        | none => trivial
        | some call => exact fits_macroCall hcall
      · trivial
  | type plus => exact fits_afterPathType plus plain
  | argument =>
    unfold afterPath
    dsimp only
    split_ifs
    · exact ⟨Nat.zero_le _, rfl⟩
    · exact ⟨Nat.zero_le _, rfl⟩
    · exact fits_afterPathType true plain
  | bound => trivial
  | trait => trivial
  | member => trivial

/-- What is done after the arguments of a name in a path fits. -/
lemma fits_afterArguments (use : PathUse) (plain : Bool) :
    (afterArguments use plain t rest).Fits rest := by
  unfold afterArguments
  dsimp only
  split_ifs with hcolon
  · exact fits_takeOperator ((Bool.and_eq_true _ _).mp hcolon).1 rfl
  · exact fits_afterPath use plain

/-- Before a double colon and one more tree, two trees are left after the first. -/
lemma two_le_of_colonsBefore {isNext : Tree → Bool}
    (h : colonsBefore isNext (t :: rest) = true) : 2 ≤ rest.length := by
  unfold colonsBefore at h
  split at h
  · rename_i heq
    cases heq
    exact Nat.succ_le_succ (Nat.succ_le_succ (Nat.zero_le _))
  · cases h

/-- What starts with a double colon before something starts with a double colon. -/
lemma startsWith_of_colonsBefore {isNext : Tree → Bool} {trees : List Tree}
    (h : colonsBefore isNext trees = true) : Tree.startsWith doubleColon trees = true := by
  unfold colonsBefore at h
  split at h
  · rfl
  · cases h

/-- What is done after a name of a path fits. -/
lemma fits_afterSegment (use : PathUse) (plain generic : Bool) :
    (afterSegment use plain generic t rest).Fits rest := by
  unfold afterSegment
  dsimp only
  split_ifs with hturbofish hopen hparameters hcolons
  · exact ⟨two_le_of_colonsBefore ((Bool.and_eq_true _ _).mp hturbofish).2, rfl⟩
  · exact ⟨Nat.zero_le _, rfl⟩
  · exact rfl
  · exact fits_takeOperator (startsWith_of_colonsBefore ((Bool.and_eq_true _ _).mp hcolons).2) rfl
  · exact fits_afterArguments use plain

/-- What is done at a type in angle brackets fits. -/
lemma fits_qualified (use : PathUse) : (qualified use).Fits rest := ⟨Nat.zero_le _, rfl⟩

/-- A lifetime is two trees. -/
lemma one_le_of_startsLifetime (h : startsLifetime (t :: rest) = true) : 1 ≤ rest.length := by
  unfold startsLifetime at h
  split at h
  · rename_i heq
    cases heq
    exact Nat.succ_le_succ (Nat.zero_le _)
  · cases h

/-- What is done at a bound fits. -/
lemma fits_bound (plus hasTrait : Bool) : (bound plus hasTrait t rest).Fits rest := by
  unfold bound
  dsimp only
  split_ifs with hlifetime
  · exact ⟨one_le_of_startsLifetime hlifetime, rfl⟩
  · exact rfl
  · exact ⟨Nat.zero_le _, rfl⟩
  · exact ⟨Nat.zero_le _, rfl⟩
  · exact (fits_path .bound).andThen rfl

/-- What is done after a bound fits. -/
lemma fits_afterBound (plus hasTrait : Bool) : (afterBound plus hasTrait t).Fits rest := by
  unfold afterBound
  split_ifs
  · exact ⟨Nat.zero_le _, rfl⟩
  · trivial
  · trivial

/-- What is done after the plus of bounds fits. -/
lemma fits_moreBounds (hasTrait : Bool) : (moreBounds hasTrait t rest).Fits rest := by
  unfold moreBounds
  dsimp only
  split_ifs
  · exact fits_bound true hasTrait
  · trivial
  · trivial

/-- What is done at the keyword of a function type fits. -/
lemma fits_functionKeyword : (functionKeyword t).Fits rest := by
  unfold functionKeyword
  split_ifs
  · exact ⟨Nat.zero_le _, rfl⟩
  · trivial

/-- What is done at a function type fits. -/
lemma fits_functionType : (functionType t rest).Fits rest := by
  unfold functionType
  split_ifs
  · split
    · exact ⟨Nat.succ_le_succ (Nat.zero_le _), rfl⟩
    · exact ⟨Nat.zero_le _, rfl⟩
  · exact fits_functionKeyword

/-- What is done at a reference fits. -/
lemma fits_reference : (reference rest).Fits rest := by
  refine ⟨?_, rfl⟩
  have hlifetime : (if startsLifetime rest then rest.take 2 else []).length ≤ rest.length := by
    split_ifs
    · exact List.length_take_le' _ _
    · exact Nat.zero_le _
  generalize (if startsLifetime rest then rest.take 2 else []) = lifetime at hlifetime ⊢
  rw [List.length_append]
  split
  · rename_i t more hdrop
    have hlength := congrArg List.length hdrop
    rw [List.length_drop, List.length_cons] at hlength
    split_ifs
    · rw [List.length_singleton]
      omega
    · exact hlifetime
  · exact hlifetime

/-- What is done at a pointer fits. -/
lemma fits_pointer : (pointer rest).Fits rest := by
  unfold pointer
  split
  · split_ifs
    · exact ⟨Nat.succ_le_succ (Nat.zero_le _), rfl⟩
    · trivial
  · trivial

/-- What is done at a type that starts with a word fits. -/
lemma fits_wordType (plus : Bool) (word : List Char) : (wordType plus word rest).Fits rest := by
  unfold wordType
  dsimp only
  split_ifs
  · exact ⟨Nat.zero_le _, rfl⟩
  · exact ⟨Nat.zero_le _, rfl⟩
  · exact fits_functionType
  · exact ⟨Nat.zero_le _, rfl⟩
  · exact ⟨Nat.zero_le _, rfl⟩
  · exact fits_segment (.type plus) true
  · trivial

/-- What is done at a type fits. -/
lemma fits_type (plus : Bool) : (type plus t rest).Fits rest := by
  unfold type
  split
  · exact fits_wordType plus _
  · trivial
  · exact rfl
  · exact rfl
  · trivial
  · split_ifs with hcolons
    · exact fits_takeOperator hcolons rfl
    · exact fits_qualified .member
    · exact fits_reference
    · exact fits_pointer
    · exact ⟨Nat.zero_le _, rfl⟩
    · exact fits_bound plus false
    · trivial

/-- What is done at a constant in generic arguments fits. -/
lemma fits_constant {action : Action} (h : constant? t rest = some action) : action.Fits rest := by
  unfold constant? at h
  split at h
  · split_ifs at h
    cases h
    exact ⟨Nat.succ_le_succ (Nat.zero_le _), rfl⟩
  · cases h
    exact ⟨Nat.zero_le _, rfl⟩
  · split_ifs at h
    cases h
    exact ⟨Nat.zero_le _, rfl⟩

/-- What is done at what a name in generic arguments is given fits. -/
lemma fits_argumentValue : (argumentValue t rest).Fits rest := by
  unfold argumentValue
  cases h : constant? t rest with
  | none => exact fits_type true
  | some action => exact fits_constant h

/-- What is done at a generic argument fits. -/
lemma fits_argument : (argument t rest).Fits rest := by
  unfold argument
  dsimp only
  split_ifs with hlifetime
  · exact ⟨one_le_of_startsLifetime ((Bool.and_eq_true _ _).mp hlifetime).1, rfl⟩
  · split
    · split_ifs
      · exact fits_segment .argument true
      · exact fits_argumentValue
    · exact fits_argumentValue

/-- What is done at generic arguments or their end fits. -/
lemma fits_arguments : (arguments t rest).Fits rest := by
  unfold arguments
  split_ifs
  · exact ⟨Nat.zero_le _, rfl⟩
  · exact fits_argument.andThen rfl

/-- What is done after an item in angle brackets fits. -/
lemma fits_afterItem {more : Symbol} (h : more.isInline = true) : (afterItem more t).Fits rest := by
  unfold afterItem
  split_ifs
  · exact ⟨Nat.zero_le _, rfl⟩
  · exact ⟨Nat.zero_le _, by rw [List.all_cons, h]; rfl⟩
  · trivial

/-- What is done at the bounds of a name in generic arguments fits. -/
lemma fits_argumentBounds : (argumentBounds t rest).Fits rest := by
  unfold argumentBounds
  split_ifs
  · trivial
  · exact fits_bound true true

/-- What is done at lifetimes or their end fits. -/
lemma fits_lifetimes : (lifetimes t rest).Fits rest := by
  unfold lifetimes
  split_ifs with _ hlifetime
  · exact ⟨Nat.zero_le _, rfl⟩
  · exact ⟨one_le_of_startsLifetime hlifetime, rfl⟩
  · trivial

/-- What is done at the type of a field with the name `_` fits. -/
lemma fits_blankFieldType : (blankFieldType t rest).Fits rest := by
  unfold blankFieldType
  dsimp only
  split_ifs
  · exact ⟨Nat.zero_le _, rfl⟩
  · exact fits_type true

/-- What is done at a range fits. -/
lemma fits_range (h : Tree.startsWith ['.', '.'] (t :: rest) = true) :
    (range t rest).Fits rest := by
  unfold range
  dsimp only
  split_ifs with hclosed
  · exact fits_takeOperator hclosed rfl
  · trivial
  · exact fits_takeOperator h rfl
  · exact fits_takeOperator h rfl

/-- What is done at the mark of a reference fits. -/
lemma fits_borrow : (borrow rest).Fits rest := by
  unfold borrow
  dsimp only
  split
  · split_ifs
    · exact ⟨Nat.succ_le_succ (Nat.succ_le_succ (Nat.zero_le _)), rfl⟩
    · exact ⟨Nat.succ_le_succ (Nat.zero_le _), rfl⟩
    · exact ⟨Nat.zero_le _, rfl⟩
  · split_ifs
    · exact ⟨Nat.le_refl _, rfl⟩
    · exact ⟨Nat.zero_le _, rfl⟩
  · exact ⟨Nat.zero_le _, rfl⟩

/-- What is done at an operand that starts with a word fits. -/
lemma fits_wordOperand (word : List Char) : (wordOperand word rest).Fits rest := by
  unfold wordOperand
  dsimp only
  split_ifs with _ hbuiltin
  · exact ⟨Nat.zero_le _, rfl⟩
  · exact ⟨length_le_of_startsWith ((Bool.and_eq_true _ _).mp hbuiltin).2, rfl⟩
  · exact (fits_segment .operand true).andThen rfl
  · trivial

/-- What is done at an operand fits. -/
lemma fits_operand : (operand t rest).Fits rest := by
  unfold operand
  split
  · exact ⟨Nat.zero_le _, rfl⟩
  · exact fits_wordOperand _
  · exact rfl
  · exact rfl
  · trivial
  · dsimp only
    split_ifs with _ _ _ _ hcolons hrange hlifetime
    · exact ⟨Nat.zero_le _, rfl⟩
    · exact fits_borrow
    · exact ⟨Nat.zero_le _, rfl⟩
    · exact (fits_qualified .operand).andThen rfl
    · exact fits_takeOperator hcolons rfl
    · exact fits_range hrange
    · exact ⟨one_le_of_startsLifetime hlifetime, rfl⟩
    · trivial

/-- What is done at the name of what is built in fits. -/
lemma fits_builtinName : (builtinName t).Fits rest := by
  unfold builtinName
  split
  · split_ifs
    · trivial
    · exact ⟨Nat.zero_le _, rfl⟩
  · trivial

/-- What is done after an operand fits. -/
lemma fits_afterOperand : (afterOperand t rest).Fits rest := by
  unfold afterOperand
  split
  · exact rfl
  · exact rfl
  · split_ifs
    · trivial
    · exact ⟨Nat.zero_le _, rfl⟩
  · exact ⟨Nat.zero_le _, rfl⟩
  · trivial

/-- What is done at a number that selects fields fits. -/
lemma fits_numberMember (fraction : Bool) (literal : List Char) :
    (numberMember fraction literal).Fits rest := by
  unfold numberMember
  split
  · split
    · exact ⟨Nat.zero_le _, rfl⟩
    · trivial
  · split
    · split_ifs
      · exact ⟨Nat.zero_le _, rfl⟩
      · exact ⟨Nat.zero_le _, rfl⟩
    · trivial
  · trivial

/-- What is done at a number with a minus sign fits. -/
lemma fits_signedMember (fraction : Bool) (literal : List Char) :
    (signedMember fraction literal).Fits rest := by
  unfold signedMember
  split
  · trivial
  · trivial
  · trivial

/-- What is done at a member fits. -/
lemma fits_member (fraction : Bool) : (member fraction t rest).Fits rest := by
  unfold member
  split
  · exact fits_numberMember fraction _
  · exact fits_signedMember fraction _
  · split_ifs
    · exact ⟨Nat.zero_le _, rfl⟩
    · trivial
    · exact ⟨Nat.zero_le _, rfl⟩
  · trivial

/-- What is done after the name of a member fits. -/
lemma fits_afterMember : (afterMember t rest).Fits rest := by
  unfold afterMember
  dsimp only
  split_ifs with hturbofish hcolons
  · exact ⟨two_le_of_colonsBefore hturbofish, rfl⟩
  · exact fits_takeOperator hcolons rfl
  · trivial

/-- What is done at an assignment fits. -/
lemma fits_assignment (ranged : Bool) {text : List Char}
    (h : Tree.startsWith text (t :: rest) = true) : (assignment ranged text).Fits rest := by
  unfold assignment
  split_ifs
  · trivial
  · exact fits_takeOperator h rfl

/-- What is done at an operator between operands fits. -/
lemma fits_binary (compared ranged : Bool) {text : List Char} (binding : Binding)
    (h : Tree.startsWith text (t :: rest) = true) :
    (binary compared ranged text binding).Fits rest := by
  cases binding with
  | assignment => exact fits_assignment ranged h
  | logic => exact fits_takeOperator h rfl
  | comparison =>
    unfold binary
    dsimp only
    split_ifs
    · trivial
    · exact fits_takeOperator h rfl
  | arithmetic => exact fits_takeOperator h rfl

/-- What is done after an operand with all that belongs to it fits. -/
lemma fits_operators (compared ranged : Bool) : (operators compared ranged t rest).Fits rest := by
  unfold operators
  dsimp only
  split
  · rename_i text binding hoperator
    have hstarts := List.find?_some (show binaryOperators.find? _ = some _ from hoperator)
    exact fits_binary compared ranged binding hstarts
  · split_ifs with _ hassignment hrange
    · exact ⟨Nat.zero_le _, rfl⟩
    · exact fits_assignment ranged ((Bool.and_eq_true _ _).mp hassignment).1
    · exact fits_range ((Bool.and_eq_true _ _).mp hrange).1
    · trivial

/-- What is done after a cast fits. -/
lemma fits_afterCast : (afterCast t rest).Fits rest := by
  unfold afterCast
  split
  · trivial
  · trivial
  · trivial
  · split_ifs
    · trivial
    · trivial
  · trivial

/-- What is done at an expression fits. -/
lemma fits_expression : (expression t rest).Fits rest := by
  unfold expression
  split_ifs with hrange
  · exact fits_range hrange
  · exact fits_operand.andThen rfl

end Action

/-- Inline symbols lead to inline symbols. -/
theorem Symbol.fits_action {s : Symbol} (hs : s.isInline = true) (t : Tree) (rest : List Tree) :
    (s.action t rest).Fits rest := by
  cases s with
  | operator text =>
    unfold Symbol.action
    dsimp only
    split_ifs with h
    · exact Action.fits_takeOperator h rfl
    · trivial
  | expression => exact Action.fits_expression
  | operand => exact Action.fits_operand
  | afterOperand => exact Action.fits_afterOperand
  | operators compared ranged => exact Action.fits_operators compared ranged
  | afterCast => exact Action.fits_afterCast
  | builtinName => exact Action.fits_builtinName
  | builtinArguments =>
    unfold Symbol.action
    dsimp only
    split_ifs
    · exact ⟨Nat.zero_le _, rfl⟩
    · trivial
  | labelled => trivial
  | member fraction => exact Action.fits_member fraction
  | afterMember => exact Action.fits_afterMember
  | methodArguments =>
    unfold Symbol.action
    dsimp only
    split_ifs
    · exact rfl
    · trivial
  | attributeBrackets =>
    show (Action.attributeBrackets t).Fits rest
    unfold Action.attributeBrackets
    split
    · exact rfl
    · trivial
  | path use => exact Action.fits_path use
  | segment use plain => exact Action.fits_segment use plain
  | afterSegment use plain generic => exact Action.fits_afterSegment use plain generic
  | afterArguments use plain => exact Action.fits_afterArguments use plain
  | arguments => exact Action.fits_arguments
  | afterArgument => exact Action.fits_afterItem rfl
  | argumentValue => exact Action.fits_argumentValue
  | argumentBounds => exact Action.fits_argumentBounds
  | asTrait =>
    unfold Symbol.action
    dsimp only
    split_ifs
    · exact ⟨Nat.zero_le _, rfl⟩
    · trivial
  | type plus => exact Action.fits_type plus
  | functionType => exact Action.fits_functionType
  | functionKeyword => exact Action.fits_functionKeyword
  | parameterList =>
    unfold Symbol.action
    dsimp only
    split_ifs
    · exact rfl
    · trivial
  | resultType =>
    unfold Symbol.action
    dsimp only
    split_ifs with h
    · exact Action.fits_takeOperator h rfl
    · trivial
  | bound plus hasTrait => exact Action.fits_bound plus hasTrait
  | afterBound plus hasTrait => exact Action.fits_afterBound plus hasTrait
  | moreBounds hasTrait => exact Action.fits_moreBounds hasTrait
  | lifetimes => exact Action.fits_lifetimes
  | afterLifetime => exact Action.fits_afterItem rfl
  | blankFieldType => exact Action.fits_blankFieldType
  | fieldBraces =>
    show (Action.fieldBraces t).Fits rest
    unfold Action.fieldBraces
    split
    · exact rfl
    · trivial
  | _ => cases hs

/-! ## Readings -/

/-- The symbols that come next are inline as well. -/
lemma Symbol.all_next {s : Symbol} {below next : List Symbol}
    (hstack : (s :: below).all Symbol.isInline = true) (hnext : next.all Symbol.isInline = true) :
    (next ++ below).all Symbol.isInline = true := by
  rw [List.all_append, hnext]
  exact ((Bool.and_eq_true _ _).mp hstack).2

/-- What inline symbols read is there. -/
theorem Reads.consumed_le {stack : List Symbol} {trees : List Tree} {r : Reading}
    (h : Reads stack trees r) (hstack : stack.all Symbol.isInline = true) :
    r.consumed ≤ trees.length := by
  induction h with
  | nil => exact Nat.zero_le _
  | ended _ _ ih => exact ih ((Bool.and_eq_true _ _).mp hstack).2
  | skip _ _ ih => exact ih ((Bool.and_eq_true _ _).mp hstack).2
  | @take s _ t rest _ _ _ _ haction _ ih =>
    have hfits := s.fits_action ((Bool.and_eq_true _ _).mp hstack).1 t rest
    rw [haction] at hfits
    have hle := ih (Symbol.all_next hstack hfits.2)
    have hfurther := hfits.1
    rw [List.length_drop] at hle
    rw [Reading.consumed_after, List.length_cons]
    omega
  | @arguments s _ t rest inner outer further _ _ haction _ _ ihinner ihouter =>
    have hfits := s.fits_action ((Bool.and_eq_true _ _).mp hstack).1 t rest
    rw [haction] at hfits
    have hinner := ihinner rfl
    have houter := ihouter (Symbol.all_next hstack hfits.2)
    have hfurther := hfits.1
    rw [List.length_drop] at hinner houter
    show further + 1 + (inner.consumed + outer.consumed) ≤ rest.length + 1
    omega
  | @group s _ rest _ outer d content _ _ haction _ _ _ ihouter =>
    have hfits := s.fits_action ((Bool.and_eq_true _ _).mp hstack).1 (.group d content) rest
    rw [haction] at hfits
    have houter := ihouter (Symbol.all_next hstack hfits)
    show 1 + outer.consumed ≤ rest.length + 1
    omega

end PowerRule.Declaration
