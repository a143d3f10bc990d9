import Mathlib.Tactic.Lemma
import PowerRule.Declaration.Grammar.Standard

/-!
# Reading a stack of symbols

What one action does to a reading is one equation each, so that the recursion need not be opened
again. What a stack of symbols reads is then given by rules, one for each action (`Reads`).
-/

namespace PowerRule.Declaration

/-- A reading with further trees before it consumes these as well. -/
@[simp] lemma Reading.consumed_after (written : List Tree) (consumed : Nat) (r : Reading) :
    (after written consumed r).consumed = consumed + r.consumed := rfl

/-! ## One action -/

section

variable {s : Symbol} {below : List Symbol} {t : Tree} {rest : List Tree}

/-- Without symbols nothing is read. -/
@[simp] lemma readSymbols_nil (trees : List Tree) : readSymbols [] trees = .ok .empty := by
  rw [readSymbols]

/-- At the end a symbol that has to stand for something is missing. -/
lemma readSymbols_end_fail {problem : Problem} (h : s.atEnd? = some problem) :
    readSymbols (s :: below) [] = .error problem := by
  rw [readSymbols, h]

/-- At the end other symbols are left out. -/
lemma readSymbols_end (h : s.atEnd? = none) :
    readSymbols (s :: below) [] = readSymbols below [] := by
  rw [readSymbols, h]

/-- A symbol that stands for nothing is left out. -/
lemma readSymbols_skip (h : s.action t rest = .skip) :
    readSymbols (s :: below) (t :: rest) = readSymbols below (t :: rest) := by
  rw [readSymbols, h]

/-- A symbol that does not fit ends the reading. -/
lemma readSymbols_fail {problem : Problem} (h : s.action t rest = .fail problem) :
    readSymbols (s :: below) (t :: rest) = .error problem := by
  rw [readSymbols, h]

/-- A symbol takes trees, and others come in its place. -/
lemma readSymbols_take {further : Nat} {written : List Tree} {next : List Symbol}
    (h : s.action t rest = .take further written next) :
    readSymbols (s :: below) (t :: rest) =
      (readSymbols (next ++ below) (rest.drop further)).map (.after written (further + 1)) := by
  rw [readSymbols, h]

/-- Generic arguments and what follows them, as they are written. -/
def Reading.arguments (written : List Tree) (further : Nat) (inner outer : Reading) : Reading :=
  .after written (further + 1)
    (Reading.append { inner with trees := orderedArguments inner.trees } outer)

/-- Generic arguments are read first, then what follows them. -/
lemma readSymbols_enterArguments {further : Nat} {written : List Tree} {next : List Symbol}
    (h : s.action t rest = .enterArguments further written next) :
    readSymbols (s :: below) (t :: rest) =
      (readSymbols [.arguments] (rest.drop further)).bind fun inner =>
        (readSymbols (next ++ below) (rest.drop (further + inner.consumed))).map
          (.arguments written further inner) := by
  rw [readSymbols, h]
  rfl

/-- The content of a group is read first, then what follows it. -/
lemma readSymbols_enter {content next : List Symbol} {d : Delimiter} {trees : List Tree}
    (h : s.action (.group d trees) rest = .enter content next) :
    readSymbols (s :: below) (.group d trees :: rest) =
      (readSymbols content trees).bind fun inner =>
        (readSymbols (next ++ below) rest).map (.append (.ofGroup d trees inner)) := by
  rw [readSymbols, h]
  rfl

end

/-! ## Readings that succeed -/

/-- What a stack of symbols reads from the start of trees. -/
inductive Reads : List Symbol → List Tree → Reading → Prop where
  | nil {trees : List Tree} : Reads [] trees .empty
  | ended {s : Symbol} {below : List Symbol} {r : Reading} :
    s.atEnd? = none →
    Reads below [] r →
    Reads (s :: below) [] r
  | skip {s : Symbol} {below : List Symbol} {t : Tree} {rest : List Tree} {r : Reading} :
    s.action t rest = .skip →
    Reads below (t :: rest) r →
    Reads (s :: below) (t :: rest) r
  | take {s : Symbol} {below : List Symbol} {t : Tree} {rest : List Tree} {r : Reading}
      {further : Nat} {written : List Tree} {next : List Symbol} :
    s.action t rest = .take further written next →
    Reads (next ++ below) (rest.drop further) r →
    Reads (s :: below) (t :: rest) (.after written (further + 1) r)
  | arguments {s : Symbol} {below : List Symbol} {t : Tree} {rest : List Tree}
      {inner outer : Reading} {further : Nat} {written : List Tree} {next : List Symbol} :
    s.action t rest = .enterArguments further written next →
    Reads [.arguments] (rest.drop further) inner →
    Reads (next ++ below) (rest.drop (further + inner.consumed)) outer →
    Reads (s :: below) (t :: rest) (.arguments written further inner outer)
  | group {s : Symbol} {below : List Symbol} {rest : List Tree} {inner outer : Reading}
      {d : Delimiter} {trees : List Tree} {content next : List Symbol} :
    s.action (.group d trees) rest = .enter content next →
    Reads content trees inner →
    Reads (next ++ below) rest outer →
    Reads (s :: below) (.group d trees :: rest) ((Reading.ofGroup d trees inner).append outer)

/-- What is read by the rules is read. -/
lemma Reads.readSymbols {stack : List Symbol} {trees : List Tree} {r : Reading}
    (h : Reads stack trees r) : readSymbols stack trees = .ok r := by
  induction h with
  | nil => exact readSymbols_nil _
  | ended hend _ ih => exact (readSymbols_end hend).trans ih
  | skip haction _ ih => exact (readSymbols_skip haction).trans ih
  | take haction _ ih =>
    rw [readSymbols_take haction, ih]
    rfl
  | arguments haction _ _ ihinner ihouter =>
    rw [readSymbols_enterArguments haction, ihinner]
    show Except.map _ _ = _
    rw [ihouter]
    rfl
  | group haction _ _ ihinner ihouter =>
    rw [readSymbols_enter haction, ihinner]
    show Except.map _ _ = _
    rw [ihouter]
    rfl

/-- Only a group can be entered. -/
lemma readSymbols_not_group {s : Symbol} {below content next : List Symbol} {t : Tree}
    {rest : List Tree} (h : s.action t rest = .enter content next)
    (hnot : ∀ d trees, t = .group d trees → False) :
    readSymbols (s :: below) (t :: rest) = .error (.unexpectedToken none) := by
  rw [readSymbols, h]
  cases t with
  | group d trees => exact absurd rfl (hnot d trees)
  | name _ => rfl
  | punct _ _ => rfl
  | literal _ => rfl

/-- A result under a function is one of something. -/
lemma exists_of_map_ok {α β : Type} {f : α → β} {e : Except Problem α} {b : β}
    (h : e.map f = .ok b) : ∃ a, e = .ok a ∧ b = f a := by
  cases e with
  | error problem => cases h
  | ok a => exact ⟨a, rfl, (Except.ok.inj h).symm⟩

/-- A result in two steps has one after the first. -/
lemma exists_of_bind_ok {α β : Type} {f : α → Except Problem β} {e : Except Problem α} {b : β}
    (h : e.bind f = .ok b) : ∃ a, e = .ok a ∧ f a = .ok b := by
  cases e with
  | error problem => cases h
  | ok a => exact ⟨a, rfl, h⟩

/-- After a failure there is no reading. -/
lemma readSymbols_ne_ok {s : Symbol} {below : List Symbol} {t : Tree} {rest : List Tree}
    {r : Reading} {problem : Problem} (h : s.action t rest = .fail problem) :
    readSymbols (s :: below) (t :: rest) ≠ .ok r := by
  rw [readSymbols_fail h]
  exact fun heq => by cases heq

/-- Nor is there if something is missing at the end. -/
lemma readSymbols_end_ne_ok {s : Symbol} {below : List Symbol} {r : Reading} {problem : Problem}
    (h : s.atEnd? = some problem) : readSymbols (s :: below) [] ≠ .ok r := by
  rw [readSymbols_end_fail h]
  exact fun heq => by cases heq

/-- What is read after trees are taken is read without them. -/
lemma exists_of_readSymbols_take {s : Symbol} {below : List Symbol} {t : Tree} {rest : List Tree}
    {r : Reading} {further : Nat} {written : List Tree} {next : List Symbol}
    (haction : s.action t rest = .take further written next)
    (h : readSymbols (s :: below) (t :: rest) = .ok r) :
    ∃ r', readSymbols (next ++ below) (rest.drop further) = .ok r' ∧
      r = .after written (further + 1) r' := by
  rw [readSymbols_take haction] at h
  exact exists_of_map_ok h

/-- What is read is read by the rules. -/
lemma Reads.of_readSymbols {stack : List Symbol} {trees : List Tree} {r : Reading}
    (h : PowerRule.Declaration.readSymbols stack trees = .ok r) : Reads stack trees r := by
  induction stack, trees using readSymbols.induct generalizing r with
  | case1 trees =>
    rw [readSymbols_nil] at h
    cases h
    exact .nil
  | case2 s below problem hend => exact absurd h (readSymbols_end_ne_ok hend)
  | case3 s below hend ih => exact .ended hend (ih ((readSymbols_end hend).symm.trans h))
  | case4 s below t rest haction ih =>
    exact .skip haction (ih ((readSymbols_skip haction).symm.trans h))
  | case5 s below t rest problem haction => exact absurd h (readSymbols_ne_ok haction)
  | case6 s below t rest further written next haction ih =>
    obtain ⟨r, hread, rfl⟩ := exists_of_readSymbols_take haction h
    exact .take haction (ih hread)
  | case7 s below t rest further written next haction ihinner ihouter =>
    rw [readSymbols_enterArguments haction] at h
    obtain ⟨inner, hinner, h⟩ := exists_of_bind_ok h
    obtain ⟨outer, houter, rfl⟩ := exists_of_map_ok h
    exact .arguments haction (ihinner hinner) (ihouter inner houter)
  | case8 s below rest content next d trees haction ihinner ihouter =>
    rw [readSymbols_enter haction] at h
    obtain ⟨inner, hinner, h⟩ := exists_of_bind_ok h
    obtain ⟨outer, houter, rfl⟩ := exists_of_map_ok h
    exact .group haction (ihinner hinner) (ihouter houter)
  | case9 s below t rest content next haction hnot =>
    rw [readSymbols_not_group haction hnot] at h
    cases h

end PowerRule.Declaration
