import Chomsky.Proofs.Chart.Counting
import Chomsky.Proofs.Grammar.Agreement

/-!
# Charts of agreeing grammars

A chart tries rules in the order of the grammar, so its slots and pointers
depend on that order. What it is asked for does not: all answers are read off
the trees of a word, and these depend on the alternatives of each symbol alone.
Only the order in which the symbols of a span are listed may change.
-/

namespace Chomsky

variable {grammar other : Grammar} {word : Word} {symbol : String}

namespace Grammar

/-- The trees of a word depend on what each symbol may be replaced by, not on
the place of its rule. -/
theorem trees_congr
    (sameTerminals : ∀ symbol, grammar.terminals symbol = other.terminals symbol)
    (samePairs : ∀ symbol, grammar.pairs symbol = other.pairs symbol) :
    grammar.trees symbol word = other.trees symbol word := by
  induction word using Word.partsInduction generalizing symbol with
  | single character => rw [trees_singleton, trees_singleton, sameTerminals]
  | parts word notOne inductionHypothesis =>
      rw [trees_of_length_ne_one _ _ notOne, trees_of_length_ne_one _ _ notOne]
      apply List.flatMap_congr
      intro position inside
      obtain ⟨leftHypothesis, rightHypothesis⟩ := inductionHypothesis position inside
      rw [cutTrees, cutTrees, samePairs]
      apply List.flatMap_congr
      intro names _
      rw [leftHypothesis, rightHypothesis]

/-- Equivalent grammars have the same trees in the same order. -/
theorem Equivalent.trees (equivalent : grammar.Equivalent other) (symbol : String)
    (word : Word) : grammar.trees symbol word = other.trees symbol word :=
  trees_congr equivalent.terminals equivalent.pairs

/-- Equivalent grammars derive the same words. -/
theorem Equivalent.derives_iff (equivalent : grammar.Equivalent other) :
    grammar.Derives symbol word ↔ other.Derives symbol word := by
  rw [← trees_ne_nil_iff, ← trees_ne_nil_iff, equivalent.trees]

/-- Two symbols that derive the same words, each with the other in its pair. -/
def twins : Grammar :=
  .ofRules [⟨"S", [.pair 'S' 'T', .terminal 'a']⟩, ⟨"T", [.terminal 'a', .pair 'T' 'S']⟩]

/-- The rules of `twins` in the opposite order. -/
def twinsReversed : Grammar :=
  .ofRules [⟨"T", [.terminal 'a', .pair 'T' 'S']⟩, ⟨"S", [.pair 'S' 'T', .terminal 'a']⟩]

end Grammar

namespace Chart

/-- Charts of equivalent grammars give the same tree for a symbol. -/
theorem tree?_congr (equivalent : grammar.Equivalent other) (word : Word) (symbol : String) :
    (build grammar word).tree? symbol = (build other word).tree? symbol := by
  rw [tree?_eq_head?, tree?_eq_head?, equivalent.trees]

/-- Charts of equivalent grammars list the same symbols for a span. -/
theorem symbolsAt_perm (equivalent : grammar.Equivalent other) (word : Word)
    (first last : Nat) :
    ((build grammar word).symbolsAt first last).Perm
      ((build other word).symbolsAt first last) := by
  by_cases inside : first ≤ last ∧ last < word.length
  · obtain ⟨ordered, within⟩ := inside
    apply (List.perm_ext_iff_of_nodup (nodup_symbolsAt ordered within)
      (nodup_symbolsAt ordered within)).mpr
    intro symbol
    rw [mem_symbolsAt_iff ordered within, mem_symbolsAt_iff ordered within,
      equivalent.derives_iff]
  · rw [symbolsAt, symbolsAt, size_build, size_build, if_neg inside, if_neg inside]

/-- Whatever order two agreeing grammars have their rules in, they parse a word
alike: each symbol derives it for both or for neither, with the same tree and as
many trees, and the same symbols are listed for every span. -/
theorem build_congr_of_agrees (agree : grammar.agrees other = true) (word : Word) :
    (∀ symbol, (build grammar word).derives symbol = (build other word).derives symbol ∧
      (build grammar word).tree? symbol = (build other word).tree? symbol ∧
      (build grammar word).count symbol = (build other word).count symbol) ∧
    parse? grammar word = parse? other word ∧
    ∀ first last, ((build grammar word).symbolsAt first last).Perm
      ((build other word).symbolsAt first last) := by
  have equivalent := Grammar.agrees_iff.mp agree
  refine ⟨fun symbol => ⟨?derived, ?parsed, ?counted⟩, ?started, ?listed⟩
  case derived =>
    rw [Bool.eq_iff_iff, derives_iff, derives_iff, equivalent.derives_iff]
  case parsed =>
    exact tree?_congr equivalent word symbol
  case counted =>
    rw [count_eq_capped_length, count_eq_capped_length, equivalent.trees]
  case started =>
    rw [parse?, parse?, ← equivalent.1]
    exact tree?_congr equivalent word grammar.start
  case listed =>
    exact symbolsAt_perm equivalent word

/-- The twins list their symbols in opposite orders and still count alike. -/
theorem build_congr_of_agrees_twins :
    Grammar.twins.agrees .twinsReversed = true ∧
    (build .twins ['a', 'a', 'a']).symbolsAt 0 2 = ["S", "T"] ∧
    (build .twinsReversed ['a', 'a', 'a']).symbolsAt 0 2 = ["T", "S"] ∧
    (build .twins ['a', 'a', 'a']).count "S" = 2 ∧
    (build .twinsReversed ['a', 'a', 'a']).count "S" = 2 ∧
    (build .twins ['a', 'a', 'a']).tree? "S" =
      (build .twinsReversed ['a', 'a', 'a']).tree? "S" := by
  have agree : Grammar.twins.agrees .twinsReversed = true :=
    Grammar.agrees_iff_perm.mpr ⟨rfl, List.Perm.swap _ _ []⟩
  obtain ⟨answers, _, _⟩ := build_congr_of_agrees agree ['a', 'a', 'a']
  have counted : (build .twins ['a', 'a', 'a']).count "S" = 2 := by decide
  exact ⟨agree, by decide, by decide, counted,
    (answers "S").2.2 ▸ counted, (answers "S").2.1⟩

end Chart

end Chomsky
