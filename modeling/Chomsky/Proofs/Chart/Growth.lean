import Mathlib.Data.List.Flatten
import Chomsky.Proofs.Chart.Counting
import Chomsky.Proofs.Grammar.Merging

/-!
# Charts of growing grammars

A rule that is added leaves every alternative where it is and puts others behind it
(`Grammar.isWithin_addRule`). The chart may look different throughout: a symbol that becomes
defined can make pairs of other symbols match, and slots move. All answers are read off the trees
of a word, though, and these keep their order when others come between them
(`Grammar.IsWithin.trees_sublist`), so no answer is lost and no count gets smaller.
-/

namespace Chomsky

/-- What more items, each of them with more parts, contribute has everything in it that was
contributed before. -/
theorem flatMap_sublist_flatMap {α β : Type} {items others : List α} {parts otherParts : α → List β}
    (itemsWithin : items.Sublist others)
    (partsWithin : ∀ item ∈ items, (parts item).Sublist (otherParts item)) :
    (items.flatMap parts).Sublist (others.flatMap otherParts) :=
  (List.Sublist.flatMap_right items partsWithin).trans (itemsWithin.flatMap otherParts)

/-- More subtrees are joined to more trees. -/
theorem ParseTree.joinTrees_sublist {symbol : String}
    {lefts rights moreLefts moreRights : List ParseTree}
    (leftsWithin : lefts.Sublist moreLefts) (rightsWithin : rights.Sublist moreRights) :
    (joinTrees symbol lefts rights).Sublist (joinTrees symbol moreLefts moreRights) :=
  flatMap_sublist_flatMap leftsWithin fun left _ => rightsWithin.map (ParseTree.binary symbol left)

namespace Grammar

/-- Each symbol has all alternatives of the first grammar in the second one, in the same order. -/
def IsWithin (smaller larger : Grammar) : Prop :=
  ∀ symbol, (smaller.alternatives symbol).Sublist (larger.alternatives symbol)

/-- A grammar is within what it becomes when a rule is added. -/
theorem isWithin_addRule (grammar : Grammar) (symbol : String) (added : List Alternative) :
    grammar.IsWithin (grammar.addRule symbol added) := by
  intro other
  rw [alternatives_addRule]
  exact List.sublist_append_left _ _

namespace IsWithin

variable {smaller larger : Grammar}

/-- A larger grammar has the characters of a smaller one. -/
theorem terminals_sublist (within : smaller.IsWithin larger) (symbol : String) :
    (smaller.terminals symbol).Sublist (larger.terminals symbol) :=
  (within symbol).filterMap Alternative.terminal?

/-- A larger grammar has the pairs of a smaller one. -/
theorem pairs_sublist (within : smaller.IsWithin larger) (symbol : String) :
    (smaller.pairs symbol).Sublist (larger.pairs symbol) :=
  (within symbol).filterMap Alternative.pair?

/-- A larger grammar lists the trees of a smaller one in the same order. -/
theorem trees_sublist (within : smaller.IsWithin larger) (symbol : String) (word : Word) :
    (smaller.trees symbol word).Sublist (larger.trees symbol word) := by
  induction word using Word.partsInduction generalizing symbol with
  | single character =>
      rw [trees_singleton, trees_singleton, List.replicate_sublist_replicate]
      exact (within.terminals_sublist symbol).count_le character
  | parts word notOne inductionHypothesis =>
      rw [trees_of_length_ne_one _ _ notOne, trees_of_length_ne_one _ _ notOne]
      refine List.Sublist.flatMap_right _ fun position inside => ?_
      obtain ⟨leftHypothesis, rightHypothesis⟩ := inductionHypothesis position inside
      exact flatMap_sublist_flatMap (within.pairs_sublist symbol) fun names _ =>
        ParseTree.joinTrees_sublist (leftHypothesis _) (rightHypothesis _)

/-- A larger grammar derives what a smaller one derives. -/
theorem derives (within : smaller.IsWithin larger) {symbol : String} {word : Word}
    (derivation : smaller.Derives symbol word) : larger.Derives symbol word :=
  derivation.mono fun symbol => (within symbol).subset

end IsWithin

/-- A grammar in which `X` has no rule yet, so that two of the three pairs match nothing. -/
def dormant : Grammar :=
  .ofRules [⟨"Z", [.pair 'X' 'A']⟩, ⟨"S", [.pair 'A' 'A', .pair 'X' 'X']⟩, ⟨"A", [.terminal 'a']⟩]

end Grammar

namespace Chart

open Grammar (IsWithin)

variable {smaller larger : Grammar}

/-- Counts are larger for a larger grammar, also where they are capped. -/
theorem count_le_of_isWithin (within : smaller.IsWithin larger) (word : Word) (symbol : String) :
    (build smaller word).count symbol ≤ (build larger word).count symbol := by
  have fewer := (within.trees_sublist symbol word).length_le
  simp only [count_eq_capped_length, capped]
  omega

/-- The symbols of every span are found for a larger grammar, too. -/
theorem symbolsAt_subset_of_isWithin (within : smaller.IsWithin larger) (word : Word)
    (first last : Nat) :
    (build smaller word).symbolsAt first last ⊆ (build larger word).symbolsAt first last := by
  by_cases inside : first ≤ last ∧ last < word.length
  · obtain ⟨ordered, before⟩ := inside
    intro symbol listed
    rw [mem_symbolsAt_iff ordered before] at listed ⊢
    exact within.derives listed
  · rw [symbolsAt, size_build, if_neg inside]
    exact List.nil_subset _

/-- When a rule is added to a grammar, whether or not its symbol is new and whether or not it
occurs in pairs already, every span keeps the symbols that derive it, every symbol that derives
the word goes on doing so with at least as many trees, and a word that was parsed still is. -/
theorem addRule_keeps_parses (grammar : Grammar) (symbol : String) (added : List Alternative)
    (word : Word) :
    (∀ first last found, found ∈ (build grammar word).symbolsAt first last →
      found ∈ (build (grammar.addRule symbol added) word).symbolsAt first last) ∧
    (∀ root, (build grammar word).derives root →
      (build (grammar.addRule symbol added) word).derives root) ∧
    (∀ root, (build grammar word).count root ≤
      (build (grammar.addRule symbol added) word).count root) ∧
    ((parse? grammar word).isSome → (parse? (grammar.addRule symbol added) word).isSome) := by
  have within := grammar.isWithin_addRule symbol added
  refine ⟨fun first last found => ?listed, fun root => ?derived, fun root => ?counted, ?parsed⟩
  case listed =>
    intro member
    exact symbolsAt_subset_of_isWithin within word first last member
  case derived =>
    simp only [derives_iff]
    exact within.derives
  case counted =>
    exact count_le_of_isWithin within word root
  case parsed =>
    simp only [parse?, isSome_tree?_iff]
    exact within.derives

/-- A rule for `X` makes two pairs match: the slot of `S` over `aa` moves behind that of `Z`, and
`S` has a second tree. -/
theorem addRule_keeps_parses_of_dormant :
    let grown := Grammar.dormant.addRule "X" [.terminal 'a']
    (build .dormant ['a', 'a']).symbolsAt 0 1 = ["S"] ∧
    (build grown ['a', 'a']).symbolsAt 0 1 = ["Z", "S"] ∧
    "S" ∈ (build grown ['a', 'a']).symbolsAt 0 1 ∧
    (build .dormant ['a', 'a']).derives "S" ∧ (build grown ['a', 'a']).derives "S" ∧
    (build .dormant ['a', 'a']).count "S" = 1 ∧ (build grown ['a', 'a']).count "S" = 2 ∧
    (build .dormant ['a', 'a']).count "S" ≤ (build grown ['a', 'a']).count "S" ∧
    (parse? .dormant ['a', 'a']).isSome ∧ (parse? grown ['a', 'a']).isSome := by
  intro grown
  obtain ⟨listed, derived, counted, parsed⟩ :=
    addRule_keeps_parses .dormant "X" [.terminal 'a'] ['a', 'a']
  have symbols : (build .dormant ['a', 'a']).symbolsAt 0 1 = ["S"] := by decide
  have derivable : (build .dormant ['a', 'a']).derives "S" := by decide
  have parsable : (parse? .dormant ['a', 'a']).isSome := by decide
  exact ⟨symbols, by decide, listed 0 1 "S" (by simp [symbols]), derivable, derived "S" derivable,
    by decide, by decide, counted "S", parsable, parsed parsable⟩

end Chart

end Chomsky
