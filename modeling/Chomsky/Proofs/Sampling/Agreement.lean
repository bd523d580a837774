import Chomsky.Proofs.Grammar.Restriction
import Chomsky.Proofs.Sampling.Runs
import Chomsky.Proofs.Sampling.Sweeps

/-!
# Sampling from grammars that agree

Passes over all rules at once and sweeps in place both arrive at the least heights of
trees, and the trees of a symbol are the same for grammars with the same alternatives
in normal form (`NormalEquivalent`). The candidates for a pick are then the same at
every depth, in the same order, and so an expansion takes the same course with the
same words. Hence neither the order of the rules nor a text that is not in normal form
has any influence on what is sampled.
-/

namespace Chomsky

variable {first second : Grammar} {heights others : Heights} {symbol : String}

namespace Heights

/-- What an alternative offers depends on the heights that are looked up alone. -/
theorem ofAlternative?_congr (same : ∀ symbol, heights.lookup symbol = others.lookup symbol) :
    heights.ofAlternative? = others.ofAlternative? := by
  funext alternative
  cases alternative with
  | terminal character => rfl
  | pair left right => simp only [ofAlternative?, same]
  | unsupported text => rfl

end Heights

namespace Grammar.NormalEquivalent

/-- Trees are made of alternatives in normal form. -/
theorem validFor {tree : ParseTree} (equivalent : first.NormalEquivalent second)
    (valid : tree.ValidFor first symbol) : tree.ValidFor second symbol := by
  induction valid with
  | unary alternative => exact .unary ((equivalent.mem_alternatives_iff rfl).mp alternative)
  | binary alternative _ _ leftHypothesis rightHypothesis =>
      exact .binary ((equivalent.mem_alternatives_iff rfl).mp alternative) leftHypothesis
        rightHypothesis

/-- The relation goes both ways. -/
theorem symm (equivalent : first.NormalEquivalent second) : second.NormalEquivalent first :=
  fun symbol => (equivalent symbol).symm

/-- The lowest trees are as low for either grammar. -/
theorem leastHeight {height : Nat} (equivalent : first.NormalEquivalent second)
    (least : first.LeastHeight symbol height) : second.LeastHeight symbol height where
  attained := by
    obtain ⟨tree, valid, sameHeight⟩ := least.attained
    exact ⟨tree, equivalent.validFor valid, sameHeight⟩
  least tree valid := least.least tree (equivalent.symm.validFor valid)

/-- The passes arrive at the same heights, in whatever order they find them. -/
theorem lookup_leastHeights (equivalent : first.NormalEquivalent second) (symbol : String) :
    first.leastHeights.lookup symbol = second.leastHeights.lookup symbol := by
  -- The passes differ, so what they end with is compared by what it says about trees.
  apply Option.ext
  intro height
  rw [lookup_leastHeights_iff, lookup_leastHeights_iff]
  exact ⟨equivalent.leastHeight, equivalent.symm.leastHeight⟩

end Grammar.NormalEquivalent

/-- Alternatives that are not in normal form are no candidates, and make no difference
to which of the others are. -/
theorem candidates_comp_filter (heights : Heights) (depth : Nat) :
    candidates heights depth ∘ List.filter Alternative.isNormal = candidates heights depth := by
  funext alternatives
  simp only [Function.comp_apply, candidates, List.filter_filter, Bool.and_self]

/-- Candidates depend on the heights that are looked up alone. -/
theorem candidates_congr (same : ∀ symbol, heights.lookup symbol = others.lookup symbol)
    (depth : Nat) : candidates heights depth = candidates others depth := by
  have offers : heights.ofAlternative? = others.ofAlternative? := Heights.ofAlternative?_congr same
  funext alternatives
  simp only [candidates, Heights.least?, offers]

/-- An expansion is determined by the candidates of each symbol at each depth. -/
theorem expand_congr
    (same : ∀ symbol depth,
      (first.alternatives? symbol).map (candidates heights depth) =
        (second.alternatives? symbol).map (candidates others depth))
    (levels : Nat) (symbol : String) (supply : Supply) :
    expand first heights levels symbol supply = expand second others levels symbol supply := by
  induction levels generalizing symbol supply with
  | zero => rfl
  | succ levels inductionHypothesis =>
      have here := same symbol (maxDepth - levels)
      cases rule : first.alternatives? symbol with
      | none =>
          rw [rule, Option.map_none, eq_comm, Option.map_eq_none_iff] at here
          rw [expand, expand, rule, here]
      | some alternatives =>
          rw [rule, Option.map_some, eq_comm, Option.map_eq_some_iff] at here
          obtain ⟨otherAlternatives, otherRule, sameCandidates⟩ := here
          simp only [expand, rule, otherRule, sameCandidates, inductionHypothesis]

namespace Grammar

/-- Heights that are found in place steer an expansion like those that passes find. -/
theorem expand_sweptHeights_eq (grammar : Grammar) (levels : Nat) (symbol : String)
    (supply : Supply) :
    expand grammar grammar.sweptHeights levels symbol supply =
      expand grammar grammar.leastHeights levels symbol supply := by
  apply expand_congr
  intro symbol depth
  rw [candidates_congr grammar.lookup_sweptHeights]

/-- Grammars with the same alternatives in normal form give a symbol the same
candidates. -/
theorem NormalEquivalent.candidates (equivalent : first.NormalEquivalent second)
    (symbol : String) (depth : Nat) :
    (first.alternatives? symbol).map (Chomsky.candidates first.leastHeights depth) =
      (second.alternatives? symbol).map (Chomsky.candidates second.leastHeights depth) := by
  rw [← candidates_comp_filter first.leastHeights, ← Option.map_map, equivalent symbol,
    Option.map_map, candidates_comp_filter, candidates_congr equivalent.lookup_leastHeights]

/-- Grammars with the same alternatives in normal form are sampled alike. -/
theorem NormalEquivalent.sampleFrom (equivalent : first.NormalEquivalent second)
    (symbol path : String) (supply : Supply) :
    first.sampleFrom symbol path supply = second.sampleFrom symbol path supply := by
  rw [sampleFrom_eq, sampleFrom_eq, expand_congr equivalent.candidates]

/-- The same holds if their heights are found in place. -/
theorem NormalEquivalent.expand_sweptHeights (equivalent : first.NormalEquivalent second)
    (levels : Nat) (symbol : String) (supply : Supply) :
    expand first first.sweptHeights levels symbol supply =
      expand second second.sweptHeights levels symbol supply := by
  rw [expand_sweptHeights_eq, expand_sweptHeights_eq, expand_congr equivalent.candidates]

/-- Whatever order two agreeing grammars have their rules in, sampling from either of
them ends in the same word or the same error, and leaves the supply with as many words
drawn. So do expansions that are steered by heights found in place, although the order
of the rules decides which heights are found first. -/
theorem sample_congr_of_agrees (agree : first.agrees second = true) (path : String)
    (supply : Supply) :
    first.sample path supply = second.sample path supply ∧
      ∀ symbol, first.sampleFrom symbol path supply = second.sampleFrom symbol path supply ∧
        ∀ levels, expand first first.sweptHeights levels symbol supply =
          expand second second.sweptHeights levels symbol supply := by
  have equivalent := agrees_iff.mp agree
  have normalEquivalent := equivalent.normalEquivalent
  refine ⟨?_, fun symbol => ⟨normalEquivalent.sampleFrom symbol path supply, fun levels =>
    normalEquivalent.expand_sweptHeights levels symbol supply⟩⟩
  rw [sample, sample, equivalent.1]
  exact normalEquivalent.sampleFrom second.start path supply

/-- Symbols that are defined before or after those that they are built from make no
difference, neither where alternatives are picked as the words say nor below the soft
depth, where they are picked by their heights. -/
theorem sample_congr_of_agrees_reversed :
    let rules : List Rule := [⟨"S", [.pair 'A' 'S', .pair 'A' 'A']⟩, ⟨"A", [.pair 'B' 'B']⟩,
      ⟨"B", [.terminal 'b']⟩]
    let supply := Supply.fresh (.listed (Array.replicate 55 0))
    (ofRules rules).agrees (ofRules rules.reverse) = true ∧
      (ofRules rules).leastHeights ≠ (ofRules rules.reverse).leastHeights ∧
      ((ofRules rules).sample "g.cnf" supply).1 = .ok (List.replicate 28 'b') ∧
      ((ofRules rules).sample "g.cnf" supply).2.drawn = 55 ∧
      (ofRules rules).sample "g.cnf" supply = (ofRules rules.reverse).sample "g.cnf" supply := by
  intro rules supply
  have agree : (ofRules rules).agrees (ofRules rules.reverse) = true := by decide
  exact ⟨agree, by decide, by decide, by decide, (sample_congr_of_agrees agree "g.cnf" supply).1⟩

end Grammar

end Chomsky
