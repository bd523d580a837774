import Chomsky.Proofs.Chart.Recognition
import Chomsky.Proofs.Derivation.Occurrence

/-!
# Parts of a word

The cell of a span is made from the characters of the span and from nothing else: a chart of
a longer word holds the chart of each of its parts, slot for slot (`cell_of_part`). The
same is true of trees, because every part of a preferred tree is preferred.
-/

namespace Chomsky

namespace Chart

variable (grammar : Grammar) (before span after : Word)

/-- A span has the same cell wherever its characters stand. -/
theorem cell_of_part {start width : Nat} (within : start + width ≤ span.length) :
    (build grammar (before ++ span ++ after)).cell (before.length + start) width =
      (build grammar span).cell start width := by
  have wholeLength : (before ++ span ++ after).length =
      before.length + span.length + after.length := by
    rw [List.length_append, List.length_append]
  induction width using Nat.strongRecOn generalizing start with
  | ind width inductionHypothesis =>
      rcases Nat.eq_zero_or_pos width with rfl | positive
      · rw [cell_zero, cell_zero]
      have wholeWithin : before.length + start + width ≤ (before ++ span ++ after).length := by
        omega
      rw [cell_build grammar _ positive wholeWithin, cell_build grammar span positive within,
        spanCell, spanCell]
      split
      · next single =>
          have inside : start < span.length := by omega
          have character : (before ++ span ++ after)[before.length + start]? = span[start]? := by
            rw [List.append_assoc, List.getElem?_append_right (Nat.le_add_right _ _),
              Nat.add_sub_cancel_left, List.getElem?_append_left inside]
          rw [List.getElem?_toArray, List.getElem?_toArray, character]
      · refine congrArg Cell.ofFindings (List.flatMap_congr fun position cut => ?_)
        rw [List.mem_range] at cut
        simp only [Nat.add_assoc before.length start]
        rw [inductionHypothesis (position + 1) (by omega) (by omega),
          inductionHypothesis (width - (position + 1)) (by omega) (by omega)]

/-- A chart holds for a part of its word what the chart of that part holds: the same cells,
and so the same symbols in the same order; and every subtree that covers the part is the
tree that the part has on its own. -/
theorem parts_read_alike_in_context (nonempty : span ≠ []) :
    (∀ start width, start + width ≤ span.length →
      (build grammar (before ++ span ++ after)).cell (before.length + start) width =
        (build grammar span).cell start width) ∧
    (build grammar (before ++ span ++ after)).symbolsAt before.length
        (before.length + span.length - 1) =
      (build grammar span).symbolsAt 0 (span.length - 1) ∧
    ∀ symbol tree, (build grammar (before ++ span ++ after)).tree? symbol = some tree →
      ∀ subtree root, tree.Occurs before.length subtree →
        subtree.leaves.length = span.length → subtree.symbol? = some root →
          (build grammar span).tree? root = some subtree := by
  refine ⟨fun _ _ => cell_of_part grammar before span after, ?symbols, ?subtrees⟩
  case symbols =>
    have positive := List.length_pos_iff.mpr nonempty
    have width : before.length + span.length - 1 - before.length + 1 = span.length := by omega
    have aloneWidth : span.length - 1 - 0 + 1 = span.length := by omega
    have whole := cell_of_part grammar before span after (Nat.le_of_eq (Nat.zero_add span.length))
    rw [symbolsAt_of_within (by omega) (by simp only [List.length_append]; omega),
      symbolsAt_of_within (Nat.zero_le _) (by omega), width, aloneWidth]
    exact congrArg Cell.symbols whole
  case subtrees =>
    intro symbol tree found subtree root occurs covers rooted
    rw [tree?_eq_head?] at found ⊢
    have leaves := occurs.leaves_eq (Grammar.mem_of_head?_trees found).2 covers
    exact leaves ▸ Grammar.head?_trees_of_occurs occurs found rooted

/-- The inner pair of `(())` has the symbols and the tree that it has alone. -/
theorem parts_read_alike_in_context_nested :
    let grammar := Grammar.ofRules [⟨"S", [.pair 'L' 'R', .pair 'L' 'A', .pair 'S' 'S']⟩,
      ⟨"A", [.pair 'S' 'R']⟩, ⟨"L", [.terminal '(']⟩, ⟨"R", [.terminal ')']⟩]
    let inner := ParseTree.binary "S" (.unary "L" (.terminal '(')) (.unary "R" (.terminal ')'))
    let tree := ParseTree.binary "S" (.unary "L" (.terminal '('))
      (.binary "A" inner (.unary "R" (.terminal ')')))
    ['(', ')'] ≠ [] ∧ (build grammar ['(', '(', ')', ')']).tree? "S" = some tree ∧
      tree.Occurs 1 inner ∧ (build grammar ['(', ')']).tree? "S" = some inner ∧
      (build grammar ['(', '(', ')', ')']).symbolsAt 1 2 =
        (build grammar ['(', ')']).symbolsAt 0 1 := by
  intro grammar inner tree
  obtain ⟨_, symbols, subtrees⟩ :=
    parts_read_alike_in_context grammar ['('] ['(', ')'] [')'] (by decide)
  have found : (build grammar ['(', '(', ')', ')']).tree? "S" = some tree := by decide
  have occurs : tree.Occurs 1 inner := .right (.left (.root inner))
  exact ⟨by decide, found, occurs, subtrees "S" tree found inner "S" occurs rfl rfl, symbols⟩

end Chart

end Chomsky
