import Mathlib.Algebra.BigOperators.Group.Finset.Basic
import Chomsky.Proofs.Derivation.Enumeration
import Chomsky.Proofs.Derivation.Nodes

/-!
# The weight of a tree

A rule may hold one alternative several times, and then a tree stands for as
many derivations as there are choices among equal alternatives at its nodes.
`count_trees_of_valid` says that this is how often the tree is listed, so the
length of the list is the sum of the weights of all valid trees.
-/

namespace Chomsky

/-- An element that can only come from one item is found as often as the item
stands in the list, each time as often as the item yields it. -/
theorem count_flatMap_of_unique {α β : Type} [BEq α] [LawfulBEq α] [BEq β] [LawfulBEq β]
    {items : List α} {part : α → List β} {item : α} {element : β}
    (unique : ∀ other ∈ items, element ∈ part other → other = item) :
    (items.flatMap part).count element = items.count item * (part item).count element := by
  induction items with
  | nil => simp
  | cons head rest inductionHypothesis =>
      rw [List.forall_mem_cons] at unique
      rw [List.flatMap_cons, List.count_append, inductionHypothesis unique.2]
      by_cases same : head = item
      · rw [same, List.count_cons_self, Nat.add_mul, Nat.one_mul, Nat.add_comm]
      · have absent : (part head).count element = 0 :=
          List.count_eq_zero.mpr fun inside => same (unique.1 inside)
        rw [absent, Nat.zero_add, List.count_cons_of_ne same]

namespace ParseTree

/-- In how many ways the alternatives of all nodes can be picked from the rules
of their symbols. -/
def weight (grammar : Grammar) : ParseTree → Nat
  | terminal _ => 1
  | unary symbol child =>
      (grammar.alternatives symbol).count (.ofText child.label) * child.weight grammar
  | binary symbol left right =>
      (grammar.alternatives symbol).count (.ofText (left.label ++ right.label)) *
        (left.weight grammar * right.weight grammar)

/-- A tree is joined once for every way to take its two subtrees. -/
theorem count_joinTrees {symbol : String} {lefts rights : List ParseTree}
    {left right : ParseTree} :
    (joinTrees symbol lefts rights).count (.binary symbol left right) =
      lefts.count left * rights.count right := by
  have unique : ∀ other ∈ lefts,
      ParseTree.binary symbol left right ∈ rights.map (.binary symbol other) →
        other = left := by
    intro other _ member
    obtain ⟨_, _, same⟩ := List.mem_map.mp member
    injection same
  have injective : Function.Injective (ParseTree.binary symbol left) := by
    intro first second same
    injection same
  rw [joinTrees, count_flatMap_of_unique unique, List.count_map_of_injective _ _ injective]

variable {grammar : Grammar} {symbol : String} {tree : ParseTree}

/-- Without repeated alternatives there is nothing to choose. -/
theorem ValidFor.weight_eq_one (valid : tree.ValidFor grammar symbol)
    (unrepeated : ∀ defined alternative, alternative.isNormal →
      (grammar.alternatives defined).count alternative ≤ 1) : tree.weight grammar = 1 := by
  induction valid with
  | @unary symbol character alternative =>
      have bound := unrepeated symbol (.terminal character) rfl
      have positive := List.count_pos_iff.mpr alternative
      rw [weight, weight, ParseTree.label, Alternative.ofText_singleton]
      omega
  | @binary symbol first second _ _ alternative leftValid rightValid leftHypothesis
      rightHypothesis =>
      have bound := unrepeated symbol (.pair first second) rfl
      have positive := List.count_pos_iff.mpr alternative
      rw [weight, ofText_labels leftValid rightValid, leftHypothesis, rightHypothesis]
      omega

end ParseTree

namespace Grammar

variable {grammar : Grammar} {symbol : String}

/-- Trees over a cut word show where it was cut. -/
theorem leaves_of_mem_cutTrees {leftWord rightWord : Word} {left right : ParseTree}
    (member : .binary symbol left right ∈ grammar.cutTrees symbol leftWord rightWord) :
    left.leaves = leftWord ∧ right.leaves = rightWord := by
  obtain ⟨_, _, _, _, leftMember, _, rightMember, same⟩ := mem_cutTrees_iff.mp member
  injection same with _ leftSame rightSame
  subst leftSame rightSame
  exact ⟨(mem_trees_iff.mp leftMember).2, (mem_trees_iff.mp rightMember).2⟩

/-- At the cut between its subtrees a tree is listed once for every occurrence
of its alternative and every way to list the subtrees. -/
theorem count_cutTrees {first second : Char} {left right : ParseTree}
    (leftValid : left.ValidFor grammar (String.singleton first))
    (rightValid : right.ValidFor grammar (String.singleton second)) :
    (grammar.cutTrees symbol left.leaves right.leaves).count (.binary symbol left right) =
      (grammar.alternatives symbol).count (.pair first second) *
        ((grammar.trees (String.singleton first) left.leaves).count left *
          (grammar.trees (String.singleton second) right.leaves).count right) := by
  have unique : ∀ names ∈ grammar.pairs symbol,
      .binary symbol left right ∈ ParseTree.joinTrees symbol
        (grammar.trees (String.singleton names.1) left.leaves)
        (grammar.trees (String.singleton names.2) right.leaves) → names = (first, second) := by
    intro names _ member
    obtain ⟨_, leftMember, _, rightMember, same⟩ := ParseTree.mem_joinTrees_iff.mp member
    injection same with _ leftSame rightSame
    subst leftSame rightSame
    have firstEq := (mem_trees_iff.mp leftMember).1.label.symm.trans leftValid.label
    have secondEq := (mem_trees_iff.mp rightMember).1.label.symm.trans rightValid.label
    exact Prod.ext (by simpa using congrArg String.toList firstEq)
      (by simpa using congrArg String.toList secondEq)
  rw [cutTrees, count_flatMap_of_unique unique, count_pairs, ParseTree.count_joinTrees]

/-- A valid tree is listed as often as its weight says. -/
theorem count_trees_of_valid {tree : ParseTree} (valid : tree.ValidFor grammar symbol) :
    (grammar.trees symbol tree.leaves).count tree = tree.weight grammar := by
  induction valid with
  | unary alternative =>
      rw [ParseTree.leaves, ParseTree.leaves, trees_singleton, List.count_replicate_self,
        count_terminals, ParseTree.weight, ParseTree.weight, ParseTree.label,
        Alternative.ofText_singleton, Nat.mul_one]
  | @binary symbol first second left right _ leftValid rightValid leftHypothesis
      rightHypothesis =>
      have leftPositive := List.length_pos_iff.mpr left.leaves_ne_nil
      have rightPositive := List.length_pos_iff.mpr right.leaves_ne_nil
      have length : (left.leaves ++ right.leaves).length =
          left.leaves.length + right.leaves.length := List.length_append
      have position : left.leaves.length - 1 + 1 = left.leaves.length := by omega
      -- Only the cut behind the left subtree's leaves lists the tree.
      have unique : ∀ other ∈ List.range ((left.leaves ++ right.leaves).length - 1),
          .binary symbol left right ∈ grammar.cutTrees symbol
            ((left.leaves ++ right.leaves).take (other + 1))
            ((left.leaves ++ right.leaves).drop (other + 1)) →
          other = left.leaves.length - 1 := by
        intro other inside member
        rw [List.mem_range] at inside
        have lengths := congrArg List.length (leaves_of_mem_cutTrees member).1
        rw [List.length_take] at lengths
        omega
      have once : (List.range ((left.leaves ++ right.leaves).length - 1)).count
          (left.leaves.length - 1) = 1 :=
        List.count_eq_one_of_mem List.nodup_range (List.mem_range.mpr (by omega))
      rw [ParseTree.leaves, trees_of_length_ne_one _ _ (by omega),
        count_flatMap_of_unique unique, once, position, List.take_left, List.drop_left,
        count_cutTrees leftValid rightValid, leftHypothesis, rightHypothesis, Nat.one_mul,
        ParseTree.weight, ParseTree.ofText_labels leftValid rightValid]

/-- The list is as long as the weights of its trees add up to. -/
theorem sum_weight_trees (grammar : Grammar) (symbol : String) (word : Word) :
    ∑ tree ∈ (grammar.trees symbol word).toFinset, tree.weight grammar =
      (grammar.trees symbol word).length := by
  rw [← List.sum_toFinset_count_eq_length]
  refine Finset.sum_congr rfl fun tree member => ?_
  obtain ⟨valid, rfl⟩ := mem_trees_iff.mp (List.mem_toFinset.mp member)
  exact (count_trees_of_valid valid).symm

end Grammar

end Chomsky
