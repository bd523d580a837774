import Chomsky.Proofs.Derivation.Preference

/-!
# Where subtrees stand

A subtree covers the characters of the word that stand at its leaves, and which ones these
are is known from the number of leaves to the left of it (`ParseTree.Occurs`). Of a
preferred tree every part is preferred: below the root stand the first trees of the two
symbols of a pair, over the characters that they cover (`Grammar.head?_trees_of_occurs`).
-/

namespace Chomsky

namespace ParseTree

/-- A subtree stands in a tree, with so many leaves of the tree to the left of it. -/
inductive Occurs : ParseTree → Nat → ParseTree → Prop where
  | root (tree : ParseTree) : Occurs tree 0 tree
  | child {symbol child offset subtree} (inside : Occurs child offset subtree) :
      Occurs (.unary symbol child) offset subtree
  | left {symbol left right offset subtree} (inside : Occurs left offset subtree) :
      Occurs (.binary symbol left right) offset subtree
  | right {symbol left right offset subtree} (inside : Occurs right offset subtree) :
      Occurs (.binary symbol left right) (left.leaves.length + offset) subtree

variable {tree subtree : ParseTree} {offset : Nat}

/-- The leaves of a subtree stand among those of the tree, behind as many as are to the left
of it. -/
theorem Occurs.exists_leaves_eq (occurs : tree.Occurs offset subtree) :
    ∃ before after, tree.leaves = before ++ subtree.leaves ++ after ∧ before.length = offset := by
  induction occurs with
  | root tree => exact ⟨[], [], by simp, rfl⟩
  | child _ inductionHypothesis => exact inductionHypothesis
  | @left _ _ right _ _ _ inductionHypothesis =>
      obtain ⟨before, after, leaves, length⟩ := inductionHypothesis
      exact ⟨before, after ++ right.leaves, by simp [ParseTree.leaves, leaves], length⟩
  | @right _ left _ _ _ _ inductionHypothesis =>
      obtain ⟨before, after, leaves, length⟩ := inductionHypothesis
      exact ⟨left.leaves ++ before, after, by simp [ParseTree.leaves, leaves], by simp [length]⟩

/-- A subtree that covers as many characters as a part of the word, behind as many others,
spells that part. -/
theorem Occurs.leaves_eq {before span after : Word} (occurs : tree.Occurs before.length subtree)
    (leaves : tree.leaves = before ++ span ++ after)
    (covers : subtree.leaves.length = span.length) : subtree.leaves = span := by
  obtain ⟨left, right, split, length⟩ := occurs.exists_leaves_eq
  rw [leaves, List.append_assoc, List.append_assoc] at split
  have behind := (List.append_inj split length.symm).2
  exact (List.append_inj behind covers.symm).1.symm

end ParseTree

namespace Grammar

variable {grammar : Grammar} {symbol : String} {word : Word}

/-- The first tree over a word has first trees below its root. -/
theorem exists_heads_of_head?_trees {own : String} {left right : ParseTree}
    (head : (grammar.trees symbol word).head? = some (.binary own left right)) :
    ∃ first second, (grammar.trees (String.singleton first) left.leaves).head? = some left ∧
      (grammar.trees (String.singleton second) right.leaves).head? = some right := by
  obtain ⟨valid, rfl⟩ := mem_of_head?_trees head
  have leftLeaf := List.length_pos_iff.mpr left.leaves_ne_nil
  have rightLeaf := List.length_pos_iff.mpr right.leaves_ne_nil
  have several : (left.leaves ++ right.leaves).length ≠ 1 := by
    rw [List.length_append]
    omega
  rw [ParseTree.leaves, trees_of_length_ne_one _ _ several] at head
  obtain ⟨_, _, found, _⟩ := exists_first_of_head?_flatMap head
  obtain ⟨first, second, leftTree, rightTree, _, leftHead, rightHead, same, _⟩ :=
    exists_first_of_head?_cutTrees found
  obtain ⟨rfl, rfl, rfl⟩ := ParseTree.binary.inj same
  refine ⟨first, second, ?_, ?_⟩
  · rwa [(mem_of_head?_trees leftHead).2]
  · rwa [(mem_of_head?_trees rightHead).2]

/-- Every subtree of a first tree is the first tree of its symbol over the characters that it
covers. -/
theorem head?_trees_of_occurs {tree subtree : ParseTree} {offset : Nat} {root : String}
    (occurs : tree.Occurs offset subtree) (head : (grammar.trees symbol word).head? = some tree)
    (rooted : subtree.symbol? = some root) :
    (grammar.trees root subtree.leaves).head? = some subtree := by
  induction occurs generalizing symbol word with
  | root tree =>
      obtain ⟨valid, spells⟩ := mem_of_head?_trees head
      rw [valid.symbol?] at rooted
      cases rooted
      rwa [spells]
  | child inside _ =>
      -- Below a single child stands a character, which has no symbol.
      cases (mem_of_head?_trees head).1 with
      | unary alternative =>
          cases inside
          cases rooted
  | left _ inductionHypothesis =>
      obtain ⟨_, _, leftHead, _⟩ := exists_heads_of_head?_trees head
      exact inductionHypothesis leftHead rooted
  | right _ inductionHypothesis =>
      obtain ⟨_, _, _, rightHead⟩ := exists_heads_of_head?_trees head
      exact inductionHypothesis rightHead rooted

end Grammar

end Chomsky
