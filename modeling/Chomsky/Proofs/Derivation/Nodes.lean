import Chomsky.Derivation.Tree

/-!
# The nodes of a valid tree

Validity is defined from the root down. Here it is read at every single node:
each one is a character, or a symbol above an alternative of its rule.
-/

namespace Chomsky

namespace ParseTree

/-- The subtrees below all nodes, each above its own descendants. -/
def subtrees : ParseTree → List ParseTree
  | terminal character => [terminal character]
  | unary symbol child => unary symbol child :: child.subtrees
  | binary symbol left right =>
      binary symbol left right :: (left.subtrees ++ right.subtrees)

variable {grammar : Grammar} {symbol : String} {tree : ParseTree}

theorem ValidFor.label (valid : tree.ValidFor grammar symbol) : tree.label = symbol := by
  cases valid <;> rfl

theorem ValidFor.symbol? (valid : tree.ValidFor grammar symbol) :
    tree.symbol? = some symbol := by
  cases valid <;> rfl

/-- The labels below a node of two subtrees spell the alternative that it
applies. -/
theorem ofText_labels {first second : Char} {left right : ParseTree}
    (leftValid : left.ValidFor grammar (String.singleton first))
    (rightValid : right.ValidFor grammar (String.singleton second)) :
    Alternative.ofText (left.label ++ right.label) = .pair first second := by
  rw [leftValid.label, rightValid.label, ← Alternative.ofText_pair]
  exact congrArg _ (String.toList_injective (by simp))

/-- Below every node of a valid tree stands a valid tree. -/
theorem ValidFor.of_mem_subtrees {node : ParseTree} (valid : tree.ValidFor grammar symbol)
    (member : node ∈ tree.subtrees) :
    (∃ character, node = .terminal character) ∨
      ∃ nodeSymbol, node.ValidFor grammar nodeSymbol := by
  induction valid with
  | @unary symbol character alternative =>
      rw [subtrees, subtrees, List.mem_cons, List.mem_singleton] at member
      obtain rfl | rfl := member
      · exact .inr ⟨symbol, .unary alternative⟩
      · exact .inl ⟨character, rfl⟩
  | @binary symbol _ _ _ _ alternative leftValid rightValid leftHypothesis rightHypothesis =>
      rw [subtrees, List.mem_cons, List.mem_append] at member
      obtain rfl | inLeft | inRight := member
      · exact .inr ⟨symbol, .binary alternative leftValid rightValid⟩
      · exact leftHypothesis inLeft
      · exact rightHypothesis inRight

/-- A node with one child has a character below it that its symbol may be
replaced by. -/
theorem ValidFor.unary_node {nodeSymbol : String} {child : ParseTree}
    (valid : tree.ValidFor grammar symbol) (member : .unary nodeSymbol child ∈ tree.subtrees) :
    ∃ character, child = .terminal character ∧
      .terminal character ∈ grammar.alternatives nodeSymbol := by
  obtain ⟨_, impossible⟩ | ⟨_, nodeValid⟩ := valid.of_mem_subtrees member
  · cases impossible
  · cases nodeValid with
    | unary alternative => exact ⟨_, rfl, alternative⟩

/-- A node with two children has the names of a pair below it that its symbol
may be replaced by. -/
theorem ValidFor.binary_node {nodeSymbol : String} {left right : ParseTree}
    (valid : tree.ValidFor grammar symbol)
    (member : .binary nodeSymbol left right ∈ tree.subtrees) :
    ∃ first second, left.symbol? = some (String.singleton first) ∧
      right.symbol? = some (String.singleton second) ∧
      .pair first second ∈ grammar.alternatives nodeSymbol := by
  obtain ⟨_, impossible⟩ | ⟨_, nodeValid⟩ := valid.of_mem_subtrees member
  · cases impossible
  · cases nodeValid with
    | binary alternative leftValid rightValid =>
        exact ⟨_, _, leftValid.symbol?, rightValid.symbol?, alternative⟩

end ParseTree

end Chomsky
