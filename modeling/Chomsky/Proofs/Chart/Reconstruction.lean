import Chomsky.Proofs.Chart.Recognition
import Chomsky.Proofs.Derivation.Leaves
import Chomsky.Proofs.Derivation.Preference

/-!
# The tree of a chart

A chart follows first derivations only. The tree that it arrives at is a
derivation of the whole word, and of all such derivations it is the preferred
one.
-/

namespace Chomsky

namespace Chart

variable {grammar : Grammar} {word : Word} {symbol : String} {tree : ParseTree}

/-- A tree of a chart derives the word from the symbol that was asked for: it has
the symbol at its root and the word at its leaves, and every node applies an
alternative of its symbol. -/
theorem tree?_derives_word (found : (build grammar word).tree? symbol = some tree) :
    tree.symbol? = some symbol ∧
      tree.leaves = word ∧ tree.leafCursor.Walk word ∧ tree.spelled = String.ofList word ∧
      (∀ nodeSymbol child, .unary nodeSymbol child ∈ tree.subtrees →
        ∃ character, child = .terminal character ∧
          .terminal character ∈ grammar.alternatives nodeSymbol) ∧
      ∀ nodeSymbol left right, .binary nodeSymbol left right ∈ tree.subtrees →
        ∃ first second, left.symbol? = some (String.singleton first) ∧
          right.symbol? = some (String.singleton second) ∧
          .pair first second ∈ grammar.alternatives nodeSymbol := by
  rw [tree?_eq_head?] at found
  obtain ⟨valid, rfl⟩ := Grammar.mem_of_head?_trees found
  exact ⟨valid.symbol?, rfl, tree.walk_leaves, rfl, fun _ _ => valid.unary_node,
    fun _ _ _ => valid.binary_node⟩

/-- The right-hand bracketing of `aaa` is found, so it derives the word. -/
theorem tree?_derives_word_of_bracketings :
    let leaf := ParseTree.unary "S" (.terminal 'a')
    let tree := ParseTree.binary "S" leaf (.binary "S" leaf leaf)
    (build .bracketings ['a', 'a', 'a']).tree? "S" = some tree ∧
      tree.leafCursor.Walk ['a', 'a', 'a'] ∧
      ∃ first second, leaf.symbol? = some (String.singleton first) ∧
        leaf.symbol? = some (String.singleton second) ∧
        .pair first second ∈ Grammar.bracketings.alternatives "S" := by
  intro leaf tree
  have found : (build .bracketings ['a', 'a', 'a']).tree? "S" = some tree := by decide
  obtain ⟨_, _, walk, _, _, binary⟩ := tree?_derives_word found
  exact ⟨found, walk, binary "S" leaf leaf (by decide)⟩

/-- A tree is the one of a chart exactly when it is valid, spells the word and
comes before every other such tree; a parse is such a tree of the start symbol. -/
theorem tree?_eq_some_iff_least (grammar : Grammar) (word : Word) :
    (∀ symbol tree, (build grammar word).tree? symbol = some tree ↔
      tree.ValidFor grammar symbol ∧ tree.leaves = word ∧
        ∀ other, other.ValidFor grammar symbol → other.leaves = word →
          tree = other ∨ tree.Precedes grammar other) ∧
    ∀ tree, parse? grammar word = some tree ↔
      tree.ValidFor grammar grammar.start ∧ tree.leaves = word ∧
        ∀ other, other.ValidFor grammar grammar.start → other.leaves = word →
          tree = other ∨ tree.Precedes grammar other := by
  constructor
  · intro symbol tree
    rw [tree?_eq_head?, Grammar.head?_trees_eq_some_iff]
  · intro tree
    rw [parse?, tree?_eq_head?, Grammar.head?_trees_eq_some_iff]

/-- The right-hand bracketing of `aaa` is parsed and comes before the left-hand
one. -/
theorem tree?_eq_some_iff_least_of_bracketings :
    let leaf := ParseTree.unary "S" (.terminal 'a')
    let tree := ParseTree.binary "S" leaf (.binary "S" leaf leaf)
    let other := ParseTree.binary "S" (.binary "S" leaf leaf) leaf
    parse? .bracketings ['a', 'a', 'a'] = some tree ∧
      other.ValidFor .bracketings "S" ∧ other.leaves = ['a', 'a', 'a'] ∧
      (tree = other ∨ tree.Precedes .bracketings other) := by
  intro leaf tree other
  have name : String.singleton 'S' = "S" := rfl
  have leafValid : leaf.ValidFor .bracketings (String.singleton 'S') := by
    rw [name]
    exact .unary (by decide)
  have innerValid :
      (ParseTree.binary "S" leaf leaf).ValidFor .bracketings (String.singleton 'S') := by
    rw [name]
    exact .binary (by decide) leafValid leafValid
  have otherValid : other.ValidFor .bracketings "S" := .binary (by decide) innerValid leafValid
  have parsed : parse? .bracketings ['a', 'a', 'a'] = some tree := by decide
  obtain ⟨_, _, least⟩ :=
    ((tree?_eq_some_iff_least .bracketings ['a', 'a', 'a']).2 tree).mp parsed
  exact ⟨parsed, otherValid, rfl, least other otherValid rfl⟩

end Chart

end Chomsky
