import Chomsky.Grammar.Basic

/-!
# Parse trees

A parse tree records how a symbol derives a word. The relations here say what a
derivation is without any reference to how one is found: `Grammar.Derives`
speaks of words, and `ParseTree.ValidFor` of the trees that witness it.
-/

namespace Chomsky

/-- A word over the terminal characters. -/
abbrev Word := List Char

/-- One step of a derivation, with the steps below it. A unary node stands
above a terminal in every tree that a parse yields, but any child is allowed. -/
inductive ParseTree where
  /-- A character of the word. -/
  | terminal (character : Char)
  /-- A symbol replaced by one child. -/
  | unary (symbol : String) (child : ParseTree)
  /-- A symbol replaced by two children. -/
  | binary (symbol : String) (left right : ParseTree)
deriving DecidableEq, Repr

namespace ParseTree

/-- The symbol at the root, if it is not a terminal. -/
def symbol? : ParseTree → Option String
  | terminal _ => none
  | unary symbol _ => some symbol
  | binary symbol _ _ => some symbol

/-- The subtrees just below the root, from left to right. -/
def children : ParseTree → List ParseTree
  | terminal _ => []
  | unary _ child => [child]
  | binary _ left right => [left, right]

/-- What is written at the root: its symbol, or its character. -/
def label : ParseTree → String
  | terminal character => String.singleton character
  | unary symbol _ => symbol
  | binary symbol _ _ => symbol

/-- The characters at the terminals, from left to right. -/
def leaves : ParseTree → Word
  | terminal character => [character]
  | unary _ child => child.leaves
  | binary _ left right => left.leaves ++ right.leaves

/-- The text that the leaves spell. -/
def spelled (tree : ParseTree) : String :=
  String.ofList tree.leaves

/-- The number of symbols on the longest way from the root to a terminal. -/
def height : ParseTree → Nat
  | terminal _ => 0
  | unary _ child => child.height + 1
  | binary _ left right => max left.height right.height + 1

/-- The number of nodes. -/
def size : ParseTree → Nat
  | terminal _ => 1
  | unary _ child => child.size + 1
  | binary _ left right => left.size + right.size + 1

/-- A tree rooted at a symbol in which every node is an alternative that the
grammar has for its symbol. -/
inductive ValidFor (grammar : Grammar) : String → ParseTree → Prop where
  | unary {symbol : String} {character : Char}
      (alternative : .terminal character ∈ grammar.alternatives symbol) :
      ValidFor grammar symbol (.unary symbol (.terminal character))
  | binary {symbol : String} {first second : Char} {left right : ParseTree}
      (alternative : .pair first second ∈ grammar.alternatives symbol)
      (leftValid : ValidFor grammar (String.singleton first) left)
      (rightValid : ValidFor grammar (String.singleton second) right) :
      ValidFor grammar symbol (.binary symbol left right)

/-- Every tree has a leaf. -/
theorem leaves_ne_nil (tree : ParseTree) : tree.leaves ≠ [] := by
  induction tree with
  | terminal character => simp [leaves]
  | unary symbol child inductionHypothesis => simpa [leaves] using inductionHypothesis
  | binary symbol left right leftHypothesis _ => simp [leaves, leftHypothesis]

end ParseTree

namespace Grammar

/-- The words that a symbol can be expanded to. -/
inductive Derives (grammar : Grammar) : String → Word → Prop where
  | terminal {symbol : String} {character : Char}
      (alternative : .terminal character ∈ grammar.alternatives symbol) :
      Derives grammar symbol [character]
  | pair {symbol : String} {first second : Char} {left right : Word}
      (alternative : .pair first second ∈ grammar.alternatives symbol)
      (leftDerives : Derives grammar (String.singleton first) left)
      (rightDerives : Derives grammar (String.singleton second) right) :
      Derives grammar symbol (left ++ right)

/-- With more alternatives a symbol derives no less. -/
theorem Derives.mono {smaller larger : Grammar} {symbol : String} {word : Word}
    (within : ∀ symbol, smaller.alternatives symbol ⊆ larger.alternatives symbol)
    (derivation : smaller.Derives symbol word) : larger.Derives symbol word := by
  induction derivation with
  | terminal alternative => exact .terminal (within _ alternative)
  | pair alternative _ _ leftHypothesis rightHypothesis =>
      exact .pair (within _ alternative) leftHypothesis rightHypothesis

/-- The start symbol has no influence on what a symbol derives. -/
@[simp] theorem derives_withStart {grammar : Grammar} {start symbol : String} {word : Word} :
    (grammar.withStart start).Derives symbol word ↔ grammar.Derives symbol word :=
  ⟨Derives.mono fun _ => List.Subset.refl _, Derives.mono fun _ => List.Subset.refl _⟩

/-- A word is derivable exactly when it is spelled by a valid tree. -/
theorem derives_iff_exists_tree {grammar : Grammar} {symbol : String} {word : Word} :
    grammar.Derives symbol word ↔
      ∃ tree : ParseTree, tree.ValidFor grammar symbol ∧ tree.leaves = word := by
  constructor
  · intro derivation
    induction derivation with
    | terminal alternative =>
        exact ⟨_, .unary alternative, rfl⟩
    | pair alternative _ _ leftHypothesis rightHypothesis =>
        obtain ⟨left, leftValid, rfl⟩ := leftHypothesis
        obtain ⟨right, rightValid, rfl⟩ := rightHypothesis
        exact ⟨_, .binary alternative leftValid rightValid, rfl⟩
  · rintro ⟨tree, valid, rfl⟩
    induction valid with
    | unary alternative => exact .terminal alternative
    | binary alternative _ _ leftHypothesis rightHypothesis =>
        exact .pair alternative leftHypothesis rightHypothesis

/-- Nothing derives the empty word. -/
theorem Derives.word_ne_nil {grammar : Grammar} {symbol : String} {word : Word}
    (derivation : grammar.Derives symbol word) : word ≠ [] := by
  obtain ⟨tree, _, rfl⟩ := derives_iff_exists_tree.mp derivation
  exact tree.leaves_ne_nil

end Grammar

end Chomsky
