import Mathlib.Data.List.Basic
import Chomsky.Derivation.Tree
import Chomsky.Proofs.Grammar.Productions

/-!
# The trees of a word, in order

`Grammar.trees` lists the parse trees of a symbol over a word without any chart.
The order is that of preference: the leftmost cut first, at one cut the pairs of
the symbol in the order of its rule, and for one pair the trees of the left part
before those of the right one. A tree stands in the list once for every choice
among equal alternatives at its nodes. By `mem_trees_iff` the listed trees are
the valid ones.
-/

namespace Chomsky

/-- Elements that are passed over may be left in when they contribute nothing. -/
theorem flatMap_filterMap_of_forall {α β γ : Type} {select : α → Option β} {whole : α → List γ}
    {part : β → List γ} {items : List α}
    (absent : ∀ item ∈ items, select item = none → whole item = [])
    (present : ∀ item ∈ items, ∀ selected, select item = some selected →
      whole item = part selected) :
    (items.filterMap select).flatMap part = items.flatMap whole := by
  induction items with
  | nil => rfl
  | cons item rest inductionHypothesis =>
      rw [List.forall_mem_cons] at absent present
      have later := inductionHypothesis absent.2 present.2
      cases selection : select item with
      | none => simp [selection, absent.1 selection, later]
      | some selected => simp [selection, present.1 selected selection, later]

namespace ParseTree

/-- Every tree with this symbol at its root and a subtree from either list. -/
def joinTrees (symbol : String) (lefts rights : List ParseTree) : List ParseTree :=
  lefts.flatMap fun left => rights.map (.binary symbol left)

variable {symbol : String} {lefts rights : List ParseTree}

theorem mem_joinTrees_iff {tree : ParseTree} :
    tree ∈ joinTrees symbol lefts rights ↔
      ∃ left ∈ lefts, ∃ right ∈ rights, tree = .binary symbol left right := by
  simp [joinTrees, eq_comm]

theorem length_joinTrees :
    (joinTrees symbol lefts rights).length = lefts.length * rights.length := by
  simp [joinTrees, List.length_flatMap]

theorem joinTrees_eq_nil_iff :
    joinTrees symbol lefts rights = [] ↔ lefts = [] ∨ rights = [] := by
  rw [← List.length_eq_zero_iff, length_joinTrees, Nat.mul_eq_zero,
    List.length_eq_zero_iff, List.length_eq_zero_iff]

/-- The first joined tree joins the first trees. -/
theorem head?_joinTrees :
    (joinTrees symbol lefts rights).head? =
      lefts.head?.bind fun left => rights.head?.map (.binary symbol left) := by
  cases lefts with
  | nil => rfl
  | cons left moreLefts =>
      cases rights with
      | nil => simp [joinTrees]
      | cons right moreRights => rfl

end ParseTree

/-- What holds of every single character, and of every other word once it holds of both parts at
each place where the word can be cut, holds of every word. -/
@[elab_as_elim] theorem Word.partsInduction {motive : Word → Prop}
    (single : ∀ character, motive [character])
    (parts : ∀ word : Word, word.length ≠ 1 →
      (∀ position ∈ List.range (word.length - 1),
        motive (word.take (position + 1)) ∧ motive (word.drop (position + 1))) →
      motive word)
    (word : Word) : motive word := by
  induction size : word.length using Nat.strongRecOn generalizing word with
  | ind length inductionHypothesis =>
      subst size
      by_cases one : word.length = 1
      · obtain ⟨character, rfl⟩ := List.length_eq_one_iff.mp one
        exact single character
      · refine parts word one fun position inside => ?_
        rw [List.mem_range] at inside
        constructor
        · exact inductionHypothesis _ (by rw [List.length_take]; omega) _ rfl
        · exact inductionHypothesis _ (by rw [List.length_drop]; omega) _ rfl

namespace Grammar

open ParseTree (joinTrees)

/-- The trees of a symbol over a word, the preferred ones first. -/
def trees (grammar : Grammar) (symbol : String) (word : Word) : List ParseTree :=
  match word with
  | [character] =>
      List.replicate ((grammar.terminals symbol).count character)
        (.unary symbol (.terminal character))
  | word =>
      (List.range (word.length - 1)).attach.flatMap fun position =>
        (grammar.pairs symbol).flatMap fun names =>
          joinTrees symbol
            (grammar.trees (String.singleton names.1) (word.take (position.1 + 1)))
            (grammar.trees (String.singleton names.2) (word.drop (position.1 + 1)))
termination_by word.length
decreasing_by
  all_goals
    have inside := List.mem_range.mp position.2
    simp only [List.length_take, List.length_drop]
    omega

/-- The trees of a symbol over a word that is cut into two parts. -/
def cutTrees (grammar : Grammar) (symbol : String) (left right : Word) : List ParseTree :=
  (grammar.pairs symbol).flatMap fun names =>
    joinTrees symbol (grammar.trees (String.singleton names.1) left)
      (grammar.trees (String.singleton names.2) right)

variable (grammar : Grammar) (symbol : String)

theorem trees_singleton (character : Char) :
    grammar.trees symbol [character] =
      List.replicate ((grammar.terminals symbol).count character)
        (.unary symbol (.terminal character)) := by
  rw [trees]

/-- A word that is not one character is cut at every place inside it. -/
theorem trees_of_length_ne_one {word : Word} (notOne : word.length ≠ 1) :
    grammar.trees symbol word =
      (List.range (word.length - 1)).flatMap fun position =>
        grammar.cutTrees symbol (word.take (position + 1)) (word.drop (position + 1)) := by
  rw [trees.eq_def]
  split
  · next character => exact absurd rfl notOne
  · simp [cutTrees]

@[simp] theorem trees_nil : grammar.trees symbol [] = [] := by
  rw [trees_of_length_ne_one _ _ (by simp)]
  rfl

variable {grammar symbol}

theorem mem_cutTrees_iff {left right : Word} {tree : ParseTree} :
    tree ∈ grammar.cutTrees symbol left right ↔
      ∃ first second, .pair first second ∈ grammar.alternatives symbol ∧
        ∃ leftTree ∈ grammar.trees (String.singleton first) left,
          ∃ rightTree ∈ grammar.trees (String.singleton second) right,
            tree = .binary symbol leftTree rightTree := by
  simp only [cutTrees, List.mem_flatMap, mem_pairs_iff, ParseTree.mem_joinTrees_iff, Prod.exists]

/-- Listed trees are valid and spell the word. -/
theorem valid_of_mem_trees {word : Word} {tree : ParseTree}
    (member : tree ∈ grammar.trees symbol word) :
    tree.ValidFor grammar symbol ∧ tree.leaves = word := by
  induction word using Word.partsInduction generalizing symbol tree with
  | single character =>
      rw [trees_singleton, List.mem_replicate, Nat.ne_zero_iff_zero_lt,
        List.count_pos_iff, mem_terminals_iff] at member
      obtain ⟨alternative, rfl⟩ := member
      exact ⟨.unary alternative, rfl⟩
  | parts word notOne inductionHypothesis =>
      rw [trees_of_length_ne_one _ _ notOne, List.mem_flatMap] at member
      obtain ⟨position, inside, cutMember⟩ := member
      obtain ⟨leftHypothesis, rightHypothesis⟩ := inductionHypothesis position inside
      obtain ⟨first, second, alternative, left, leftMember, right, rightMember, rfl⟩ :=
        mem_cutTrees_iff.mp cutMember
      obtain ⟨leftValid, leftLeaves⟩ := leftHypothesis leftMember
      obtain ⟨rightValid, rightLeaves⟩ := rightHypothesis rightMember
      refine ⟨.binary alternative leftValid rightValid, ?_⟩
      rw [ParseTree.leaves, leftLeaves, rightLeaves, List.take_append_drop]

/-- A tree with two subtrees is listed at the cut between their leaves. -/
theorem mem_trees_of_cut {left right : Word} (leftNonempty : left ≠ [])
    (rightNonempty : right ≠ []) {tree : ParseTree}
    (member : tree ∈ grammar.cutTrees symbol left right) :
    tree ∈ grammar.trees symbol (left ++ right) := by
  have leftPositive := List.length_pos_iff.mpr leftNonempty
  have rightPositive := List.length_pos_iff.mpr rightNonempty
  have position : left.length - 1 + 1 = left.length := by omega
  rw [trees_of_length_ne_one _ _ (by rw [List.length_append]; omega), List.mem_flatMap]
  refine ⟨left.length - 1, ?_, ?_⟩
  · rw [List.mem_range, List.length_append]
    omega
  · rwa [position, List.take_left, List.drop_left]

/-- Every valid tree is listed for the word that it spells. -/
theorem mem_trees_of_valid {tree : ParseTree} (valid : tree.ValidFor grammar symbol) :
    tree ∈ grammar.trees symbol tree.leaves := by
  induction valid with
  | unary alternative =>
      rw [ParseTree.leaves, ParseTree.leaves, trees_singleton, List.mem_replicate,
        Nat.ne_zero_iff_zero_lt, List.count_pos_iff, mem_terminals_iff]
      exact ⟨alternative, rfl⟩
  | binary alternative _ _ leftHypothesis rightHypothesis =>
      refine mem_trees_of_cut (ParseTree.leaves_ne_nil _) (ParseTree.leaves_ne_nil _) ?_
      exact mem_cutTrees_iff.mpr
        ⟨_, _, alternative, _, leftHypothesis, _, rightHypothesis, rfl⟩

/-- The listed trees are the valid ones over the word. -/
theorem mem_trees_iff {word : Word} {tree : ParseTree} :
    tree ∈ grammar.trees symbol word ↔
      tree.ValidFor grammar symbol ∧ tree.leaves = word := by
  refine ⟨valid_of_mem_trees, ?_⟩
  rintro ⟨valid, rfl⟩
  exact mem_trees_of_valid valid

/-- A word has a tree exactly when it is derivable. -/
theorem trees_ne_nil_iff {word : Word} :
    grammar.trees symbol word ≠ [] ↔ grammar.Derives symbol word := by
  rw [derives_iff_exists_tree]
  constructor
  · intro listed
    obtain ⟨tree, member⟩ := List.exists_mem_of_ne_nil _ listed
    exact ⟨tree, mem_trees_iff.mp member⟩
  · rintro ⟨tree, valid⟩
    exact List.ne_nil_of_mem (mem_trees_iff.mpr valid)

end Grammar

end Chomsky
