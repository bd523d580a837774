import Mathlib.Order.Interval.Finset.Nat
import Mathlib.Data.Nat.Find
import Chomsky.Derivation.Tree
import Chomsky.Proofs.Grammar.Productions

/-!
# Least heights of trees

The least height of a symbol is that of its lowest tree. It is found among its
alternatives (`leastHeight_iff`): an alternative offers one more than the larger
of the least heights below it, and the symbol takes the lowest offer. Least
heights leave no gap below them, so none is greater than the number of rules.
-/

namespace Chomsky

namespace Grammar

/-- A symbol has a tree of this height and none that is lower. -/
structure LeastHeight (grammar : Grammar) (symbol : String) (height : Nat) : Prop where
  attained : ∃ tree : ParseTree, tree.ValidFor grammar symbol ∧ tree.height = height
  least : ∀ tree : ParseTree, tree.ValidFor grammar symbol → height ≤ tree.height

/-- The lowest trees that start with an alternative have this height. -/
inductive Offers (grammar : Grammar) : Alternative → Nat → Prop where
  | terminal (character : Char) : Offers grammar (.terminal character) 1
  | pair {left right : Char} {leftHeight rightHeight : Nat}
      (leftLeast : grammar.LeastHeight (String.singleton left) leftHeight)
      (rightLeast : grammar.LeastHeight (String.singleton right) rightHeight) :
      Offers grammar (.pair left right) (max leftHeight rightHeight + 1)

variable {grammar : Grammar} {symbol : String} {alternative : Alternative} {height : Nat}

theorem LeastHeight.unique {other : Nat} (least : grammar.LeastHeight symbol height)
    (otherLeast : grammar.LeastHeight symbol other) : height = other := by
  obtain ⟨tree, valid, rfl⟩ := least.attained
  obtain ⟨otherTree, otherValid, rfl⟩ := otherLeast.attained
  exact Nat.le_antisymm (least.least _ otherValid) (otherLeast.least _ valid)

/-- A symbol with a tree has a least height. -/
theorem exists_leastHeight {tree : ParseTree} (valid : tree.ValidFor grammar symbol) :
    ∃ height ≤ tree.height, grammar.LeastHeight symbol height := by
  classical
  have inhabited :
      ∃ height, ∃ tree : ParseTree, tree.ValidFor grammar symbol ∧ tree.height = height :=
    ⟨_, tree, valid, rfl⟩
  exact ⟨Nat.find inhabited, Nat.find_min' inhabited ⟨tree, valid, rfl⟩, Nat.find_spec inhabited,
    fun other otherValid => Nat.find_min' inhabited ⟨other, otherValid, rfl⟩⟩

/-- What an alternative offers is the height of a tree of its symbol. -/
theorem Offers.exists_tree (offer : grammar.Offers alternative height)
    (member : alternative ∈ grammar.alternatives symbol) :
    ∃ tree : ParseTree, tree.ValidFor grammar symbol ∧ tree.height = height := by
  cases offer with
  | terminal character => exact ⟨_, .unary member, rfl⟩
  | pair leftLeast rightLeast =>
      obtain ⟨left, leftValid, rfl⟩ := leftLeast.attained
      obtain ⟨right, rightValid, rfl⟩ := rightLeast.attained
      exact ⟨_, .binary member leftValid rightValid, rfl⟩

/-- The alternative at the root of a tree offers no more than the tree's height. -/
theorem exists_offer_of_valid {tree : ParseTree} (valid : tree.ValidFor grammar symbol) :
    ∃ alternative ∈ grammar.alternatives symbol, ∃ height ≤ tree.height,
      grammar.Offers alternative height := by
  cases valid with
  | unary alternative => exact ⟨_, alternative, 1, Nat.le_refl 1, .terminal _⟩
  | binary alternative leftValid rightValid =>
      obtain ⟨leftHeight, leftLower, leftLeast⟩ := exists_leastHeight leftValid
      obtain ⟨rightHeight, rightLower, rightLeast⟩ := exists_leastHeight rightValid
      refine ⟨_, alternative, _, ?_, .pair leftLeast rightLeast⟩
      rw [ParseTree.height]
      omega

/-- The least height of a symbol is the least that its alternatives offer. -/
theorem leastHeight_iff :
    grammar.LeastHeight symbol height ↔
      (∃ alternative ∈ grammar.alternatives symbol, grammar.Offers alternative height) ∧
        ∀ alternative ∈ grammar.alternatives symbol, ∀ offered,
          grammar.Offers alternative offered → height ≤ offered := by
  constructor
  · intro least
    have lowest : ∀ alternative ∈ grammar.alternatives symbol, ∀ offered,
        grammar.Offers alternative offered → height ≤ offered := by
      intro alternative member offered offer
      obtain ⟨tree, valid, rfl⟩ := offer.exists_tree member
      exact least.least tree valid
    obtain ⟨tree, valid, rfl⟩ := least.attained
    obtain ⟨alternative, member, offered, lower, offer⟩ := exists_offer_of_valid valid
    have same := Nat.le_antisymm (lowest alternative member offered offer) lower
    exact ⟨⟨alternative, member, same ▸ offer⟩, lowest⟩
  · rintro ⟨⟨alternative, member, offer⟩, lowest⟩
    refine ⟨offer.exists_tree member, fun tree valid => ?_⟩
    obtain ⟨other, otherMember, offered, lower, otherOffer⟩ := exists_offer_of_valid valid
    exact Nat.le_trans (lowest other otherMember offered otherOffer) lower

/-- There is a rule on the way to every terminal. -/
theorem LeastHeight.pos (least : grammar.LeastHeight symbol height) : 0 < height := by
  obtain ⟨⟨alternative, _, offer⟩, _⟩ := leastHeight_iff.mp least
  cases offer with
  | terminal character => exact Nat.one_pos
  | pair leftLeast rightLeast => exact Nat.succ_pos _

/-- Only defined symbols have a least height. -/
theorem LeastHeight.mem_symbols (least : grammar.LeastHeight symbol height) :
    symbol ∈ grammar.symbols := by
  obtain ⟨⟨alternative, member, _⟩, _⟩ := leastHeight_iff.mp least
  exact mem_symbols_of_mem_alternatives member

/-- Below a least height there are all smaller ones: one of the two symbols of the
lowest pair is just one level lower. -/
theorem LeastHeight.exists_of_le {lower : Nat} (least : grammar.LeastHeight symbol height)
    (positive : 0 < lower) (below : lower ≤ height) :
    ∃ other, grammar.LeastHeight other lower := by
  induction height generalizing symbol with
  | zero => omega
  | succ height inductionHypothesis =>
      by_cases same : lower = height + 1
      · exact ⟨symbol, same ▸ least⟩
      obtain ⟨⟨alternative, _, offer⟩, _⟩ := leastHeight_iff.mp least
      cases offer with
      | terminal character => omega
      | @pair left right leftHeight rightHeight leftLeast rightLeast =>
          rcases Nat.le_total leftHeight rightHeight with rightLarger | leftLarger
          · rw [Nat.max_eq_right rightLarger] at inductionHypothesis
            exact inductionHypothesis rightLeast (by omega)
          · rw [Nat.max_eq_left leftLarger] at inductionHypothesis
            exact inductionHypothesis leftLeast (by omega)

/-- No least height is greater than the number of rules, because every level from
one up is the least height of a symbol of its own. -/
theorem LeastHeight.le_length (least : grammar.LeastHeight symbol height) :
    height ≤ grammar.rules.length := by
  have levels : ∀ lower ∈ Finset.Icc 1 height, ∃ other, grammar.LeastHeight other lower := by
    intro lower inside
    rw [Finset.mem_Icc] at inside
    exact least.exists_of_le inside.1 inside.2
  choose! level isLevel using levels
  have defined : ∀ lower ∈ Finset.Icc 1 height, level lower ∈ grammar.symbols.toFinset :=
    fun lower inside => List.mem_toFinset.mpr (isLevel lower inside).mem_symbols
  have injective : Set.InjOn level (Finset.Icc 1 height) := by
    intro lower inside other otherInside same
    have otherLevel := isLevel other otherInside
    rw [← same] at otherLevel
    exact (isLevel lower inside).unique otherLevel
  calc
    height = (Finset.Icc 1 height).card := by simp
    _ ≤ grammar.symbols.toFinset.card := Finset.card_le_card_of_injOn level defined injective
    _ ≤ grammar.symbols.length := grammar.symbols.toFinset_card_le
    _ = grammar.rules.length := by rw [symbols, List.length_map]

end Grammar

end Chomsky
