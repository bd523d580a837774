import Mathlib.Data.List.Nodup
import Chomsky.Proofs.Derivation.Enumeration
import Chomsky.Proofs.Derivation.Nodes

/-!
# The preferred tree

Trees of one symbol over one word are compared by the cut at their roots, then
by the place of the root's pair in the symbol's rule, then by their left and at
last by their right subtrees. The first tree of `Grammar.trees` is the least one
in this order, although the list as a whole need not be sorted: a repeated pair
lists its trees again behind those of later pairs.
-/

namespace Chomsky

/-- The first element comes from an item that stands before every other item
which contributes anything. -/
theorem exists_first_of_head?_flatMap {α β : Type} [BEq α] [LawfulBEq α] {items : List α}
    {part : α → List β} {element : β} (head : (items.flatMap part).head? = some element) :
    ∃ item ∈ items, (part item).head? = some element ∧
      ∀ other ∈ items, part other ≠ [] → items.idxOf item ≤ items.idxOf other := by
  rw [List.head?_flatMap, List.findSome?_eq_some_iff] at head
  obtain ⟨before, item, after, rfl, found, passed⟩ := head
  refine ⟨item, by simp, found, fun other _ contributes => ?_⟩
  have otherBehind : other ∉ before := fun member =>
    contributes (List.head?_eq_none_iff.mp (passed other member))
  have itemBehind : item ∉ before := fun member => by simp [passed item member] at found
  rw [List.idxOf_append_of_notMem otherBehind, List.idxOf_append_of_notMem itemBehind,
    List.idxOf_cons_self]
  exact Nat.le_add_right _ _

/-- A number stands at its own place in a range. -/
theorem idxOf_range {position bound : Nat} (inside : position < bound) :
    (List.range bound).idxOf position = position := by
  have placed := List.nodup_range.idxOf_getElem position (by simpa using inside)
  rwa [List.getElem_range] at placed

namespace ParseTree

/-- The place, among the alternatives of a symbol, of the pair that two subtrees
have for their roots. -/
def pairPosition (grammar : Grammar) (symbol : String) (left right : ParseTree) : Nat :=
  (grammar.alternatives symbol).idxOf (.ofText (left.label ++ right.label))

/-- One tree of a symbol comes before another one over the same word. -/
inductive Precedes (grammar : Grammar) : ParseTree → ParseTree → Prop where
  /-- It is cut further to the left. -/
  | cut {symbol left right otherLeft otherRight}
      (shorter : left.leaves.length < otherLeft.leaves.length) :
      Precedes grammar (.binary symbol left right) (.binary symbol otherLeft otherRight)
  /-- It applies an earlier alternative. -/
  | alternative {symbol left right otherLeft otherRight}
      (sameCut : left.leaves.length = otherLeft.leaves.length)
      (earlier : pairPosition grammar symbol left right <
        pairPosition grammar symbol otherLeft otherRight) :
      Precedes grammar (.binary symbol left right) (.binary symbol otherLeft otherRight)
  /-- Its left subtree comes before the other one's. -/
  | left {symbol left right otherLeft otherRight}
      (sameCut : left.leaves.length = otherLeft.leaves.length)
      (sameAlternative : pairPosition grammar symbol left right =
        pairPosition grammar symbol otherLeft otherRight)
      (precedes : Precedes grammar left otherLeft) :
      Precedes grammar (.binary symbol left right) (.binary symbol otherLeft otherRight)
  /-- Its right subtree does, and the left ones are the same. -/
  | right {symbol left right otherRight}
      (sameAlternative : pairPosition grammar symbol left right =
        pairPosition grammar symbol left otherRight)
      (precedes : Precedes grammar right otherRight) :
      Precedes grammar (.binary symbol left right) (.binary symbol left otherRight)

variable {grammar : Grammar}

theorem Precedes.irrefl (tree : ParseTree) : ¬ tree.Precedes grammar tree := by
  induction tree with
  | terminal character => exact fun precedes => by cases precedes
  | unary symbol child _ => exact fun precedes => by cases precedes
  | binary symbol left right leftHypothesis rightHypothesis =>
      intro precedes
      cases precedes with
      | cut shorter => exact Nat.lt_irrefl _ shorter
      | alternative _ earlier => exact Nat.lt_irrefl _ earlier
      | left _ _ precedes => exact leftHypothesis precedes
      | right _ precedes => exact rightHypothesis precedes

/-- The order is transitive, whatever it is at the root that decides. -/
theorem Precedes.trans {first second third : ParseTree}
    (precedes : first.Precedes grammar second) (further : second.Precedes grammar third) :
    first.Precedes grammar third := by
  induction precedes generalizing third with
  | cut shorter =>
      cases further with
      | cut further => exact .cut (Nat.lt_trans shorter further)
      | alternative sameCut _ => exact .cut (sameCut ▸ shorter)
      | left sameCut _ _ => exact .cut (sameCut ▸ shorter)
      | right _ _ => exact .cut shorter
  | alternative sameCut earlier =>
      cases further with
      | cut further => exact .cut (sameCut ▸ further)
      | alternative nextCut further =>
          exact .alternative (sameCut.trans nextCut) (Nat.lt_trans earlier further)
      | left nextCut sameAlternative _ =>
          exact .alternative (sameCut.trans nextCut) (sameAlternative ▸ earlier)
      | right sameAlternative _ => exact .alternative sameCut (sameAlternative ▸ earlier)
  | left sameCut sameAlternative precedes inductionHypothesis =>
      cases further with
      | cut further => exact .cut (sameCut ▸ further)
      | alternative nextCut further =>
          exact .alternative (sameCut.trans nextCut) (sameAlternative ▸ further)
      | left nextCut nextAlternative further =>
          exact .left (sameCut.trans nextCut) (sameAlternative.trans nextAlternative)
            (inductionHypothesis further)
      | right nextAlternative _ =>
          exact .left sameCut (sameAlternative.trans nextAlternative) precedes
  | right sameAlternative precedes inductionHypothesis =>
      cases further with
      | cut further => exact .cut further
      | alternative nextCut further => exact .alternative nextCut (sameAlternative ▸ further)
      | left nextCut nextAlternative further =>
          exact .left nextCut (sameAlternative.trans nextAlternative) further
      | right nextAlternative further =>
          exact .right (sameAlternative.trans nextAlternative) (inductionHypothesis further)

theorem Precedes.asymm {first second : ParseTree} (precedes : first.Precedes grammar second) :
    ¬ second.Precedes grammar first :=
  fun converse => Precedes.irrefl first (precedes.trans converse)

end ParseTree

namespace Grammar

open ParseTree (joinTrees pairPosition)

variable {grammar : Grammar} {symbol : String}

/-- The trees over a cut word, alternative by alternative. -/
theorem cutTrees_eq_flatMap_alternatives (left right : Word) :
    grammar.cutTrees symbol left right =
      (grammar.alternatives symbol).flatMap fun alternative =>
        match alternative.pair? with
        | some names =>
            joinTrees symbol (grammar.trees (String.singleton names.1) left)
              (grammar.trees (String.singleton names.2) right)
        | none => [] := by
  refine flatMap_filterMap_of_forall ?_ ?_
  · intro alternative _ unpaired
    simp [unpaired]
  · intro alternative _ names paired
    simp [paired]

/-- The first tree over a cut word joins first trees, and does so by the first
alternative that yields any tree. -/
theorem exists_first_of_head?_cutTrees {left right : Word} {tree : ParseTree}
    (head : (grammar.cutTrees symbol left right).head? = some tree) :
    ∃ first second leftTree rightTree, .pair first second ∈ grammar.alternatives symbol ∧
      (grammar.trees (String.singleton first) left).head? = some leftTree ∧
      (grammar.trees (String.singleton second) right).head? = some rightTree ∧
      tree = .binary symbol leftTree rightTree ∧
      ∀ otherFirst otherSecond, .pair otherFirst otherSecond ∈ grammar.alternatives symbol →
        grammar.trees (String.singleton otherFirst) left ≠ [] →
        grammar.trees (String.singleton otherSecond) right ≠ [] →
        (grammar.alternatives symbol).idxOf (.pair first second) ≤
          (grammar.alternatives symbol).idxOf (.pair otherFirst otherSecond) := by
  rw [cutTrees_eq_flatMap_alternatives] at head
  obtain ⟨alternative, member, found, least⟩ := exists_first_of_head?_flatMap head
  cases alternative with
  | terminal character => simp [Alternative.pair?] at found
  | unsupported text => simp [Alternative.pair?] at found
  | pair first second =>
      simp only [Alternative.pair?, ParseTree.head?_joinTrees, Option.bind_eq_some_iff,
        Option.map_eq_some_iff] at found
      obtain ⟨leftTree, leftHead, rightTree, rightHead, rfl⟩ := found
      refine ⟨first, second, leftTree, rightTree, member, leftHead, rightHead, rfl, ?_⟩
      intro otherFirst otherSecond otherMember leftTrees rightTrees
      refine least _ otherMember ?_
      simp only [Alternative.pair?, ne_eq, ParseTree.joinTrees_eq_nil_iff, not_or]
      exact ⟨leftTrees, rightTrees⟩

theorem mem_of_head?_trees {word : Word} {tree : ParseTree}
    (head : (grammar.trees symbol word).head? = some tree) :
    tree.ValidFor grammar symbol ∧ tree.leaves = word :=
  mem_trees_iff.mp (List.mem_of_head? head)

/-- Where a cut yields trees, the first tree is cut there or further to the left. -/
theorem head?_cutTrees_or_shorter {left right : Word} {tree : ParseTree}
    (leftNonempty : left ≠ []) (rightNonempty : right ≠ [])
    (yields : grammar.cutTrees symbol left right ≠ [])
    (head : (grammar.trees symbol (left ++ right)).head? = some tree) :
    (grammar.cutTrees symbol left right).head? = some tree ∨
      ∃ leftTree rightTree, tree = .binary symbol leftTree rightTree ∧
        leftTree.leaves.length < left.length := by
  have leftPositive := List.length_pos_iff.mpr leftNonempty
  have rightPositive := List.length_pos_iff.mpr rightNonempty
  have length : (left ++ right).length = left.length + right.length := List.length_append
  have cutPosition : left.length - 1 + 1 = left.length := by omega
  have cutInside : left.length - 1 < (left ++ right).length - 1 := by omega
  rw [trees_of_length_ne_one _ _ (by omega)] at head
  obtain ⟨position, inside, found, first⟩ := exists_first_of_head?_flatMap head
  rw [List.mem_range] at inside
  have ordered := first _ (List.mem_range.mpr cutInside)
    (by rwa [cutPosition, List.take_left, List.drop_left])
  rw [idxOf_range inside, idxOf_range cutInside] at ordered
  rcases Nat.lt_or_eq_of_le ordered with shorter | rfl
  · obtain ⟨_, _, leftTree, rightTree, _, leftHead, _, rfl, _⟩ :=
      exists_first_of_head?_cutTrees found
    refine .inr ⟨leftTree, rightTree, rfl, ?_⟩
    rw [(mem_of_head?_trees leftHead).2, List.length_take]
    omega
  · rw [cutPosition, List.take_left, List.drop_left] at found
    exact .inl found

/-- At one cut the first tree comes before every other one, provided that the
first trees of both parts do. -/
theorem least_of_head?_cutTrees {first second : Char} {left right tree : ParseTree}
    (member : .pair first second ∈ grammar.alternatives symbol)
    (leftValid : left.ValidFor grammar (String.singleton first))
    (rightValid : right.ValidFor grammar (String.singleton second))
    (leftLeast : ∀ {preferred},
      (grammar.trees (String.singleton first) left.leaves).head? = some preferred →
        preferred = left ∨ preferred.Precedes grammar left)
    (rightLeast : ∀ {preferred},
      (grammar.trees (String.singleton second) right.leaves).head? = some preferred →
        preferred = right ∨ preferred.Precedes grammar right)
    (head : (grammar.cutTrees symbol left.leaves right.leaves).head? = some tree) :
    tree = .binary symbol left right ∨ tree.Precedes grammar (.binary symbol left right) := by
  obtain ⟨ownFirst, ownSecond, ownLeft, ownRight, ownMember, leftHead, rightHead, rfl, least⟩ :=
    exists_first_of_head?_cutTrees head
  obtain ⟨ownLeftValid, ownLeftLeaves⟩ := mem_of_head?_trees leftHead
  obtain ⟨ownRightValid, _⟩ := mem_of_head?_trees rightHead
  have sameCut : ownLeft.leaves.length = left.leaves.length := congrArg _ ownLeftLeaves
  have ordered := least first second member
    (List.ne_nil_of_mem (mem_trees_of_valid leftValid))
    (List.ne_nil_of_mem (mem_trees_of_valid rightValid))
  have ownPlace : pairPosition grammar symbol ownLeft ownRight =
      (grammar.alternatives symbol).idxOf (.pair ownFirst ownSecond) := by
    rw [pairPosition, ParseTree.ofText_labels ownLeftValid ownRightValid]
  have place : pairPosition grammar symbol left right =
      (grammar.alternatives symbol).idxOf (.pair first second) := by
    rw [pairPosition, ParseTree.ofText_labels leftValid rightValid]
  rcases Nat.lt_or_eq_of_le ordered with earlier | samePlace
  · exact .inr (.alternative sameCut (by omega))
  have sameAlternative := ownPlace.trans (samePlace.trans place.symm)
  have samePair := (List.idxOf_inj ownMember).mp samePlace
  injection samePair with sameFirst sameSecond
  subst sameFirst sameSecond
  rcases leftLeast leftHead with rfl | precedes
  · rcases rightLeast rightHead with rfl | precedes
    · exact .inl rfl
    · exact .inr (.right sameAlternative precedes)
  · exact .inr (.left sameCut sameAlternative precedes)

/-- The first tree comes before every other tree over the word. -/
theorem least_of_head?_trees {word : Word} {tree other : ParseTree}
    (head : (grammar.trees symbol word).head? = some tree)
    (valid : other.ValidFor grammar symbol) (spells : other.leaves = word) :
    tree = other ∨ tree.Precedes grammar other := by
  subst spells
  induction valid generalizing tree with
  | unary alternative =>
      rw [ParseTree.leaves, ParseTree.leaves, trees_singleton] at head
      exact .inl (List.eq_of_mem_replicate (List.mem_of_head? head))
  | @binary symbol first second left right member leftValid rightValid leftHypothesis
      rightHypothesis =>
      have yields : grammar.cutTrees symbol left.leaves right.leaves ≠ [] :=
        List.ne_nil_of_mem (mem_cutTrees_iff.mpr ⟨first, second, member, left,
          mem_trees_of_valid leftValid, right, mem_trees_of_valid rightValid, rfl⟩)
      obtain cutHead | ⟨leftTree, rightTree, rfl, shorter⟩ :=
        head?_cutTrees_or_shorter left.leaves_ne_nil right.leaves_ne_nil yields head
      · exact least_of_head?_cutTrees member leftValid rightValid leftHypothesis
          rightHypothesis cutHead
      · exact .inr (.cut shorter)

/-- The first tree is the one valid tree over the word that comes before all
others. -/
theorem head?_trees_eq_some_iff {word : Word} {tree : ParseTree} :
    (grammar.trees symbol word).head? = some tree ↔
      tree.ValidFor grammar symbol ∧ tree.leaves = word ∧
        ∀ other, other.ValidFor grammar symbol → other.leaves = word →
          tree = other ∨ tree.Precedes grammar other := by
  constructor
  · intro head
    obtain ⟨valid, spells⟩ := mem_of_head?_trees head
    exact ⟨valid, spells, fun other => least_of_head?_trees head⟩
  · rintro ⟨valid, spells, least⟩
    have member := mem_trees_iff.mpr ⟨valid, spells⟩
    obtain ⟨preferred, head⟩ : ∃ preferred,
        (grammar.trees symbol word).head? = some preferred :=
      ⟨_, List.head?_eq_some_head (List.ne_nil_of_mem member)⟩
    obtain ⟨preferredValid, preferredSpells⟩ := mem_of_head?_trees head
    rcases least preferred preferredValid preferredSpells with rfl | precedes
    · exact head
    rcases least_of_head?_trees head valid spells with rfl | converse
    · exact head
    exact absurd converse precedes.asymm

end Grammar

end Chomsky
