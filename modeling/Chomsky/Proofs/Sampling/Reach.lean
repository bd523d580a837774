import Mathlib.Logic.Function.Iterate
import Chomsky.Proofs.Chart.Recognition
import Chomsky.Proofs.Grammar.Agreement
import Chomsky.Proofs.Sampling.Runs

/-!
# Words for every shallow tree

Above the soft depth every alternative in normal form is a candidate, and every candidate is
picked by some word (`Supply.exists_word_choose`), because the first word of the range of a
pick is never refused. The picks that lead along a tree are therefore made by some list of
words, as long as no node of the tree is as deep as the soft depth
(`ParseTree.ValidFor.exists_words`).
-/

namespace Chomsky

/-- The least word whose product with the number of candidates is in the range of a pick. -/
def firstWord (count position : Nat) : UInt32 :=
  UInt32.ofNat ((position * wordCount + (count - 1)) / count)

section Picks

variable {count position : Nat}

/-- The first word of a range is a word. -/
theorem toNat_firstWord (few : count < wordCount) (inside : position < count) :
    (firstWord count position).toNat = (position * wordCount + (count - 1)) / count := by
  rw [firstWord, UInt32.toNat_ofNat']
  apply Nat.mod_eq_of_lt
  rw [Nat.div_lt_iff_lt_mul (Nat.zero_lt_of_lt inside)]
  calc
    position * wordCount + (count - 1) < position * wordCount + wordCount := by omega
    _ = (position + 1) * wordCount := (Nat.succ_mul position wordCount).symm
    _ ≤ count * wordCount := Nat.mul_le_mul_right wordCount inside
    _ = 2 ^ 32 * count := Nat.mul_comm count wordCount

/-- Its product is less than `count` places into the range. -/
theorem exists_firstWord_mul (few : count < wordCount) (inside : position < count) :
    ∃ place < count, (firstWord count position).toNat * count = position * wordCount + place := by
  have division := Nat.div_add_mod (position * wordCount + (count - 1)) count
  have remainder := Nat.mod_lt (position * wordCount + (count - 1)) (Nat.zero_lt_of_lt inside)
  rw [toNat_firstWord few inside, Nat.mul_comm]
  exact ⟨count - 1 - (position * wordCount + (count - 1)) % count, by omega, by omega⟩

/-- Places at the start of a range are accepted. -/
theorem le_lastAccepted {place : Nat} (near : place < count) : place ≤ lastAccepted count := by
  have widened : count ≤ count <<< (31 - Nat.log2 count) := by
    rw [Nat.shiftLeft_eq]
    exact Nat.le_mul_of_pos_right count (Nat.two_pow_pos _)
  rw [lastAccepted]
  omega

/-- The first word of a range gives the pick of that range. -/
theorem accepts_firstWord (few : count < wordCount) (inside : position < count) :
    accepts count (firstWord count position) = true ∧
      pickOf count (firstWord count position) = position := by
  obtain ⟨place, near, product⟩ := exists_firstWord_mul few inside
  have small : place < wordCount := Nat.lt_trans near few
  constructor
  · rw [accepts, product, Nat.mul_add_mod_of_lt small]
    exact decide_eq_true (le_lastAccepted near)
  · rw [pickOf, product]
    exact Nat.div_eq_of_lt_le (Nat.le_add_right _ _) (by rw [Nat.succ_mul]; omega)

end Picks

namespace Supply

/-- What is left when so many words have been drawn. -/
def skip (supply : Supply) (count : Nat) : Supply :=
  { supply with drawn := supply.drawn + count }

theorem skip_skip (supply : Supply) (first second : Nat) :
    (supply.skip first).skip second = supply.skip (first + second) := by
  simp only [skip, Nat.add_assoc]

/-- The next words of a supply are the given ones. -/
def NextAre (supply : Supply) (words : List UInt32) : Prop :=
  ∀ position word, words[position]? = some word →
    supply.source.word (supply.drawn + position) = word

variable {supply : Supply} {first second : List UInt32}

theorem NextAre.left (next : supply.NextAre (first ++ second)) : supply.NextAre first := by
  intro position word here
  refine next position word ?_
  rwa [List.getElem?_append_left (List.getElem?_eq_some_iff.mp here).1]

theorem NextAre.right (next : supply.NextAre (first ++ second)) :
    (supply.skip first.length).NextAre second := by
  intro position word here
  have further := next (first.length + position) word
  rw [List.getElem?_append_right (Nat.le_add_right _ _), Nat.add_sub_cancel_left] at further
  simpa [skip, Nat.add_assoc] using further here

theorem NextAre.append (next : supply.NextAre first)
    (further : (supply.skip first.length).NextAre second) : supply.NextAre (first ++ second) := by
  intro position word here
  by_cases inFirst : position < first.length
  · rw [List.getElem?_append_left inFirst] at here
    exact next position word here
  · rw [List.getElem?_append_right (Nat.le_of_not_lt inFirst)] at here
    have behind := further (position - first.length) word here
    rwa [skip, Nat.add_assoc, Nat.add_sub_cancel' (Nat.le_of_not_lt inFirst)] at behind

/-- Every candidate is chosen with some word, if a word is looked at at all. -/
theorem exists_word_choose {α : Type} {candidates : List α} {element : α}
    (few : candidates.length < wordCount) (member : element ∈ candidates) :
    ∃ word, ∀ supply : Supply, supply.NextAre [word] → 0 < supply.source.patience →
      supply.choose candidates = (some element, supply.skip 1) := by
  obtain ⟨position, here⟩ := List.mem_iff_getElem?.mp member
  have inside := (List.getElem?_eq_some_iff.mp here).1
  obtain ⟨accepted, picked⟩ := accepts_firstWord few inside
  refine ⟨firstWord candidates.length position, fun supply next patient => ?_⟩
  have word : supply.next = firstWord candidates.length position := next 0 _ rfl
  obtain ⟨patience, patient⟩ := Nat.exists_eq_succ_of_ne_zero (Nat.ne_of_gt patient)
  have pickEq : supply.pick candidates.length = (some position, supply.skip 1) := by
    rw [pick, patient, pickWithin, word, if_pos accepted, picked]
    rfl
  simp only [choose, pickEq, here]

end Supply

/-- Above the soft depth the candidates are the alternatives in normal form. -/
theorem candidates_of_lt_softDepth {depth : Nat} (shallow : depth < softDepth)
    (heights : Heights) (alternatives : List Alternative) :
    candidates heights depth alternatives = alternatives.filter Alternative.isNormal := by
  simp only [candidates, if_neg (Nat.not_le_of_lt shallow)]

namespace ParseTree

variable {grammar : Grammar} {symbol : String}

/-- A node above the soft depth is expanded by any of its alternatives in normal form, on some
next word. -/
theorem exists_word_choose_alternative (heights : Heights) {depth : Nat}
    {alternative : Alternative}
    (few : ∀ rule ∈ grammar.rules,
      (rule.alternatives.filter Alternative.isNormal).length < wordCount)
    (member : alternative ∈ grammar.alternatives symbol) (normal : alternative.isNormal = true)
    (shallow : depth < softDepth) :
    ∃ alternatives word, grammar.alternatives? symbol = some alternatives ∧
      ∀ supply : Supply, supply.NextAre [word] → 0 < supply.source.patience →
        supply.choose (candidates heights depth alternatives) =
          (some alternative, supply.skip 1) := by
  obtain ⟨rule, ruleMember, rfl, inside⟩ := Grammar.mem_alternatives_iff.mp member
  obtain ⟨word, chosen⟩ := Supply.exists_word_choose (few rule ruleMember)
    (List.mem_filter.mpr ⟨inside, normal⟩)
  refine ⟨rule.alternatives, word, Grammar.mem_rules_iff.mp ruleMember, ?_⟩
  rwa [candidates_of_lt_softDepth shallow]

/-- Some words lead an expansion along a tree whose nodes all stand above the soft depth. -/
theorem ValidFor.exists_words {tree : ParseTree} (valid : tree.ValidFor grammar symbol)
    (heights : Heights) (levels : Nat)
    (few : ∀ rule ∈ grammar.rules,
      (rule.alternatives.filter Alternative.isNormal).length < wordCount)
    (shallow : maxDepth + 1 + tree.height ≤ softDepth + levels) :
    ∃ words : List UInt32, ∀ supply : Supply, supply.NextAre words →
      0 < supply.source.patience →
        Expands grammar heights levels symbol supply tree (supply.skip words.length) := by
  have depths : 0 < softDepth ∧ softDepth ≤ maxDepth := by decide
  induction valid generalizing levels with
  | unary alternative =>
      simp only [height] at shallow
      obtain ⟨levels, rfl⟩ : ∃ fewer, levels = fewer + 1 := ⟨levels - 1, by omega⟩
      obtain ⟨alternatives, word, rule, chosen⟩ :=
        exists_word_choose_alternative heights few alternative rfl
          (show maxDepth - levels < softDepth by omega)
      exact ⟨[word], fun supply next patient => .terminal rule (chosen supply next patient)⟩
  | @binary symbol first second left right alternative _ _ leftHypothesis rightHypothesis =>
      simp only [height] at shallow
      obtain ⟨levels, rfl⟩ : ∃ fewer, levels = fewer + 1 := ⟨levels - 1, by omega⟩
      obtain ⟨alternatives, word, rule, chosen⟩ :=
        exists_word_choose_alternative heights few alternative rfl
          (show maxDepth - levels < softDepth by omega)
      obtain ⟨leftWords, leftRun⟩ := leftHypothesis levels (by omega)
      obtain ⟨rightWords, rightRun⟩ := rightHypothesis levels (by omega)
      refine ⟨[word] ++ (leftWords ++ rightWords), fun supply next patient => ?_⟩
      have run := Expands.pair rule (chosen supply next.left patient)
        (leftRun _ next.right.left patient) (rightRun _ next.right.right patient)
      simpa only [Supply.skip_skip, List.length_append, List.length_singleton, Nat.add_assoc]
        using run

end ParseTree

namespace Grammar

/-- A list of words makes the first words of the source that lists it. -/
theorem nextAre_listed (words : Array UInt32) :
    (Supply.fresh (.listed words)).NextAre words.toList := by
  intro position word here
  rw [Array.getElem?_toList] at here
  simp [Supply.fresh, WordSource.listed, Array.getD_eq_getD_getElem?, here]

/-- Every tree that is no higher than the soft depth is sampled: there are words on which
sampling gives the leaves of the tree. It draws all of them and no others, so what a source has
behind them does not matter. -/
theorem shallow_trees_are_sampled {grammar : Grammar} {symbol : String} {tree : ParseTree}
    (few : ∀ rule ∈ grammar.rules,
      (rule.alternatives.filter Alternative.isNormal).length < wordCount)
    (valid : tree.ValidFor grammar symbol) (shallow : tree.height ≤ softDepth) (path : String) :
    ∃ words : Array UInt32,
      grammar.sampleFrom symbol path (.fresh (.listed words)) =
        (.ok tree.leaves, ⟨.listed words, words.size⟩) ∧
      ∀ source : WordSource, (Supply.fresh source).NextAre words.toList → 0 < source.patience →
        grammar.sampleFrom symbol path (.fresh source) =
          (.ok tree.leaves, ⟨source, words.size⟩) := by
  obtain ⟨words, run⟩ := valid.exists_words grammar.leastHeights (maxDepth + 1) few (by omega)
  have sampled : ∀ source : WordSource, (Supply.fresh source).NextAre words →
      0 < source.patience → grammar.sampleFrom symbol path (.fresh source) =
        (.ok tree.leaves, ⟨source, words.length⟩) := by
    intro source next patient
    refine sampleFrom_eq_ok_iff.mpr ⟨tree, ?_, rfl⟩
    simpa [Supply.skip, Supply.fresh] using run (.fresh source) next patient
  refine ⟨words.toArray, sampled _ (nextAre_listed words.toArray) ?_, sampled⟩
  exact Nat.lt_of_lt_of_le (by decide : 0 < 1 <<< 32) (Nat.le_add_left _ _)

/-- The bracketing of twelve letters that leans to the right is as high as the soft depth. -/
theorem shallow_trees_are_sampled_of_bracketings :
    let leaf := ParseTree.unary "S" (.terminal 'a')
    ((ParseTree.binary "S" leaf)^[11] leaf).height = softDepth ∧
      ∃ words : Array UInt32,
        bracketings.sampleFrom "S" "g.cnf" (.fresh (.listed words)) =
          (.ok (List.replicate 12 'a'), ⟨.listed words, words.size⟩) := by
  intro leaf
  have start : String.singleton 'S' = "S" := rfl
  have leafValid : leaf.ValidFor bracketings "S" := .unary (by decide)
  have valid (count : Nat) :
      ((ParseTree.binary "S" leaf)^[count] leaf).ValidFor bracketings "S" := by
    induction count with
    | zero => exact leafValid
    | succ count inductionHypothesis =>
        rw [Function.iterate_succ_apply']
        rw [← start] at leafValid inductionHypothesis
        exact .binary (by decide) leafValid inductionHypothesis
  have height : ((ParseTree.binary "S" leaf)^[11] leaf).height = softDepth := by decide
  have few : ∀ rule ∈ bracketings.rules,
      (rule.alternatives.filter Alternative.isNormal).length < wordCount := by decide
  obtain ⟨words, sampled, -⟩ :=
    shallow_trees_are_sampled few (valid 11) (Nat.le_of_eq height) "g.cnf"
  exact ⟨height, words, sampled⟩

end Grammar

end Chomsky
