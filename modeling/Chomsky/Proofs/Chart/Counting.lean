import Chomsky.Chart.Count
import Chomsky.Proofs.Chart.Recognition
import Chomsky.Proofs.Derivation.Weight

/-!
# Counting is exact up to the cap

The table of counts holds, for every slot, the capped number of the trees that
the slot stands for. Capping at every step does no harm, because each capped sum
and product is the cap of the exact one.
-/

namespace Chomsky

namespace Chart

/-- Capping each partial sum is capping the sum. -/
theorem foldl_capped {ways : List Derivation} {count : Derivation → Nat}
    {trees : Derivation → List ParseTree}
    (same : ∀ way ∈ ways, count way = capped (trees way).length) (total : Nat) :
    ways.foldl (fun sum way => capped (sum + count way)) (capped total) =
      capped (total + (ways.flatMap trees).length) := by
  induction ways generalizing total with
  | nil => rfl
  | cons way rest inductionHypothesis =>
      rw [List.forall_mem_cons] at same
      rw [List.foldl_cons, same.1, capped_add, inductionHypothesis same.2, List.flatMap_cons,
        List.length_append, Nat.add_assoc]

variable {grammar : Grammar} {word : Word} {start width position : Nat} {symbol : String}

/-- Only the counts of shorter spans matter to the count of a slot. -/
theorem slotCount_congr {first second : Nat → Nat → List Nat} {slot : Slot}
    (member : slot ∈ (build grammar word).cell start width)
    (same : ∀ {otherStart otherWidth : Nat}, otherWidth < width →
      first otherStart otherWidth = second otherStart otherWidth) :
    slotCount first start width slot = slotCount second start width slot := by
  have within : start + width ≤ word.length := by
    by_contra outside
    rw [cell_of_outside grammar word (Nat.lt_of_not_le outside)] at member
    exact List.not_mem_nil member
  obtain ⟨position, here⟩ := List.mem_iff_getElem?.mp member
  have waysEq := (wellFormed_cell grammar word within).ways_of_getElem? here
  refine List.foldl_ext _ _ _ fun total way wayMember => ?_
  rw [← waysEq] at wayMember
  obtain ⟨character, rfl⟩ | ⟨leftWidth, _, _, _, _, rfl, positive, inside, _, _⟩ :=
    ways_cell_cases within wayMember
  · rfl
  · have rightShorter : width - leftWidth < width := by omega
    rw [derivationCount, derivationCount, same inside, same rightShorter]

/-- The table of counts satisfies the equation that it is computed by. -/
theorem counts_entry (positive : 0 < width) (within : start + width ≤ word.length) :
    (build grammar word).counts.entry start width =
      ((build grammar word).cell start width).map
        (slotCount (build grammar word).counts.entry start width) := by
  refine SpanTable.entry_fill ?_ positive (by simpa using within)
  intro first second start width same
  exact List.map_congr_left fun slot member => slotCount_congr member same

/-- Right counts of narrower slots make a right count of a slot. -/
theorem slotCount_eq_capped_length {shorter : Nat → Nat → List Nat} {slot : Slot}
    (within : start + width ≤ word.length)
    (here : ((build grammar word).cell start width)[position]? = some slot)
    (counted : ∀ {otherStart otherWidth otherPosition : Nat}, otherWidth < width →
      otherStart + otherWidth ≤ word.length →
      (shorter otherStart otherWidth).getD otherPosition 0 =
        capped (slotTrees grammar word otherStart otherWidth otherPosition).length) :
    slotCount shorter start width slot =
      capped (slotTrees grammar word start width position).length := by
  have waysEq := (wellFormed_cell grammar word within).ways_of_getElem? here
  have waysCounted : ∀ way ∈ slot.derivations, derivationCount shorter start width way =
      capped (wayTrees grammar word slot.symbol start width way).length := by
    intro way member
    rw [← waysEq] at member
    obtain ⟨character, rfl⟩ | ⟨leftWidth, _, _, _, _, rfl, positive, inside, _, _⟩ :=
      ways_cell_cases within member
    · simp [derivationCount, wayTrees, capped, countCap]
    · have rightShorter : width - leftWidth < width := by omega
      rw [derivationCount, wayTrees, ParseTree.length_joinTrees, counted inside (by omega),
        counted rightShorter (by omega), capped_mul]
  have folded := foldl_capped waysCounted 0
  rwa [Nat.zero_add, ← slotTrees_of_getElem? within here] at folded

/-- The count of a slot is the capped number of its trees. -/
theorem getD_counts_entry (within : start + width ≤ word.length) :
    ((build grammar word).counts.entry start width).getD position 0 =
      capped (slotTrees grammar word start width position).length := by
  induction width using Nat.strongRecOn generalizing start position with
  | ind width inductionHypothesis =>
      rcases Nat.eq_zero_or_pos width with rfl | positive
      · have noCounts : (build grammar word).counts.entry start 0 = [] :=
          SpanTable.entry_upTo_zero start _
        simp [noCounts, slotTrees, capped]
      · rw [counts_entry positive within, List.getD_eq_getElem?_getD, List.getElem?_map]
        cases here : ((build grammar word).cell start width)[position]? with
        | none => simp [slotTrees, here, capped]
        | some slot =>
            exact slotCount_eq_capped_length within here fun shorter otherWithin =>
              inductionHypothesis _ shorter otherWithin

/-- A symbol is counted with the capped number of its listed trees. -/
theorem count_eq_capped_length (grammar : Grammar) (word : Word) (symbol : String) :
    (build grammar word).count symbol = capped (grammar.trees symbol word).length := by
  rw [count, root?, size_build]
  cases found : ((build grammar word).cell 0 word.length).slot? symbol with
  | none =>
      rw [slot?_cell_eq_none_iff (by omega), Word.span_zero_length] at found
      simp [found, capped]
  | some position =>
      have trees := slotTrees_of_slot? found
      rw [Word.span_zero_length] at trees
      simp only [getD_counts_entry (Nat.le_of_eq (Nat.zero_add _)), trees]

/-- The count of a symbol is the sum of the weights of all its trees over the
word, clamped once at the end. The sum is the number of trees where no rule
repeats an alternative in normal form, and nothing where nothing is derived. -/
theorem count_eq_clamped_sum (grammar : Grammar) (word : Word) (symbol : String) :
    ∃ trees : Finset ParseTree,
      (∀ tree, tree ∈ trees ↔ tree.ValidFor grammar symbol ∧ tree.leaves = word) ∧
      (build grammar word).count symbol =
        min (2 ^ 128 - 1) (∑ tree ∈ trees, tree.weight grammar) ∧
      ((∀ defined alternative, alternative.isNormal →
          (grammar.alternatives defined).count alternative ≤ 1) →
        ∑ tree ∈ trees, tree.weight grammar = trees.card) ∧
      (word = [] ∨ symbol ∉ grammar.symbols ∨ ¬ grammar.Derives symbol word →
        ∑ tree ∈ trees, tree.weight grammar = 0) := by
  have listed : ∀ tree, tree ∈ (grammar.trees symbol word).toFinset ↔
      tree.ValidFor grammar symbol ∧ tree.leaves = word := by
    intro tree
    rw [List.mem_toFinset, Grammar.mem_trees_iff]
  refine ⟨(grammar.trees symbol word).toFinset, listed, ?exact, ?unrepeated, ?underivable⟩
  case exact =>
    rw [count_eq_capped_length, Grammar.sum_weight_trees]
    rfl
  case unrepeated =>
    intro unrepeated
    rw [Finset.card_eq_sum_ones]
    refine Finset.sum_congr rfl fun tree member => ?_
    exact ((listed tree).mp member).1.weight_eq_one unrepeated
  case underivable =>
    intro cause
    have underivable : ¬ grammar.Derives symbol word := by
      intro derivation
      obtain empty | undefined | impossible := cause
      · exact derivation.word_ne_nil empty
      · exact undefined derivation.mem_symbols
      · exact impossible derivation
    rw [← Grammar.trees_ne_nil_iff, not_not] at underivable
    rw [underivable, List.toFinset_nil, Finset.sum_empty]

/-- The two bracketings of `aaa` are counted, and no tree over no characters. -/
theorem count_eq_clamped_sum_of_bracketings :
    (∀ defined alternative, alternative.isNormal →
      (Grammar.bracketings.alternatives defined).count alternative ≤ 1) ∧
    (∃ trees : Finset ParseTree,
      (∀ tree, tree ∈ trees ↔ tree.ValidFor .bracketings "S" ∧ tree.leaves = ['a', 'a', 'a']) ∧
      (build .bracketings ['a', 'a', 'a']).count "S" = min (2 ^ 128 - 1) trees.card ∧
      (build .bracketings ['a', 'a', 'a']).count "S" = 2) ∧
    ∃ trees : Finset ParseTree,
      (∀ tree, tree ∈ trees ↔ tree.ValidFor .bracketings "S" ∧ tree.leaves = []) ∧
      ∑ tree ∈ trees, tree.weight .bracketings = 0 := by
  have unrepeated : ∀ defined alternative, alternative.isNormal →
      (Grammar.bracketings.alternatives defined).count alternative ≤ 1 := by
    intro defined alternative _
    have nodup : (Grammar.bracketings.alternatives defined).Nodup := by
      by_cases same : "S" = defined
      · subst same
        decide
      · simp [Grammar.alternatives, Grammar.alternatives?, Grammar.bracketings,
          Grammar.ofRules, Grammar.addRule, Grammar.empty, extendRules, same]
    exact List.nodup_iff_count_le_one.mp nodup alternative
  obtain ⟨trees, listed, clamped, unweighted, _⟩ :=
    count_eq_clamped_sum .bracketings ['a', 'a', 'a'] "S"
  obtain ⟨noTrees, noneListed, _, _, zero⟩ := count_eq_clamped_sum .bracketings [] "S"
  refine ⟨unrepeated, ⟨trees, listed, ?_, by decide⟩, noTrees, noneListed, zero (.inl rfl)⟩
  rw [clamped, unweighted unrepeated]

end Chart

end Chomsky
