import Chomsky.Proofs.Chart.Contents

/-!
# Unfolding the pointers of a chart

A slot stands for the trees of its symbol over the span, and each of its ways
for those among them that it leads to. `trees_eq_flatMap_ways` says that the ways
share out the trees in order; following the first way everywhere therefore leads
to the first tree, which is `tree?_eq_head?`.
-/

namespace Chomsky

namespace Chart

open ParseTree (joinTrees)

variable (grammar : Grammar) (word : Word)

/-- The trees that a slot stands for. -/
def slotTrees (start width position : Nat) : List ParseTree :=
  match ((build grammar word).cell start width)[position]? with
  | some slot => grammar.trees slot.symbol (word.span start width)
  | none => []

/-- The trees that one way to derive a span stands for. -/
def wayTrees (symbol : String) (start width : Nat) : Derivation → List ParseTree
  | .terminal character => [.unary symbol (.terminal character)]
  | .split leftWidth leftSlot rightSlot =>
      joinTrees symbol (slotTrees grammar word start leftWidth leftSlot)
        (slotTrees grammar word (start + leftWidth) (width - leftWidth) rightSlot)

variable {grammar word} {start width position : Nat} {symbol : String}

theorem slotTrees_of_slot?
    (found : ((build grammar word).cell start width).slot? symbol = some position) :
    slotTrees grammar word start width position =
      grammar.trees symbol (word.span start width) := by
  obtain ⟨slot, here, rfl⟩ := Cell.exists_slot_of_slot? found
  rw [slotTrees, here]

/-- A slot that is there stands for at least one tree. -/
theorem slotTrees_ne_nil_of_slot? (within : start + width ≤ word.length)
    (found : ((build grammar word).cell start width).slot? symbol = some position) :
    slotTrees grammar word start width position ≠ [] := by
  rw [slotTrees_of_slot? found, Ne, ← slot?_cell_eq_none_iff within, found]
  simp

/-- A way over one character is that character; any other way is a cut inside
the span and points to slots that are there. -/
theorem ways_cell_cases {way : Derivation} (within : start + width ≤ word.length)
    (member : way ∈ ((build grammar word).cell start width).ways symbol) :
    (∃ character, way = .terminal character) ∨
      ∃ leftWidth leftSlot rightSlot leftSymbol rightSymbol,
        way = .split leftWidth leftSlot rightSlot ∧ 0 < leftWidth ∧ leftWidth < width ∧
        ((build grammar word).cell start leftWidth).slot? leftSymbol = some leftSlot ∧
        ((build grammar word).cell (start + leftWidth) (width - leftWidth)).slot? rightSymbol =
          some rightSlot := by
  rcases Nat.lt_trichotomy width 1 with narrow | rfl | wide
  · obtain rfl : width = 0 := by omega
    simp [Cell.ways] at member
  · rw [ways_cell_one grammar word (List.getElem?_eq_getElem within)] at member
    exact .inl ⟨_, List.eq_of_mem_replicate member⟩
  · rw [ways_cell_of_one_lt grammar word wide within, List.mem_flatMap] at member
    obtain ⟨position, inside, member⟩ := member
    obtain ⟨names, _, selection⟩ := List.mem_filterMap.mp member
    obtain ⟨leftSlot, rightSlot, leftFound, rightFound, rfl⟩ :=
      Cell.splitWay?_eq_some_iff.mp selection
    rw [List.mem_range] at inside
    exact .inr ⟨_, _, _, _, _, rfl, by omega, by omega, leftFound, rightFound⟩

theorem wayTrees_ne_nil {way : Derivation} (within : start + width ≤ word.length)
    (member : way ∈ ((build grammar word).cell start width).ways symbol) :
    wayTrees grammar word symbol start width way ≠ [] := by
  obtain ⟨character, rfl⟩ | ⟨leftWidth, _, _, _, _, rfl, positive, inside, left, right⟩ :=
    ways_cell_cases within member
  · exact List.cons_ne_nil _ _
  · rw [wayTrees, Ne, ParseTree.joinTrees_eq_nil_iff, not_or]
    exact ⟨slotTrees_ne_nil_of_slot? (by omega) left,
      slotTrees_ne_nil_of_slot? (by omega) right⟩

/-- The trees of a symbol over a span are those of its ways, one way after the
other. -/
theorem trees_eq_flatMap_ways (within : start + width ≤ word.length) :
    grammar.trees symbol (word.span start width) =
      (((build grammar word).cell start width).ways symbol).flatMap
        (wayTrees grammar word symbol start width) := by
  have length := Word.length_span within
  rcases Nat.lt_trichotomy width 1 with narrow | rfl | wide
  · obtain rfl : width = 0 := by omega
    simp [Cell.ways, Word.span]
  · have here := List.getElem?_eq_getElem (Nat.lt_of_succ_le within)
    rw [Word.span_one here, Grammar.trees_singleton, ways_cell_one grammar word here,
      List.flatMap_replicate]
    exact List.flatten_replicate_singleton.symm
  · rw [ways_cell_of_one_lt grammar word wide within, List.flatMap_assoc,
      Grammar.trees_of_length_ne_one _ _ (by omega), length]
    refine List.flatMap_congr fun position inside => ?_
    rw [List.mem_range] at inside
    have leftWithin : start + (position + 1) ≤ word.length := by omega
    have rightWithin : start + (position + 1) + (width - (position + 1)) ≤ word.length := by
      omega
    rw [Word.take_span (by omega), Word.drop_span]
    refine (flatMap_filterMap_of_forall ?_ ?_).symm
    · intro names _ passedOver
      rwa [ParseTree.joinTrees_eq_nil_iff, ← slot?_cell_eq_none_iff leftWithin,
        ← slot?_cell_eq_none_iff rightWithin, ← Cell.splitWay?_eq_none_iff]
    · intro names _ way selection
      obtain ⟨leftSlot, rightSlot, leftFound, rightFound, rfl⟩ :=
        Cell.splitWay?_eq_some_iff.mp selection
      rw [wayTrees, slotTrees_of_slot? leftFound, slotTrees_of_slot? rightFound]

/-- The trees of a slot are those of its derivations. -/
theorem slotTrees_of_getElem? {slot : Slot} (within : start + width ≤ word.length)
    (here : ((build grammar word).cell start width)[position]? = some slot) :
    slotTrees grammar word start width position =
      slot.derivations.flatMap (wayTrees grammar word slot.symbol start width) := by
  rw [slotTrees, here, ← (wellFormed_cell grammar word within).ways_of_getElem? here]
  exact trees_eq_flatMap_ways within

/-- Every way stands for a tree, so the first tree of a slot is the first one of
its first way. -/
theorem head?_slotTrees {slot : Slot} (within : start + width ≤ word.length)
    (here : ((build grammar word).cell start width)[position]? = some slot) :
    (slotTrees grammar word start width position).head? =
      slot.derivations.head?.bind fun way =>
        (wayTrees grammar word slot.symbol start width way).head? := by
  have waysEq := (wellFormed_cell grammar word within).ways_of_getElem? here
  rw [slotTrees_of_getElem? within here]
  cases derivations : slot.derivations with
  | nil => rfl
  | cons way rest =>
      have nonempty : wayTrees grammar word slot.symbol start width way ≠ [] := by
        apply wayTrees_ne_nil within
        rw [waysEq, derivations]
        exact List.mem_cons_self
      rw [List.flatMap_cons, List.head?_append_of_ne_nil _ nonempty, List.head?_cons,
        Option.bind_some]

/-- Following first derivations leads to the first tree of a slot. -/
theorem treeFrom_eq_head? {levels : Nat} (enough : width ≤ levels)
    (within : start + width ≤ word.length) :
    (build grammar word).treeFrom levels start width position =
      (slotTrees grammar word start width position).head? := by
  induction levels generalizing start width position with
  | zero =>
      obtain rfl : width = 0 := by omega
      simp [treeFrom, slotTrees]
  | succ levels inductionHypothesis =>
      cases here : ((build grammar word).cell start width)[position]? with
      | none => simp [treeFrom, slotTrees, here]
      | some slot =>
          rw [head?_slotTrees within here, treeFrom, here, Option.bind_eq_bind, Option.bind_some]
          cases first : slot.derivations.head? with
          | none => rfl
          | some way =>
              have member : way ∈ ((build grammar word).cell start width).ways slot.symbol := by
                rw [(wellFormed_cell grammar word within).ways_of_getElem? here]
                exact List.mem_of_head? first
              obtain ⟨character, rfl⟩ | ⟨leftWidth, _, _, _, _, rfl, positive, inside, _, _⟩ :=
                ways_cell_cases within member
              · rfl
              · simp only [Option.bind_eq_bind, Option.bind_some, wayTrees,
                  ParseTree.head?_joinTrees]
                rw [inductionHypothesis (by omega) (by omega),
                  inductionHypothesis (by omega) (by omega)]
                simp only [Option.map_eq_bind]
                rfl

/-- The tree that a chart gives is the first one. -/
theorem tree?_eq_head? (grammar : Grammar) (word : Word) (symbol : String) :
    (build grammar word).tree? symbol = (grammar.trees symbol word).head? := by
  rw [tree?, root?, size_build]
  cases found : ((build grammar word).cell 0 word.length).slot? symbol with
  | none =>
      rw [slot?_cell_eq_none_iff (by omega), Word.span_zero_length] at found
      simp [found]
  | some position =>
      have trees := slotTrees_of_slot? found
      rw [Word.span_zero_length] at trees
      simp [treeFrom_eq_head?, trees]

end Chart

end Chomsky
