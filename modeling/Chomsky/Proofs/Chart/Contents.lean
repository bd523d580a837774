import Chomsky.Chart.Basic
import Chomsky.Proofs.Chart.Cell
import Chomsky.Proofs.Derivation.Enumeration

/-!
# What the cells of a chart hold

The ways of a symbol in a cell are given by its alternatives and by the slots of
shorter cells (`ways_cell_one`, `ways_cell_of_one_lt`). Unfolding these pointers
yields the trees of the symbol over the span, in their order
(`trees_eq_flatMap_ways`), so whatever a chart is asked for can be read off
`Grammar.trees`.
-/

namespace Chomsky

/-- The characters of a span of a word. -/
def Word.span (word : Word) (start width : Nat) : Word :=
  (word.drop start).take width

namespace Word

variable {word : Word} {start width leftWidth : Nat}

theorem length_span (within : start + width ≤ word.length) :
    (word.span start width).length = width := by
  simp only [span, List.length_take, List.length_drop]
  omega

@[simp] theorem span_zero_length : word.span 0 word.length = word := by
  simp [span]

theorem take_span (inside : leftWidth ≤ width) :
    (word.span start width).take leftWidth = word.span start leftWidth := by
  rw [span, List.take_take, Nat.min_eq_left inside, span]

theorem drop_span :
    (word.span start width).drop leftWidth =
      word.span (start + leftWidth) (width - leftWidth) := by
  rw [span, List.drop_take, List.drop_drop, span]

theorem span_one {character : Char} (here : word[start]? = some character) :
    word.span start 1 = [character] := by
  obtain ⟨inside, rfl⟩ := List.getElem?_eq_some_iff.mp here
  rw [span, List.drop_eq_getElem_cons inside, List.take_succ_cons, List.take_zero]

end Word

/-- A table has no value of its own for a span that ends behind the input. -/
theorem SpanTable.entry_fill_of_outside {α : Type} [Inhabited α] {size : Nat}
    {value : (Nat → Nat → α) → Nat → Nat → α} {start width : Nat}
    (outside : size < start + width) : (fill size value).entry start width = default := by
  by_cases wide : size < width
  · have behind : (upTo size value size).layers.size ≤ width := by
      rw [size_layers_upTo]
      omega
    simp [fill, entry, Array.getD_eq_getD_getElem?, behind]
  · rw [fill, entry_upTo_of_le (Nat.le_of_not_lt wide)]
    cases width with
    | zero => exact entry_upTo_zero start 0
    | succ narrower =>
        have last : narrower + 1 = (upTo size value narrower).layers.size := by
          rw [size_layers_upTo]
        have behind : ¬ start < size - narrower := by omega
        simp [entry, upTo, Array.getD_eq_getD_getElem?, last, behind]

namespace Cell

variable {leftWidth : Nat} {left right : Cell} {names : Char × Char}

theorem splitWay?_eq_none_iff :
    splitWay? leftWidth left right names = none ↔
      left.slot? (String.singleton names.1) = none ∨
        right.slot? (String.singleton names.2) = none := by
  unfold splitWay?
  cases left.slot? (String.singleton names.1) <;>
    cases right.slot? (String.singleton names.2) <;> simp

theorem splitWay?_eq_some_iff {way : Derivation} :
    splitWay? leftWidth left right names = some way ↔
      ∃ leftSlot rightSlot, left.slot? (String.singleton names.1) = some leftSlot ∧
        right.slot? (String.singleton names.2) = some rightSlot ∧
        way = .split leftWidth leftSlot rightSlot := by
  unfold splitWay?
  cases left.slot? (String.singleton names.1) <;>
    cases right.slot? (String.singleton names.2) <;> simp [eq_comm]

/-- Findings of several cuts are those of each cut in turn. -/
theorem derivationsOf_flatMap {Cut : Type} (cuts : List Cut) (findings : Cut → List Finding)
    (symbol : String) :
    derivationsOf (cuts.flatMap findings) symbol =
      cuts.flatMap fun cut => derivationsOf (findings cut) symbol :=
  List.filterMap_flatMap

end Cell

namespace Chart

variable (grammar : Grammar) (word : Word)

/-- Every cell of a chart is well-formed. -/
theorem wellFormed_cell {start width : Nat} (within : start + width ≤ word.length) :
    ((build grammar word).cell start width).WellFormed := by
  rcases Nat.eq_zero_or_pos width with rfl | positive
  · rw [cell_zero]
    exact Cell.wellFormed_nil
  · rw [cell_build grammar word positive within, spanCell]
    split
    · split
      · exact Cell.wellFormed_ofFindings _
      · exact Cell.wellFormed_nil
    · exact Cell.wellFormed_ofFindings _

/-- A span that ends behind the word has an empty cell. -/
theorem cell_of_outside {start width : Nat} (outside : word.length < start + width) :
    (build grammar word).cell start width = [] :=
  SpanTable.entry_fill_of_outside (by simpa using outside)

/-- Over one character a symbol has one way for each of its alternatives that is
this character. -/
theorem ways_cell_one {start : Nat} {character : Char}
    (here : word[start]? = some character) (symbol : String) :
    ((build grammar word).cell start 1).ways symbol =
      List.replicate ((grammar.terminals symbol).count character) (.terminal character) := by
  obtain ⟨inside, _⟩ := List.getElem?_eq_some_iff.mp here
  rw [cell_build grammar word Nat.one_pos inside, spanCell, if_pos rfl, List.getElem?_toArray,
    here]
  exact (Cell.ways_ofFindings _ _).trans (Cell.derivationsOf_leafFindings _ _ _)

/-- Over several characters a symbol has one way for each cut and each of its
pairs whose names both have slots there. -/
theorem ways_cell_of_one_lt {start width : Nat} (wide : 1 < width)
    (within : start + width ≤ word.length) (symbol : String) :
    ((build grammar word).cell start width).ways symbol =
      (List.range (width - 1)).flatMap fun position =>
        (grammar.pairs symbol).filterMap
          (Cell.splitWay? (position + 1) ((build grammar word).cell start (position + 1))
            ((build grammar word).cell (start + (position + 1)) (width - (position + 1)))) := by
  rw [cell_build grammar word (by omega) within, spanCell, if_neg (by omega),
    Cell.ways_ofFindings, cutFindings, Cell.derivationsOf_flatMap]
  simp only [Cell.derivationsOf_joinFindings]

variable {grammar word} {start width : Nat} {symbol : String}

/-- A symbol has a slot in a cell exactly when it has a tree over the span. -/
theorem slot?_cell_eq_none_iff (within : start + width ≤ word.length) :
    ((build grammar word).cell start width).slot? symbol = none ↔
      grammar.trees symbol (word.span start width) = [] := by
  -- The induction is on widths, for a cell of several characters is made from
  -- narrower ones, at other starts and for other symbols.
  induction width using Nat.strongRecOn generalizing start symbol with
  | ind width inductionHypothesis =>
      rw [(wellFormed_cell grammar word within).slot?_eq_none_iff]
      have length := Word.length_span within
      rcases Nat.lt_trichotomy width 1 with narrow | rfl | wide
      · obtain rfl : width = 0 := by omega
        simp [Cell.ways, Word.span]
      · have here := List.getElem?_eq_getElem (Nat.lt_of_succ_le within)
        simp [ways_cell_one grammar word here, Word.span_one here, Grammar.trees_singleton,
          List.replicate_eq_nil_iff]
      · rw [ways_cell_of_one_lt grammar word wide within,
          Grammar.trees_of_length_ne_one _ _ (by omega), length,
          List.flatMap_eq_nil_iff, List.flatMap_eq_nil_iff]
        refine forall₂_congr fun position inside => ?_
        rw [List.mem_range] at inside
        rw [List.filterMap_eq_nil_iff, Grammar.cutTrees, List.flatMap_eq_nil_iff]
        refine forall₂_congr fun names _ => ?_
        rw [Cell.splitWay?_eq_none_iff, ParseTree.joinTrees_eq_nil_iff,
          Word.take_span (by omega), Word.drop_span,
          inductionHypothesis _ (by omega) (by omega),
          inductionHypothesis _ (by omega) (by omega)]

end Chart

end Chomsky
