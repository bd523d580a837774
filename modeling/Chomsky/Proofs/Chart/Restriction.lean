import Chomsky.Proofs.Chart.Recognition
import Chomsky.Proofs.Sampling.Agreement

/-!
# What a chart and a sampler leave aside

Some alternatives occur in no derivation: texts that are not in normal form, and pairs
with a symbol that is not defined. A chart of a grammar without them is the very same
chart, slot for slot (`build_keep`), because the cells that a pair is looked up in hold
defined symbols only. Sampling never gets to the texts either, but a pair with an
undefined symbol may be picked, and then it is the fault that sampling ends with.
-/

namespace Chomsky

/-- Tables are filled alike when two ways to compute a value agree on all tables of
shorter spans that come up. -/
theorem SpanTable.fill_congr {α : Type} [Inhabited α] {size : Nat}
    {value other : (Nat → Nat → α) → Nat → Nat → α}
    (same : ∀ (shorter : Nat → Nat → α) (start width : Nat),
      (∀ otherStart otherWidth, otherWidth < width →
        shorter otherStart otherWidth = (fill size value).entry otherStart otherWidth) →
      value shorter start width = other shorter start width) :
    fill size value = fill size other := by
  have layers : ∀ width ≤ size, upTo size value width = upTo size other width := by
    intro width within
    induction width with
    | zero => rfl
    | succ width inductionHypothesis =>
        rw [upTo, upTo, ← inductionHypothesis (by omega)]
        congr 3
        funext start
        apply same
        intro otherStart otherWidth narrower
        have inside : otherWidth ≤ size := by omega
        rw [fill, entry_upTo_of_le (Nat.le_of_lt_succ narrower), entry_upTo_of_le inside]
  exact layers size (Nat.le_refl size)

namespace Chart

open Grammar (Spares)

variable {grammar : Grammar} {kept : Alternative → Bool} {word : Word}

/-- Only defined symbols have slots in the cells of a chart. -/
theorem mem_symbols_of_mem_cell {start width : Nat} {symbol : String}
    (member : symbol ∈ ((build grammar word).cell start width).symbols) :
    symbol ∈ grammar.symbols := by
  by_cases within : start + width ≤ word.length
  · rw [← Cell.isSome_slot?_iff, isSome_slot?_cell_iff within] at member
    exact member.mem_symbols
  · rw [cell_of_outside grammar word (Nat.lt_of_not_le within)] at member
    exact absurd member List.not_mem_nil

/-- A symbol that is not defined has no slot among defined ones. -/
theorem slot?_eq_none_of_undefined {cell : Cell} {symbol : String}
    (defined : ∀ symbol ∈ cell.symbols, symbol ∈ grammar.symbols)
    (undefined : symbol ∉ grammar.symbols) : cell.slot? symbol = none := by
  rw [← Option.not_isSome_iff_eq_none, Cell.isSome_slot?_iff]
  exact fun member => undefined (defined symbol member)

/-- Pairs with a symbol that is not defined find nothing between cells of defined
symbols. -/
theorem joinFindings_keep (spares : grammar.Spares kept) {left right : Cell}
    (leftDefined : ∀ symbol ∈ left.symbols, symbol ∈ grammar.symbols)
    (rightDefined : ∀ symbol ∈ right.symbols, symbol ∈ grammar.symbols) (leftWidth : Nat) :
    Cell.joinFindings (grammar.keep kept).pairProductions leftWidth left right =
      Cell.joinFindings grammar.pairProductions leftWidth left right := by
  simp only [Cell.joinFindings, Grammar.pairProductions, Grammar.keep, List.flatMap_map,
    List.filterMap_flatMap]
  apply List.flatMap_congr
  intro rule _
  rw [Rule.pairProductions, Rule.pairProductions, Rule.keep, List.filterMap_filterMap,
    List.filterMap_filterMap, List.filterMap_filter]
  apply List.filterMap_congr
  intro alternative _
  cases alternative with
  | terminal character => exact ite_self none
  | unsupported text => exact ite_self none
  | pair first second =>
      cases keeps : kept (.pair first second) with
      | true => rfl
      | false =>
          rcases spares.undefined_of_dropped keeps with leftOut | rightOut
          · simp [Alternative.pair?, slot?_eq_none_of_undefined leftDefined leftOut]
          · simp [Alternative.pair?, slot?_eq_none_of_undefined rightDefined rightOut]

/-- What is found for a span does not change, as long as nothing but defined symbols
was found for the shorter ones. -/
theorem cutFindings_keep (spares : grammar.Spares kept) {shorter : Nat → Nat → Cell}
    {start width : Nat}
    (defined : ∀ otherStart otherWidth, otherWidth < width →
      ∀ symbol ∈ (shorter otherStart otherWidth).symbols, symbol ∈ grammar.symbols) :
    cutFindings (grammar.keep kept).pairProductions shorter start width =
      cutFindings grammar.pairProductions shorter start width := by
  rw [cutFindings, cutFindings]
  apply List.flatMap_congr
  intro position inside
  rw [List.mem_range] at inside
  exact joinFindings_keep spares (defined start (position + 1) (by omega))
    (defined (start + (position + 1)) (width - (position + 1)) (by omega)) (position + 1)

/-- The chart does not change when a grammar loses alternatives that occur in no
derivation. -/
theorem build_keep (spares : grammar.Spares kept) (word : Word) :
    build (grammar.keep kept) word = build grammar word := by
  let value := spanCell grammar.terminalProductions grammar.pairProductions word.toArray
  let keptValue :=
    spanCell grammar.terminalProductions (grammar.keep kept).pairProductions word.toArray
  have filled : SpanTable.fill word.toArray.size value =
      SpanTable.fill word.toArray.size keptValue := by
    apply SpanTable.fill_congr
    intro shorter start width same
    have defined : ∀ otherStart otherWidth, otherWidth < width →
        ∀ symbol ∈ (shorter otherStart otherWidth).symbols, symbol ∈ grammar.symbols := by
      intro otherStart otherWidth narrower symbol member
      rw [same otherStart otherWidth narrower] at member
      exact @mem_symbols_of_mem_cell grammar word otherStart otherWidth symbol member
    simp only [value, keptValue, spanCell, cutFindings_keep spares defined]
  simp only [build, spares.terminalProductions_keep]
  exact congrArg (Chart.mk word.toArray.size) filled.symm

end Chart

namespace Grammar

/-- Texts that are not in normal form make no difference to anything: the chart of
every word is the same without them, and so are the word or the error that sampling
ends with and the supply that it leaves, also when heights are found in place. Nor do
pairs with an undefined symbol make a difference to a chart. -/
theorem unusable_alternatives_are_ignored (grammar : Grammar) :
    (∀ word, Chart.build (grammar.keep Alternative.isNormal) word = Chart.build grammar word) ∧
    (∀ symbol path supply, (grammar.keep Alternative.isNormal).sampleFrom symbol path supply =
      grammar.sampleFrom symbol path supply) ∧
    (∀ levels symbol supply,
      expand (grammar.keep Alternative.isNormal) (grammar.keep Alternative.isNormal).sweptHeights
          levels symbol supply =
        expand grammar grammar.sweptHeights levels symbol supply) ∧
    ∀ word, Chart.build (grammar.keep grammar.isUsable) word = Chart.build grammar word :=
  ⟨Chart.build_keep grammar.spares_isNormal,
    grammar.normalEquivalent_keep_isNormal.sampleFrom,
    grammar.normalEquivalent_keep_isNormal.expand_sweptHeights,
    Chart.build_keep fun _ usable => usable⟩

end Grammar

end Chomsky
