import Chomsky.Chart.Cell
import Chomsky.Chart.SpanTable
import Chomsky.Derivation.Tree

/-!
# Charts

A chart records every derivation of every part of a word. The cell of a span is
computed from the cells of the two halves of each cut, the leftmost cut first.
The tree that a chart gives for a symbol takes the first derivation everywhere.
-/

namespace Chomsky

/-- The cells of all spans of a word. -/
structure Chart where
  /-- The number of characters of the word. -/
  size : Nat
  /-- The cells by start and width. -/
  table : SpanTable Cell

namespace Chart

/-- What is found for a span wider than one character, cut by cut, given the
cells of shorter spans. -/
def cutFindings (productions : List PairProduction) (shorter : Nat → Nat → Cell)
    (start width : Nat) : List Finding :=
  (List.range (width - 1)).flatMap fun position =>
    let leftWidth := position + 1
    Cell.joinFindings productions leftWidth (shorter start leftWidth)
      (shorter (start + leftWidth) (width - leftWidth))

/-- The cell of a span, given the cells of shorter ones. -/
def spanCell (terminals : List TerminalProduction) (pairs : List PairProduction)
    (word : Array Char) (shorter : Nat → Nat → Cell) (start width : Nat) : Cell :=
  if width = 1 then
    match word[start]? with
    | some character => Cell.ofFindings (Cell.leafFindings terminals character)
    | none => []
  else
    Cell.ofFindings (cutFindings pairs shorter start width)

/-- Only the cells of shorter spans matter to what is found for a span. -/
theorem cutFindings_congr {productions : List PairProduction}
    {first second : Nat → Nat → Cell} {start width : Nat}
    (same : ∀ {otherStart otherWidth : Nat}, otherWidth < width →
      first otherStart otherWidth = second otherStart otherWidth) :
    cutFindings productions first start width =
      cutFindings productions second start width := by
  unfold cutFindings
  rw [List.flatMap_def, List.flatMap_def]
  refine congrArg List.flatten (List.map_congr_left fun position member => ?_)
  have leftShorter : position + 1 < width := by
    have bound := List.mem_range.mp member
    omega
  have rightShorter : width - (position + 1) < width := by omega
  simp only [same leftShorter, same rightShorter]

/-- Only the cells of shorter spans matter to the cell of a span. -/
theorem spanCell_congr {terminals : List TerminalProduction}
    {pairs : List PairProduction} {word : Array Char}
    {first second : Nat → Nat → Cell} {start width : Nat}
    (same : ∀ {otherStart otherWidth : Nat}, otherWidth < width →
      first otherStart otherWidth = second otherStart otherWidth) :
    spanCell terminals pairs word first start width =
      spanCell terminals pairs word second start width := by
  simp only [spanCell, cutFindings_congr same]

/-- The chart of a word. -/
def build (grammar : Grammar) (word : Word) : Chart :=
  let characters := word.toArray
  let value :=
    spanCell grammar.terminalProductions grammar.pairProductions characters
  { size := characters.size, table := .fill characters.size value }

/-- Whether the word has no characters. -/
def isEmpty (chart : Chart) : Bool :=
  chart.size = 0

/-- The cell of a span. -/
def cell (chart : Chart) (start width : Nat) : Cell :=
  chart.table.entry start width

@[simp] theorem size_build (grammar : Grammar) (word : Word) :
    (build grammar word).size = word.length := by
  simp [build]

/-- Every cell of a chart satisfies the equation that it is computed by. -/
theorem cell_build (grammar : Grammar) (word : Word) {start width : Nat}
    (positive : 0 < width) (within : start + width ≤ word.length) :
    (build grammar word).cell start width =
      spanCell grammar.terminalProductions grammar.pairProductions word.toArray
        (build grammar word).cell start width :=
  @SpanTable.entry_fill Cell _ word.toArray.size
    (spanCell grammar.terminalProductions grammar.pairProductions word.toArray)
    spanCell_congr start width positive (by simpa using within)

/-- A span without characters has an empty cell. -/
@[simp] theorem cell_zero (grammar : Grammar) (word : Word) (start : Nat) :
    (build grammar word).cell start 0 = [] :=
  SpanTable.entry_upTo_zero start _

/-- The symbols that derive the characters from the first position to the last
one, both included; none when those are no positions of the word in order. -/
def symbolsAt (chart : Chart) (first last : Nat) : List String :=
  if first ≤ last ∧ last < chart.size then
    (chart.cell first (last - first + 1)).symbols
  else
    []

/-- The position of a symbol's slot in the cell of the whole word. -/
def root? (chart : Chart) (symbol : String) : Option Nat :=
  (chart.cell 0 chart.size).slot? symbol

/-- Whether a symbol derives the whole word. -/
def derives (chart : Chart) (symbol : String) : Bool :=
  (chart.root? symbol).isSome

/-- The tree of the first derivations from a slot down. A tree over a span has
at most as many levels of symbols as the span has characters. -/
def treeFrom (chart : Chart) : (levels start width slot : Nat) → Option ParseTree
  | 0, _, _, _ => none
  | levels + 1, start, width, position => do
      let slot ← (chart.cell start width)[position]?
      match ← slot.derivations.head? with
      | .terminal character => return .unary slot.symbol (.terminal character)
      | .split leftWidth leftSlot rightSlot =>
          let left ← chart.treeFrom levels start leftWidth leftSlot
          let right ← chart.treeFrom levels (start + leftWidth) (width - leftWidth) rightSlot
          return .binary slot.symbol left right

/-- The tree of the first derivations of the whole word from a symbol. -/
def tree? (chart : Chart) (symbol : String) : Option ParseTree := do
  let slot ← chart.root? symbol
  chart.treeFrom chart.size 0 chart.size slot

end Chart

/-- The preferred parse tree of a word, from the grammar's start symbol. -/
def parse? (grammar : Grammar) (word : Word) : Option ParseTree :=
  (Chart.build grammar word).tree? grammar.start

end Chomsky
