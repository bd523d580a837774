import Chomsky.Proofs.Chart.Counting
import Chomsky.Proofs.Chart.Succession

/-!
# The packed forest

All trees of all parts of a word share the slots of one chart. `Chart.PackedForest` says
what this takes: which derivations each slot has and in which order, in which order the
slots themselves stand, and that every derivation leads to slots of narrower cells that
are there. Trees and counts can then be read off without ever looking behind the end of a
table, a cell or a row, and the way down from a slot ends at characters. Every chart that
is built is such a forest (`packedForest_build`).
-/

namespace Chomsky

namespace SpanTable

variable {α : Type} [Inhabited α] {size : Nat} {value : (Nat → Nat → α) → Nat → Nat → α}

/-- A table has a value of its own for a span. -/
def Holds (table : SpanTable α) (start width : Nat) : Prop :=
  ∃ layer, table.layers[width]? = some layer ∧ start < layer.size

/-- A layer that is there holds a value for every span of its width. -/
theorem holds_upTo {start width bound : Nat} (positive : 0 < width) (filled : width ≤ bound)
    (within : start + width ≤ size) : (upTo size value bound).Holds start width := by
  induction bound with
  | zero => omega
  | succ bound inductionHypothesis =>
      have layers : (upTo size value bound).layers.size = bound + 1 := size_layers_upTo bound
      rcases Nat.lt_or_eq_of_le filled with earlier | rfl
      · obtain ⟨layer, here, inside⟩ := inductionHypothesis (Nat.le_of_lt_succ earlier)
        refine ⟨layer, ?_, inside⟩
        rw [upTo, Array.getElem?_push, if_neg (by omega), here]
      · refine ⟨Array.ofFn fun index : Fin (size - bound) =>
          value (upTo size value bound).entry index (bound + 1), ?_, ?_⟩
        · rw [upTo, Array.getElem?_push, layers, if_pos rfl]
        · rw [Array.size_ofFn]
          omega

/-- A finished table holds a value for every span of the input. -/
theorem holds_fill {start width : Nat} (positive : 0 < width) (within : start + width ≤ size) :
    (fill size value).Holds start width :=
  holds_upTo positive (by omega) within

end SpanTable

namespace Chart

/-- The ways in which a symbol derives several characters: cut by cut, and at one cut pair by
pair in the order of the symbol's rule, one way for each pair whose names both have slots. -/
def splits (chart : Chart) (grammar : Grammar) (first last : Nat) (symbol : String) :
    List Derivation :=
  (List.range' first (last - first)).flatMap fun cut =>
    (grammar.pairs symbol).filterMap
      (Cell.splitWay? (cut + 1 - first) (chart.between first cut) (chart.between (cut + 1) last))

/-- A derivation of the characters between two positions is the one character that stands
there, or it leads to slots of two cells that adjoin at a cut. -/
def Leads (chart : Chart) (word : Word) (first last : Nat) : Derivation → Prop
  | .terminal character => first = last ∧ word[first]? = some character
  | .split leftWidth leftSlot rightSlot =>
      ∃ cut, first ≤ cut ∧ cut < last ∧ leftWidth = cut + 1 - first ∧
        leftSlot < (chart.between first cut).length ∧
        rightSlot < (chart.between (cut + 1) last).length

/-- A chart packs the derivations of all parts of a word. -/
structure PackedForest (chart : Chart) (grammar : Grammar) (word : Word) : Prop where
  /-- Nothing stands between positions that are out of order. -/
  outOfOrder : ∀ first last, last < first → chart.between first last = []
  /-- A symbol has one slot in a cell, and a slot has at least one derivation. -/
  wellFormed : ∀ first last, (chart.between first last).WellFormed
  /-- Over one character the slots stand in the order of the rules, each with one derivation
  for each time that its rule has the character. -/
  single : ∀ position character, word[position]? = some character →
    (chart.between position position).symbols =
        grammar.symbols.filter (fun symbol => .terminal character ∈ grammar.alternatives symbol) ∧
      ∀ symbol, (chart.between position position).ways symbol =
        List.replicate ((grammar.alternatives symbol).count (.terminal character))
          (.terminal character)
  /-- Over several characters the derivations of a symbol are its splits. -/
  several : ∀ first last, first < last → last < word.length → ∀ symbol,
    (chart.between first last).ways symbol = chart.splits grammar first last symbol
  /-- There, slots stand in the order of the places where their symbols are first found. -/
  succession : ∀ first last, first < last → last < word.length →
    (chart.between first last).symbols.Pairwise fun earlier later =>
      ∃ place next, IsLeast (chart.places grammar first last earlier) place ∧
        IsLeast (chart.places grammar first last later) next ∧ place < next
  /-- Every derivation leads to slots that are there. -/
  leads : ∀ first last, last < word.length → ∀ slot ∈ chart.between first last,
    ∀ way ∈ slot.derivations, chart.Leads word first last way
  /-- The tables of cells and counts hold every span, and a row of counts has one count for
  each slot. -/
  stored : ∀ first last, first ≤ last → last < word.length →
    chart.table.Holds first (last + 1 - first) ∧ chart.counts.Holds first (last + 1 - first) ∧
      (chart.counts.entry first (last + 1 - first)).length = (chart.between first last).length
  /-- The way down from a slot ends at characters, with no more levels than characters. -/
  unfolds : ∀ first last position, last < word.length →
    position < (chart.between first last).length →
    ∃ tree, ∀ levels, last + 1 - first ≤ levels →
      chart.treeFrom levels first (last + 1 - first) position = some tree
  /-- A symbol that is found over the whole word has a tree and a count there. -/
  answers : ∀ symbol position, chart.root? symbol = some position →
    0 < word.length ∧ position < (chart.between 0 (word.length - 1)).length ∧
      (∃ tree, chart.tree? symbol = some tree) ∧
      (chart.counts.entry 0 chart.size)[position]? = some (chart.count symbol)

variable {grammar : Grammar} {word : Word} {first last position : Nat} {symbol : String}

theorem between_of_lt (disordered : last < first) :
    (build grammar word).between first last = [] := by
  have width : last + 1 - first = 0 := by omega
  rw [between, width, cell_zero]

/-- Every cell is well-formed, also one that no characters are in. -/
theorem wellFormed_between (first last : Nat) :
    ((build grammar word).between first last).WellFormed := by
  by_cases within : first + (last + 1 - first) ≤ word.length
  · exact wellFormed_cell grammar word within
  · rw [between, cell_of_outside grammar word (Nat.lt_of_not_le within)]
    exact Cell.wellFormed_nil

theorem ways_between_self {character : Char} (here : word[position]? = some character) :
    ((build grammar word).between position position).ways symbol =
      List.replicate ((grammar.alternatives symbol).count (.terminal character))
        (.terminal character) := by
  have width : position + 1 - position = 1 := by omega
  rw [between, width, ways_cell_one grammar word here, Grammar.count_terminals]

theorem ways_between (ordered : first < last) (within : last < word.length) :
    ((build grammar word).between first last).ways symbol =
      (build grammar word).splits grammar first last symbol := by
  rw [between, ways_cell_of_one_lt grammar word (by omega) (by omega), splits]
  exact flatMap_cuts (build grammar word) fun leftWidth left right =>
    (grammar.pairs symbol).filterMap (Cell.splitWay? leftWidth left right)

/-- The slot that a symbol has is there. -/
theorem lt_length_of_slot? {cell : Cell} (found : cell.slot? symbol = some position) :
    position < cell.length := by
  obtain ⟨slot, here, _⟩ := Cell.exists_slot_of_slot? found
  exact (List.getElem?_eq_some_iff.mp here).1

/-- The splits of a symbol lead to slots that are there. -/
theorem leads_of_mem_splits {chart : Chart} {way : Derivation}
    (member : way ∈ chart.splits grammar first last symbol) : chart.Leads word first last way := by
  obtain ⟨cut, inside, selected⟩ := List.mem_flatMap.mp member
  obtain ⟨names, _, selection⟩ := List.mem_filterMap.mp selected
  obtain ⟨leftSlot, rightSlot, leftFound, rightFound, rfl⟩ :=
    Cell.splitWay?_eq_some_iff.mp selection
  rw [List.mem_range'_1] at inside
  exact ⟨cut, inside.1, by omega, rfl, lt_length_of_slot? leftFound, lt_length_of_slot? rightFound⟩

/-- Every derivation of a cell leads to slots that are there. -/
theorem leads_of_mem_derivations {slot : Slot} {way : Derivation} (within : last < word.length)
    (member : slot ∈ (build grammar word).between first last) (inside : way ∈ slot.derivations) :
    (build grammar word).Leads word first last way := by
  obtain ⟨position, here⟩ := List.mem_iff_getElem?.mp member
  rw [← (wellFormed_between first last).ways_of_getElem? here] at inside
  rcases Nat.lt_trichotomy last first with disordered | rfl | ordered
  · rw [between_of_lt disordered] at member
    cases member
  · have character := List.getElem?_eq_getElem within
    rw [ways_between_self character] at inside
    rw [List.eq_of_mem_replicate inside]
    exact ⟨rfl, character⟩
  · rw [ways_between ordered within] at inside
    exact leads_of_mem_splits inside

/-- From every slot that is there the way down ends at characters. -/
theorem exists_treeFrom (within : last < word.length)
    (inside : position < ((build grammar word).between first last).length) :
    ∃ tree, ∀ levels, last + 1 - first ≤ levels →
      (build grammar word).treeFrom levels first (last + 1 - first) position = some tree := by
  have ordered : first ≤ last := by
    by_contra disordered
    rw [between_of_lt (Nat.lt_of_not_le disordered)] at inside
    exact Nat.not_lt_zero position inside
  have here := List.getElem?_eq_getElem inside
  have found := (wellFormed_between first last).slot?_of_getElem? here
  have bound : first + (last + 1 - first) ≤ word.length := by omega
  have trees := slotTrees_ne_nil_of_slot? bound found
  exact ⟨_, fun levels enough =>
    (treeFrom_eq_head? enough bound).trans (List.head?_eq_some_head trees)⟩

/-- A row of counts has one count for each slot. -/
theorem length_counts_entry (ordered : first ≤ last) (within : last < word.length) :
    ((build grammar word).counts.entry first (last + 1 - first)).length =
      ((build grammar word).between first last).length := by
  rw [counts_entry (by omega) (by omega), List.length_map, between]

/-- A symbol that is found over the whole word is found between its first and its last
character, and has a tree and a count there. -/
theorem answers_of_root? (found : (build grammar word).root? symbol = some position) :
    0 < word.length ∧ position < ((build grammar word).between 0 (word.length - 1)).length ∧
      (∃ tree, (build grammar word).tree? symbol = some tree) ∧
      ((build grammar word).counts.entry 0 (build grammar word).size)[position]? =
        some ((build grammar word).count symbol) := by
  have slot := found
  rw [root?, size_build] at slot
  have positive : 0 < word.length := by
    rw [Nat.pos_iff_ne_zero]
    intro empty
    rw [empty, cell_zero] at slot
    cases slot
  have width : word.length - 1 + 1 - 0 = word.length := by omega
  have inside : position < ((build grammar word).between 0 (word.length - 1)).length := by
    rw [between, width]
    exact lt_length_of_slot? slot
  obtain ⟨tree, unfolds⟩ := exists_treeFrom (by omega) inside
  refine ⟨positive, inside, ⟨tree, ?_⟩, ?_⟩
  · rw [width] at unfolds
    simpa [tree?, found] using unfolds word.length (Nat.le_refl _)
  · rw [← length_counts_entry (Nat.zero_le _) (by omega), width] at inside
    simp [count, found, List.getD_eq_getElem?_getD, List.getElem?_eq_getElem inside]

/-- The tables of a chart hold every span of the word. -/
theorem holds_between (ordered : first ≤ last) (within : last < word.length) :
    (build grammar word).table.Holds first (last + 1 - first) ∧
      (build grammar word).counts.Holds first (last + 1 - first) := by
  have positive : 0 < last + 1 - first := by omega
  have bound : first + (last + 1 - first) ≤ word.length := by omega
  exact ⟨SpanTable.holds_fill positive (by simpa using bound),
    SpanTable.holds_fill positive (by simpa using bound)⟩

/-- Every chart packs exactly the derivations of all parts of its word, in order, and can be
read off without a look at anything that is not there. -/
theorem packedForest_build (grammar : Grammar) (word : Word) :
    (build grammar word).PackedForest grammar word where
  outOfOrder _ _ := between_of_lt
  wellFormed := wellFormed_between
  single _ _ here := ⟨symbols_between_self grammar word here, fun _ => ways_between_self here⟩
  several _ _ ordered within _ := ways_between ordered within
  succession _ _ := pairwise_symbols_between grammar word
  leads _ _ within _ member _ := leads_of_mem_derivations within member
  stored _ _ ordered within :=
    have ⟨cells, counts⟩ := holds_between ordered within
    ⟨cells, counts, length_counts_entry ordered within⟩
  unfolds _ _ _ := exists_treeFrom
  answers _ _ := answers_of_root?

/-- In `aaa` the symbol `R` stands before `L`, whose rule comes first but which is only found
at the second cut; and `D` has its pair twice, and none with the symbol that is not defined. -/
theorem packedForest_build_crossed :
    let grammar := Grammar.ofRules [⟨"L", [.pair 'D' 'A']⟩, ⟨"R", [.pair 'A' 'D']⟩,
      ⟨"D", [.pair 'A' 'X', .pair 'A' 'A', .pair 'A' 'A']⟩, ⟨"A", [.terminal 'a']⟩]
    let chart := build grammar ['a', 'a', 'a']
    (chart.between 0 2).symbols = ["R", "L"] ∧
      (∃ place next, IsLeast (chart.places grammar 0 2 "R") place ∧
        IsLeast (chart.places grammar 0 2 "L") next ∧ place < next) ∧
      (chart.between 1 2).ways "D" = chart.splits grammar 1 2 "D" ∧
      chart.splits grammar 1 2 "D" = [.split 1 0 0, .split 1 0 0] ∧
      chart.root? "L" = some 1 ∧ (∃ tree, chart.tree? "L" = some tree) ∧
      (chart.counts.entry 0 3)[1]? = some (chart.count "L") ∧ chart.count "L" = 2 := by
  intro grammar chart
  have forest := packedForest_build grammar ['a', 'a', 'a']
  have slots : (chart.between 0 2).symbols = ["R", "L"] := by decide
  have root : chart.root? "L" = some 1 := by decide
  have order := forest.succession 0 2 (by decide) (by decide)
  rw [slots, List.pairwise_pair] at order
  obtain ⟨_, _, tree, counted⟩ := forest.answers "L" 1 root
  exact ⟨slots, order, forest.several 1 2 (by decide) (by decide) "D", by decide, root, tree,
    counted, by decide⟩

end Chart

end Chomsky
