import Mathlib.Data.Prod.Lex
import Mathlib.Order.Bounds.Basic
import Mathlib.Order.WellFounded
import Chomsky.Proofs.Chart.Contents
import Chomsky.Proofs.Grammar.Agreement

/-!
# The order of slots

A cell is addressed here by its first and its last position (`Chart.between`). Its slots
stand in the order in which their symbols were found. Over one character that is the order
of the rules (`symbols_between_self`). Over more characters a symbol is found at a cut and
a production (`Chart.places`), cut by cut and at one cut production by production; which
slot comes first is decided by the least of these places (`pairwise_symbols_between`).
-/

namespace Chomsky

section FirstFinds

variable {Key Item : Type} [DecidableEq Item] {found : Key → Option Item} {key : Key} {item : Item}

/-- What is found apart from one item. -/
def apartFrom (item : Item) (found : Key → Option Item) (key : Key) : Option Item :=
  (found key).filter fun other => !other == item

theorem apartFrom_eq_some_iff {other : Item} :
    apartFrom item found key = some other ↔ found key = some other ∧ other ≠ item := by
  simp [apartFrom, Option.filter_eq_some_iff]

/-- Behind an item, only others are kept. -/
theorem eraseDups_filterMap_cons (here : found key = some item) (rest : List Key) :
    ((key :: rest).filterMap found).eraseDups =
      item :: (rest.filterMap (apartFrom item found)).eraseDups := by
  rw [List.filterMap_cons_some here, List.eraseDups_cons, List.filter_filterMap]
  rfl

/-- What a list finds first comes first when each item is kept once. -/
theorem pairwise_eraseDups_filterMap {before : Key → Key → Prop} {keys : List Key}
    (sorted : keys.Pairwise before) (found : Key → Option Item) :
    (keys.filterMap found).eraseDups.Pairwise fun earlier later =>
      ∃ key ∈ keys, found key = some earlier ∧
        ∀ other ∈ keys, found other = some later → before key other := by
  induction keys generalizing found with
  | nil => exact .nil
  | cons key rest inductionHypothesis =>
      obtain ⟨leads, sorted⟩ := List.pairwise_cons.mp sorted
      cases here : found key with
      | none =>
          rw [List.filterMap_cons_none here]
          refine (inductionHypothesis sorted found).imp ?_
          rintro earlier later ⟨place, inside, foundEarlier, behind⟩
          exact ⟨place, .tail key inside, foundEarlier, by simpa [here] using behind⟩
      | some item =>
          have different : ∀ later ∈ (rest.filterMap (apartFrom item found)).eraseDups,
              found key ≠ some later := by
            intro later member
            obtain ⟨other, _, foundLater⟩ := List.mem_filterMap.mp (List.mem_eraseDups.mp member)
            rw [here, ne_eq, Option.some.injEq]
            exact (apartFrom_eq_some_iff.mp foundLater).2.symm
          rw [eraseDups_filterMap_cons here, List.pairwise_cons]
          constructor
          · intro later member
            refine ⟨key, .head rest, here, ?_⟩
            rw [List.forall_mem_cons]
            exact ⟨fun same => absurd same (different later member),
              fun other inside _ => leads other inside⟩
          · refine List.Pairwise.imp_of_mem ?_ (inductionHypothesis sorted (apartFrom item found))
            rintro earlier later _ laterMember ⟨place, inside, foundEarlier, behind⟩
            refine ⟨place, .tail key inside, (apartFrom_eq_some_iff.mp foundEarlier).1, ?_⟩
            rw [List.forall_mem_cons]
            have distinct := different later laterMember
            refine ⟨fun same => absurd same distinct, fun other otherInside foundLater => ?_⟩
            rw [here, ne_eq, Option.some.injEq] at distinct
            exact behind other otherInside
              (apartFrom_eq_some_iff.mpr ⟨foundLater, Ne.symm distinct⟩)

end FirstFinds

/-- Items that come in blocks, a block for each key, are kept in the order of the keys. -/
theorem eraseDups_flatMap_replicate {Item Key : Type} [DecidableEq Key] {items : List Item}
    {key : Item → Key} (distinct : (items.map key).Nodup) (times : Item → Nat) :
    (items.flatMap fun item => List.replicate (times item) (key item)).eraseDups =
      (items.filter fun item => 0 < times item).map key := by
  induction items with
  | nil => rfl
  | cons item rest inductionHypothesis =>
      rw [List.map_cons, List.nodup_cons] at distinct
      have later := inductionHypothesis distinct.2
      cases occurrences : times item with
      | zero => simpa [occurrences] using later
      | succ more =>
          have others : (rest.flatMap fun item => List.replicate (times item) (key item)).filter
              (fun other => !other == key item) =
                rest.flatMap fun item => List.replicate (times item) (key item) := by
            rw [List.filter_eq_self]
            intro other member
            obtain ⟨source, inside, copy⟩ := List.mem_flatMap.mp member
            have same := List.eq_of_mem_replicate copy
            have apart : key source ≠ key item := fun equal =>
              distinct.1 (equal ▸ List.mem_map_of_mem inside)
            simpa [same] using apart
          simp [occurrences, List.replicate_succ, List.eraseDups_cons, others, later]

/-- Going through a list by position is going through it. -/
theorem filterMap_getElem?_range {Item Found : Type} (items : List Item)
    (found : Item → Option Found) :
    (List.range items.length).filterMap (fun position => items[position]?.bind found) =
      items.filterMap found := by
  have positions : (List.range items.length).map (items[·]?) = items.map some :=
    List.ext_getElem (by simp) fun position _ _ => by simp
  have selected := congrArg (List.filterMap (Option.bind · found)) positions
  simpa only [List.filterMap_map, Function.comp_def, Option.bind_some] using selected

namespace Cell

/-- The symbol that a production finds above two adjoining spans. -/
def joined? (left right : Cell) (production : PairProduction) : Option String :=
  if production.left ∈ left.symbols ∧ production.right ∈ right.symbols then
    some production.symbol
  else none

/-- Productions find their symbols in order. -/
theorem map_fst_joinFindings (productions : List PairProduction) (leftWidth : Nat)
    (left right : Cell) :
    (joinFindings productions leftWidth left right).map Prod.fst =
      productions.filterMap (joined? left right) := by
  rw [joinFindings, List.map_filterMap]
  apply List.filterMap_congr
  intro production _
  simp only [joined?, ← isSome_slot?_iff]
  cases left.slot? production.left <;> cases right.slot? production.right <;> simp

/-- Each rule finds its symbol above a character as often as it has the alternative. -/
theorem map_fst_leafFindings (grammar : Grammar) (character : Char) :
    (leafFindings grammar.terminalProductions character).map Prod.fst =
      grammar.rules.flatMap fun rule =>
        List.replicate (rule.alternatives.count (.terminal character)) rule.symbol := by
  rw [leafFindings, List.map_filterMap, Grammar.terminalProductions, List.filterMap_flatMap]
  apply List.flatMap_congr
  intro rule _
  rw [Rule.terminalProductions, List.filterMap_filterMap]
  induction rule.alternatives with
  | nil => rfl
  | cons alternative rest inductionHypothesis =>
      cases alternative with
      | terminal own =>
          by_cases same : own = character
          · simpa [Alternative.terminal?, same, List.replicate_succ] using inductionHypothesis
          · simpa [Alternative.terminal?, same] using inductionHypothesis
      | pair left right => simpa [Alternative.terminal?] using inductionHypothesis
      | unsupported text => simpa [Alternative.terminal?] using inductionHypothesis

/-- Above a character stand the symbols that have it as an alternative, in the order of
their rules. -/
theorem symbols_leafFindings (grammar : Grammar) (character : Char) :
    (ofFindings (leafFindings grammar.terminalProductions character)).symbols =
      grammar.symbols.filter fun symbol => .terminal character ∈ grammar.alternatives symbol := by
  rw [symbols_ofFindings, map_fst_leafFindings, eraseDups_flatMap_replicate grammar.distinct,
    Grammar.symbols, List.filter_map]
  refine congrArg (List.map Rule.symbol) (List.filter_congr fun rule member => ?_)
  have own : grammar.alternatives rule.symbol = rule.alternatives := by
    rw [Grammar.alternatives, Grammar.mem_rules_iff.mp member, Option.getD_some]
  simp [own, List.count_pos_iff]

end Cell

namespace Chart

/-- The cell of the characters from the first position to the last one, both included. -/
def between (chart : Chart) (first last : Nat) : Cell :=
  chart.cell first (last + 1 - first)

/-- A symbol is found at a cut by a production: the cut is the last position of the left
part, and the production is given by its position among all pair productions. -/
def FoundAt (chart : Chart) (grammar : Grammar) (first last : Nat) (symbol : String)
    (cut position : Nat) : Prop :=
  first ≤ cut ∧ cut < last ∧
    ∃ production, grammar.pairProductions[position]? = some production ∧
      production.symbol = symbol ∧
      production.left ∈ (chart.between first cut).symbols ∧
      production.right ∈ (chart.between (cut + 1) last).symbols

/-- All cuts and productions that find a symbol, of which the smaller cut comes first. -/
def places (chart : Chart) (grammar : Grammar) (first last : Nat) (symbol : String) :
    Set (ℕ ×ₗ ℕ) :=
  {place | chart.FoundAt grammar first last symbol (ofLex place).1 (ofLex place).2}

/-- Every cut and every production, in the order in which a chart comes to them. -/
def attempts (grammar : Grammar) (first last : Nat) : List (ℕ ×ₗ ℕ) :=
  (List.range' first (last - first)).flatMap fun cut =>
    (List.range grammar.pairProductions.length).map fun position => toLex (cut, position)

/-- What a cut and a production find. -/
def attempt? (chart : Chart) (grammar : Grammar) (first last : Nat) (place : ℕ ×ₗ ℕ) :
    Option String :=
  grammar.pairProductions[(ofLex place).2]?.bind
    (Cell.joined? (chart.between first (ofLex place).1) (chart.between ((ofLex place).1 + 1) last))

theorem pairwise_attempts (grammar : Grammar) (first last : Nat) :
    (attempts grammar first last).Pairwise (· < ·) := by
  rw [attempts, List.pairwise_flatMap]
  constructor
  · intro cut _
    rw [List.pairwise_map]
    refine List.pairwise_lt_range.imp fun {position other} earlier => ?_
    exact Prod.Lex.toLex_lt_toLex.mpr (.inr ⟨rfl, earlier⟩)
  · refine (List.pairwise_lt_range' 1).imp fun {cut otherCut} less place member other inside => ?_
    obtain ⟨position, _, rfl⟩ := List.mem_map.mp member
    obtain ⟨otherPosition, _, rfl⟩ := List.mem_map.mp inside
    exact Prod.Lex.toLex_lt_toLex.mpr (.inl less)

/-- The places of a symbol are the attempts that find it. -/
theorem mem_places_iff {chart : Chart} {grammar : Grammar} {first last : Nat} {symbol : String}
    {place : ℕ ×ₗ ℕ} :
    place ∈ chart.places grammar first last symbol ↔
      place ∈ attempts grammar first last ∧
        chart.attempt? grammar first last place = some symbol := by
  have listed : place ∈ attempts grammar first last ↔
      (first ≤ (ofLex place).1 ∧ (ofLex place).1 < last) ∧
        (ofLex place).2 < grammar.pairProductions.length := by
    simp only [attempts, List.mem_flatMap, List.mem_range'_1, List.mem_map, List.mem_range]
    constructor
    · rintro ⟨cut, inside, position, bound, rfl⟩
      exact ⟨⟨inside.1, by simpa using (by omega : cut < last)⟩, bound⟩
    · rintro ⟨inside, bound⟩
      exact ⟨_, ⟨inside.1, by omega⟩, _, bound, rfl⟩
  simp only [places, Set.mem_ofPred_eq, FoundAt, listed, attempt?, Option.bind_eq_some_iff,
    Cell.joined?]
  constructor
  · rintro ⟨after, before, production, here, rfl, left, right⟩
    refine ⟨⟨⟨after, before⟩, (List.getElem?_eq_some_iff.mp here).1⟩, production, here, ?_⟩
    exact if_pos ⟨left, right⟩
  · rintro ⟨⟨⟨after, before⟩, _⟩, production, here, found⟩
    obtain ⟨⟨left, right⟩, same⟩ := Option.ite_none_right_eq_some.mp found
    exact ⟨after, before, production, here, Option.some.inj same, left, right⟩

variable (grammar : Grammar) (word : Word) {first last : Nat}

/-- Cuts of a span are given by the width of the left part or by its last position. -/
theorem flatMap_cuts {Found : Type} (chart : Chart) (found : Nat → Cell → Cell → List Found) :
    ((List.range (last + 1 - first - 1)).flatMap fun position =>
        found (position + 1) (chart.cell first (position + 1))
          (chart.cell (first + (position + 1)) (last + 1 - first - (position + 1)))) =
      (List.range' first (last - first)).flatMap fun cut =>
        found (cut + 1 - first) (chart.between first cut) (chart.between (cut + 1) last) := by
  have count : last + 1 - first - 1 = last - first := by omega
  rw [count, List.range'_eq_map_range, List.flatMap_map]
  refine List.flatMap_congr fun position inside => ?_
  rw [List.mem_range] at inside
  have leftWidth : first + position + 1 - first = position + 1 := by omega
  have rightWidth : last + 1 - first - (position + 1) = last + 1 - (first + position + 1) := by
    omega
  rw [between, between, leftWidth, rightWidth, Nat.add_assoc first position 1]

/-- A cell of several characters has the symbols that the attempts find. -/
theorem symbols_between (ordered : first < last) (within : last < word.length) :
    ((build grammar word).between first last).symbols =
      ((attempts grammar first last).filterMap
        ((build grammar word).attempt? grammar first last)).eraseDups := by
  have cellEq := cell_build grammar word (show 0 < last + 1 - first by omega)
    (show first + (last + 1 - first) ≤ word.length by omega)
  rw [between, cellEq, spanCell, if_neg (by omega), Cell.symbols_ofFindings, cutFindings,
    List.map_flatMap]
  simp only [Cell.map_fst_joinFindings]
  rw [flatMap_cuts (build grammar word) fun _ left right =>
    grammar.pairProductions.filterMap (Cell.joined? left right)]
  congr 1
  rw [attempts, List.filterMap_flatMap]
  apply List.flatMap_congr
  intro cut _
  rw [List.filterMap_map, ← filterMap_getElem?_range]
  rfl

/-- A symbol of a cell of several characters has a first place. -/
theorem exists_isLeast_places {symbol : String} (ordered : first < last)
    (within : last < word.length)
    (member : symbol ∈ ((build grammar word).between first last).symbols) :
    ∃ place, IsLeast ((build grammar word).places grammar first last symbol) place := by
  rw [symbols_between grammar word ordered within, List.mem_eraseDups, List.mem_filterMap] at member
  obtain ⟨place, inside, found⟩ := member
  obtain ⟨least, leastMember, minimal⟩ := WellFounded.has_min wellFounded_lt
    ((build grammar word).places grammar first last symbol)
    ⟨place, mem_places_iff.mpr ⟨inside, found⟩⟩
  exact ⟨least, leastMember, fun other otherMember => not_lt.mp (minimal other otherMember)⟩

/-- The slots of a cell of several characters stand in the order of the places where their
symbols are first found. -/
theorem pairwise_symbols_between (ordered : first < last) (within : last < word.length) :
    ((build grammar word).between first last).symbols.Pairwise fun earlier later =>
      ∃ place next, IsLeast ((build grammar word).places grammar first last earlier) place ∧
        IsLeast ((build grammar word).places grammar first last later) next ∧ place < next := by
  have found : ((build grammar word).between first last).symbols.Pairwise fun earlier later =>
      ∃ place ∈ (build grammar word).places grammar first last earlier,
        ∀ other ∈ (build grammar word).places grammar first last later, place < other := by
    rw [symbols_between grammar word ordered within]
    refine (pairwise_eraseDups_filterMap (pairwise_attempts grammar first last) _).imp ?_
    rintro earlier later ⟨place, inside, foundEarlier, behind⟩
    refine ⟨place, mem_places_iff.mpr ⟨inside, foundEarlier⟩, fun other otherMember => ?_⟩
    obtain ⟨otherInside, foundLater⟩ := mem_places_iff.mp otherMember
    exact behind other otherInside foundLater
  refine found.imp_of_mem ?_
  rintro earlier later earlierMember laterMember ⟨place, placeMember, behind⟩
  obtain ⟨least, leastPlace⟩ := exists_isLeast_places grammar word ordered within earlierMember
  obtain ⟨next, nextPlace⟩ := exists_isLeast_places grammar word ordered within laterMember
  exact ⟨least, next, leastPlace, nextPlace,
    (leastPlace.2 placeMember).trans_lt (behind next nextPlace.1)⟩

/-- Over one character the slots stand in the order of the rules. -/
theorem symbols_between_self {position : Nat} {character : Char}
    (here : word[position]? = some character) :
    ((build grammar word).between position position).symbols =
      grammar.symbols.filter fun symbol => .terminal character ∈ grammar.alternatives symbol := by
  obtain ⟨inside, _⟩ := List.getElem?_eq_some_iff.mp here
  have width : position + 1 - position = 1 := by omega
  rw [between, width, cell_build grammar word Nat.one_pos inside, spanCell, if_pos rfl,
    List.getElem?_toArray, here]
  exact Cell.symbols_leafFindings grammar character

end Chart

end Chomsky
