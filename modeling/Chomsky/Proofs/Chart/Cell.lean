import Mathlib.Data.List.Nodup
import Chomsky.Chart.Cell
import Chomsky.Proofs.Grammar.Productions

/-!
# What a cell holds

A cell is read through two views: `Cell.slot?` gives the position of a symbol
and `Cell.ways` the derivations found for it. In a well-formed cell they agree
with each other and with positions, and the ways of one symbol are what the
symbol's own alternatives find.
-/

namespace Chomsky

/-- Keeping first occurrences leaves no repetition. -/
theorem nodup_eraseDups {α : Type} [DecidableEq α] : ∀ items : List α, items.eraseDups.Nodup
  | [] => List.nodup_nil
  | item :: rest => by
      rw [List.eraseDups_cons, List.nodup_cons]
      exact ⟨by simp, nodup_eraseDups _⟩
termination_by items => items.length
decreasing_by exact Nat.lt_succ_of_le (List.length_filter_le _ _)

namespace Cell

/-- The ways in which a symbol derives the span, none when it has no slot. -/
def ways (cell : Cell) (symbol : String) : List Derivation :=
  ((cell.find? (·.symbol = symbol)).map Slot.derivations).getD []

/-- One slot for each symbol, and at least one way in each slot. -/
structure WellFormed (cell : Cell) : Prop where
  distinct : cell.symbols.Nodup
  inhabited : ∀ slot ∈ cell, slot.derivations ≠ []

variable {cell : Cell} {symbol : String} {position : Nat} {slot : Slot}

/-- The position of a symbol holds a slot of that symbol. -/
theorem exists_slot_of_slot? (found : cell.slot? symbol = some position) :
    ∃ slot, cell[position]? = some slot ∧ slot.symbol = symbol := by
  obtain ⟨inside, same, _⟩ := List.findIdx?_eq_some_iff_getElem.mp found
  exact ⟨cell[position], List.getElem?_eq_getElem inside, of_decide_eq_true same⟩

/-- A symbol has a position exactly when it is one of the cell's symbols. -/
theorem isSome_slot?_iff : (cell.slot? symbol).isSome ↔ symbol ∈ cell.symbols := by
  simp [slot?, symbols]

/-- No two positions of a well-formed cell belong to one symbol. -/
theorem WellFormed.slot?_of_getElem? (wellFormed : cell.WellFormed)
    (here : cell[position]? = some slot) : cell.slot? slot.symbol = some position := by
  obtain ⟨inside, rfl⟩ := List.getElem?_eq_some_iff.mp here
  refine List.findIdx?_eq_some_iff_getElem.mpr ⟨inside, by simp, ?_⟩
  intro earlier before same
  have earlierInside : earlier < cell.symbols.length := by
    rw [symbols, List.length_map]
    omega
  have symbolsEq : cell.symbols[earlier]? = cell.symbols[position]? := by
    rw [symbols, List.getElem?_map, List.getElem?_map, here,
      List.getElem?_eq_getElem (Nat.lt_trans before inside)]
    simpa using same
  have positionsEq := (List.getElem?_inj earlierInside wellFormed.distinct).mp symbolsEq
  omega

/-- The ways of a symbol are the derivations of its slot. -/
theorem WellFormed.ways_of_getElem? (wellFormed : cell.WellFormed)
    (here : cell[position]? = some slot) : cell.ways slot.symbol = slot.derivations := by
  have position?Eq := wellFormed.slot?_of_getElem? here
  rw [slot?, List.findIdx?_eq_some_iff_findIdx_eq] at position?Eq
  have found : cell.find? (·.symbol = slot.symbol) = some slot := by
    rw [List.find?_eq_getElem?_findIdx, position?Eq.2, here]
  simp [ways, found]

/-- Symbols with a slot are those with a way. -/
theorem WellFormed.slot?_eq_none_iff (wellFormed : cell.WellFormed) :
    cell.slot? symbol = none ↔ cell.ways symbol = [] := by
  constructor
  · intro absent
    have unfound : cell.find? (·.symbol = symbol) = none :=
      List.find?_eq_none.mpr fun slot member =>
        by simpa using List.findIdx?_eq_none_iff.mp absent slot member
    simp [ways, unfound]
  · intro noWay
    cases found : cell.slot? symbol with
    | none => rfl
    | some position =>
        obtain ⟨slot, here, rfl⟩ := exists_slot_of_slot? found
        rw [wellFormed.ways_of_getElem? here] at noWay
        exact absurd noWay (wellFormed.inhabited slot (List.mem_of_getElem? here))

/-- The empty cell is well-formed. -/
theorem wellFormed_nil : WellFormed [] where
  distinct := List.nodup_nil
  inhabited := by simp

/-- A symbol has no derivation among findings that name it nowhere. -/
theorem derivationsOf_eq_nil_iff {findings : List Finding} :
    derivationsOf findings symbol = [] ↔ symbol ∉ findings.map Prod.fst := by
  rw [derivationsOf, List.filterMap_eq_nil_iff]
  constructor
  · rintro unfound member
    obtain ⟨finding, inFindings, rfl⟩ := List.mem_map.mp member
    simpa using unfound finding inFindings
  · intro absent finding inFindings
    have different : finding.1 ≠ symbol :=
      fun same => absent (same ▸ List.mem_map_of_mem inFindings)
    simp [different]

/-- Gathering findings makes a well-formed cell. -/
theorem wellFormed_ofFindings (findings : List Finding) : (ofFindings findings).WellFormed where
  distinct := by
    rw [symbols_ofFindings]
    exact nodup_eraseDups _
  inhabited := by
    intro slot member
    obtain ⟨symbol, found, rfl⟩ := List.mem_map.mp member
    rw [List.mem_eraseDups] at found
    exact fun noWay => derivationsOf_eq_nil_iff.mp noWay found

/-- Gathering keeps what was found for each symbol, in order. -/
theorem ways_ofFindings (findings : List Finding) (symbol : String) :
    (ofFindings findings).ways symbol = derivationsOf findings symbol := by
  by_cases found : symbol ∈ findings.map Prod.fst
  · have member : ⟨symbol, derivationsOf findings symbol⟩ ∈ ofFindings findings :=
      List.mem_map.mpr ⟨symbol, List.mem_eraseDups.mpr found, rfl⟩
    obtain ⟨position, here⟩ := List.mem_iff_getElem?.mp member
    exact (wellFormed_ofFindings findings).ways_of_getElem? here
  · have absent : (ofFindings findings).slot? symbol = none := by
      rw [← Option.not_isSome_iff_eq_none, isSome_slot?_iff, symbols_ofFindings,
        List.mem_eraseDups]
      exact found
    rw [derivationsOf_eq_nil_iff.mpr found]
    exact (wellFormed_ofFindings findings).slot?_eq_none_iff.mp absent

/-- Findings for one symbol come from the productions that the symbol owns. -/
theorem derivationsOf_filterMap {Production : Type} (owner : Production → String)
    {find? : Production → Option Finding}
    (owned : ∀ production finding, find? production = some finding →
      finding.1 = owner production)
    (productions : List Production) (symbol : String) :
    derivationsOf (productions.filterMap find?) symbol =
      (productions.filter (owner · = symbol)).filterMap
        fun production => (find? production).map Prod.snd := by
  rw [derivationsOf, List.filterMap_filterMap, List.filterMap_filter]
  refine List.filterMap_congr fun production _ => ?_
  cases found : find? production with
  | none => simp
  | some finding => simp [owned production finding found]

/-- A symbol is found above a character once for each of its alternatives that
is this character. -/
theorem derivationsOf_leafFindings (grammar : Grammar) (character : Char) (symbol : String) :
    derivationsOf (leafFindings grammar.terminalProductions character) symbol =
      List.replicate ((grammar.terminals symbol).count character) (.terminal character) := by
  rw [leafFindings, derivationsOf_filterMap TerminalProduction.symbol,
    Grammar.filter_terminalProductions, List.filterMap_map]
  · induction grammar.terminals symbol with
    | nil => rfl
    | cons own rest inductionHypothesis =>
        by_cases same : own = character
        · simpa [same, List.replicate_succ] using inductionHypothesis
        · simpa [same] using inductionHypothesis
  · intro production finding found
    split at found
    · exact (Option.some.inj found) ▸ rfl
    · exact absurd found (by simp)

/-- The way in which a pair of names covers two adjoining spans, if both names
have slots in their cells. -/
def splitWay? (leftWidth : Nat) (left right : Cell) (names : Char × Char) :
    Option Derivation :=
  match left.slot? (String.singleton names.1), right.slot? (String.singleton names.2) with
  | some leftSlot, some rightSlot => some (.split leftWidth leftSlot rightSlot)
  | _, _ => none

/-- At one cut a symbol is found once for each of its pairs whose names both
have slots. -/
theorem derivationsOf_joinFindings (grammar : Grammar) (leftWidth : Nat) (left right : Cell)
    (symbol : String) :
    derivationsOf (joinFindings grammar.pairProductions leftWidth left right) symbol =
      (grammar.pairs symbol).filterMap (splitWay? leftWidth left right) := by
  rw [joinFindings, derivationsOf_filterMap PairProduction.symbol,
    Grammar.filter_pairProductions, List.filterMap_map]
  · refine List.filterMap_congr fun names _ => ?_
    simp only [Function.comp_apply, splitWay?, Grammar.pairProduction]
    cases left.slot? (String.singleton names.1) <;>
      cases right.slot? (String.singleton names.2) <;> rfl
  · intro production finding found
    split at found
    · exact (Option.some.inj found) ▸ rfl
    · exact absurd found (by simp)

end Cell

end Chomsky
