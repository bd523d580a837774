import Chomsky.Grammar.Productions

/-!
# Cells of a chart

A cell holds the symbols that derive one span, each in a slot of its own along
with every way it was found to. The ways share what lies below them: a split
does not hold the derivations of its halves but only points to their slots.
-/

namespace Chomsky

/-- One way in which a symbol derives a span. -/
inductive Derivation where
  /-- The span is this one character. -/
  | terminal (character : Char)
  /-- The span is cut after its first `leftWidth` characters, and the halves are
  derived by the symbols in the given slots of their cells. -/
  | split (leftWidth leftSlot rightSlot : Nat)
deriving DecidableEq, Repr

/-- A symbol and the ways in which it derives a span, the preferred one first. -/
structure Slot where
  /-- The symbol. -/
  symbol : String
  /-- The ways, of which there is at least one. -/
  derivations : List Derivation
deriving DecidableEq, Repr

/-- The symbols of a span in the order in which they were first found. -/
abbrev Cell := List Slot

/-- Something found about a span: a symbol derives it in this way. -/
abbrev Finding := String × Derivation

namespace Cell

/-- The symbols that derive the span. -/
def symbols (cell : Cell) : List String :=
  cell.map Slot.symbol

/-- The position of a symbol's slot, if the symbol derives the span. -/
def slot? (cell : Cell) (symbol : String) : Option Nat :=
  cell.findIdx? fun slot => slot.symbol = symbol

/-- The ways in which one symbol was found to derive the span. -/
def derivationsOf (findings : List Finding) (symbol : String) : List Derivation :=
  findings.filterMap fun finding => if finding.1 = symbol then some finding.2 else none

/-- The cell that gathers what was found, symbol by symbol. -/
def ofFindings (findings : List Finding) : Cell :=
  (findings.map Prod.fst).eraseDups.map fun symbol =>
    ⟨symbol, derivationsOf findings symbol⟩

/-- What the productions find for a span of one character. -/
def leafFindings (productions : List TerminalProduction) (character : Char) :
    List Finding :=
  productions.filterMap fun production =>
    if production.character = character then
      some (production.symbol, .terminal character)
    else none

/-- What the productions find for a span that is cut into two, given the cells
of its halves. -/
def joinFindings (productions : List PairProduction) (leftWidth : Nat)
    (left right : Cell) : List Finding :=
  productions.filterMap fun production =>
    match left.slot? production.left, right.slot? production.right with
    | some leftSlot, some rightSlot =>
        some (production.symbol, .split leftWidth leftSlot rightSlot)
    | _, _ => none

/-- A cell has exactly the symbols that something was found for. -/
theorem symbols_ofFindings (findings : List Finding) :
    (ofFindings findings).symbols = (findings.map Prod.fst).eraseDups := by
  simp [ofFindings, symbols, Function.comp_def]

end Cell

end Chomsky
