import Chomsky.Chart.Count
import Chomsky.Derivation.Drawing

/-!
# Outcomes

The outcome of a parse is whether the start symbol derives the text, along with
a report that shows the preferred tree and, on request, how many there are.
-/

namespace Chomsky

/-- What is said about one text. -/
structure Outcome where
  /-- Whether the start symbol derives the text. -/
  derivable : Bool
  /-- The report. -/
  report : String
deriving DecidableEq, Repr

namespace Outcome

/-- The report on a text that is derived by the given tree. -/
def acceptance (tree : ParseTree) (count : Option Nat) : String :=
  "The string can be parsed by the grammar. \nParse Tree:\n" ++ tree.drawing ++
    match count with
    | some count => "Derivations: " ++ count.repr ++ "\n"
    | none => ""

/-- The report on a text that is not derivable. -/
def rejection : String :=
  "The string cannot be parsed by the grammar.\n"

/-- The outcome of parsing a text. -/
def ofText (grammar : Grammar) (showCount : Bool) (text : String) : Outcome :=
  let chart := Chart.build grammar text.toList
  match chart.tree? grammar.start with
  | some tree =>
      let count := if showCount then some (chart.count grammar.start) else none
      ⟨true, acceptance tree count⟩
  | none => ⟨false, rejection⟩

end Outcome

end Chomsky
