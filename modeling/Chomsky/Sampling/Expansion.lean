import Chomsky.Derivation.Tree
import Chomsky.Report.Location
import Chomsky.Sampling.Choice
import Chomsky.Sampling.Heights

/-!
# Random expansion

A word is made by replacing symbols, each with a random alternative. From a
certain depth on only the alternatives nearest to terminals are considered, so
that the expansion of a symbol that derives anything comes to an end; below the
last depth it is given up.
-/

namespace Chomsky

/-- The depth from which only the alternatives of least height are considered. -/
def softDepth : Nat := 12

/-- The last depth at which a symbol is expanded. -/
def maxDepth : Nat := 128

/-- What can end an expansion early. -/
inductive ExpansionFault where
  /-- A symbol has no rule. -/
  | undefined (symbol : String)
  /-- A symbol has a rule, but no alternative in normal form. -/
  | noAlternatives (symbol : String)
  /-- A symbol stands below the last depth. -/
  | depthExceeded (symbol : String)
  /-- The random source never picked an alternative of a symbol. -/
  | undecided (symbol : String)
deriving DecidableEq, Repr

namespace ExpansionFault

/-- The symbol that could not be expanded. -/
def symbol : ExpansionFault → String
  | undefined symbol => symbol
  | noAlternatives symbol => symbol
  | depthExceeded symbol => symbol
  | undecided symbol => symbol

/-- The wording of a fault. -/
def message : ExpansionFault → String
  | undefined symbol => "No definition for nonterminal `" ++ symbol ++ "`"
  | noAlternatives symbol =>
      "Nonterminal `" ++ symbol ++ "` has no alternative in Chomsky normal form"
  | depthExceeded symbol =>
      "Gave up expanding `" ++ symbol ++ "` after " ++ maxDepth.repr ++ " nested rules"
  | undecided symbol => "No alternative of `" ++ symbol ++ "` was ever picked"

end ExpansionFault

/-- The alternatives that may be picked: those in normal form, and from the
soft depth on those of least height among them, if any has a height. -/
def candidates (heights : Heights) (depth : Nat) (alternatives : List Alternative) :
    List Alternative :=
  let normal := alternatives.filter Alternative.isNormal
  if softDepth ≤ depth then
    match heights.least? normal with
    | some least => normal.filter fun alternative =>
        heights.ofAlternative? alternative = some least
    | none => normal
  else
    normal

/-- The word that a symbol is expanded to with as many levels of rules left,
and the supply that is left after it. -/
def expand (grammar : Grammar) (heights : Heights) :
    (levels : Nat) → (symbol : String) → Supply → Except ExpansionFault Word × Supply
  | 0, symbol, supply => (.error (.depthExceeded symbol), supply)
  | levels + 1, symbol, supply =>
      match grammar.alternatives? symbol with
      | none => (.error (.undefined symbol), supply)
      | some alternatives =>
          match candidates heights (maxDepth - levels) alternatives with
          | [] => (.error (.noAlternatives symbol), supply)
          | first :: others =>
              match supply.choose (first :: others) with
              | (some (.terminal character), after) => (.ok [character], after)
              | (some (.pair left right), after) =>
                  match expand grammar heights levels (String.singleton left) after with
                  | (.ok leftWord, after) =>
                      match expand grammar heights levels (String.singleton right) after with
                      | (.ok rightWord, after) => (.ok (leftWord ++ rightWord), after)
                      | (.error fault, after) => (.error fault, after)
                  | (.error fault, after) => (.error fault, after)
              | (_, after) => (.error (.undecided symbol), after)

/-- An expansion that ended early, located in the file of the grammar. -/
abbrev ExpansionError := Located ExpansionFault

namespace Grammar

/-- A random word that a symbol derives. The path only serves to locate
faults. -/
def sampleFrom (grammar : Grammar) (symbol path : String) (supply : Supply) :
    Except ExpansionError Word × Supply :=
  match expand grammar grammar.leastHeights (maxDepth + 1) symbol supply with
  | (.ok word, after) => (.ok word, after)
  | (.error fault, after) => (.error ⟨.whole path, fault⟩, after)

/-- A random word that the start symbol derives. -/
def sample (grammar : Grammar) (path : String) (supply : Supply) :
    Except ExpansionError Word × Supply :=
  grammar.sampleFrom grammar.start path supply

end Grammar

end Chomsky
