import Chomsky.Grammar.Basic

/-!
# Productions

The alternatives in normal form, gathered from all rules in the order in which
a chart tries them: rule by rule, and within a rule alternative by alternative.
A pair may name a symbol without a rule; nothing is ever found for it.
-/

namespace Chomsky

/-- A symbol that may be replaced by one character. -/
structure TerminalProduction where
  /-- The symbol being replaced. -/
  symbol : String
  /-- The character. -/
  character : Char
deriving DecidableEq, Repr

/-- A symbol that may be replaced by two symbols. -/
structure PairProduction where
  /-- The symbol being replaced. -/
  symbol : String
  /-- The name of the left symbol. -/
  left : String
  /-- The name of the right symbol. -/
  right : String
deriving DecidableEq, Repr

namespace Rule

/-- The terminal productions of a rule. -/
def terminalProductions (rule : Rule) : List TerminalProduction :=
  rule.alternatives.filterMap fun alternative =>
    alternative.terminal?.map fun character => ⟨rule.symbol, character⟩

/-- The pair productions of a rule. -/
def pairProductions (rule : Rule) : List PairProduction :=
  rule.alternatives.filterMap fun alternative =>
    alternative.pair?.map fun names =>
      ⟨rule.symbol, String.singleton names.1, String.singleton names.2⟩

end Rule

namespace Grammar

/-- The terminal productions of a grammar. -/
def terminalProductions (grammar : Grammar) : List TerminalProduction :=
  grammar.rules.flatMap Rule.terminalProductions

/-- The pair productions of a grammar. -/
def pairProductions (grammar : Grammar) : List PairProduction :=
  grammar.rules.flatMap Rule.pairProductions

end Grammar

end Chomsky
