import Chomsky.Grammar.Alternative

/-!
# Grammars

A grammar is a start symbol and one rule for each defined symbol. Rules keep
the order in which their symbols were first defined, and alternatives the order
in which they were added, because a parser tries both in that order. Two
grammars describe the same thing when they agree on the start symbol and on
each symbol's alternatives; the order of the rules is then immaterial.
-/

namespace Chomsky

/-- A symbol together with its alternatives, in the order of preference. -/
structure Rule where
  /-- The symbol being defined. -/
  symbol : String
  /-- The ways to replace it. -/
  alternatives : List Alternative
deriving DecidableEq, Repr

/-- Rules with alternatives added at the end of the rule of `symbol`, which is
created last when there is none yet. -/
def extendRules (symbol : String) (alternatives : List Alternative) :
    List Rule → List Rule
  | [] => [⟨symbol, alternatives⟩]
  | rule :: rest =>
      if rule.symbol = symbol then
        ⟨rule.symbol, rule.alternatives ++ alternatives⟩ :: rest
      else
        rule :: extendRules symbol alternatives rest

/-- Extending rules defines one more symbol at most, after all the others. -/
theorem symbols_extendRules (symbol : String) (alternatives : List Alternative)
    (rules : List Rule) :
    (extendRules symbol alternatives rules).map Rule.symbol =
      if symbol ∈ rules.map Rule.symbol then rules.map Rule.symbol
      else rules.map Rule.symbol ++ [symbol] := by
  induction rules with
  | nil => simp [extendRules]
  | cons rule rest inductionHypothesis =>
      by_cases same : rule.symbol = symbol
      · simp [extendRules, same]
      · have different : symbol ≠ rule.symbol := Ne.symm same
        by_cases later : symbol ∈ rest.map Rule.symbol <;>
          simp_all [extendRules]

/-- A start symbol and the rules, at most one for each symbol. -/
structure Grammar where
  /-- The symbol that derivations start from. -/
  start : String
  /-- The rules in the order their symbols were first defined. -/
  rules : List Rule
  /-- No symbol has two rules. -/
  distinct : (rules.map Rule.symbol).Nodup
deriving DecidableEq, Repr

namespace Grammar

/-- The start symbol of a grammar that names none. -/
def defaultStart : String := "S"

/-- The grammar without rules. -/
def empty : Grammar := ⟨defaultStart, [], List.nodup_nil⟩

instance : Inhabited Grammar := ⟨empty⟩

/-- The grammar with another start symbol. -/
def withStart (grammar : Grammar) (start : String) : Grammar :=
  { grammar with start }

/-- The grammar with alternatives added after those that `symbol` has; with
none to add, the symbol still becomes defined. -/
def addRule (grammar : Grammar) (symbol : String)
    (alternatives : List Alternative) : Grammar where
  start := grammar.start
  rules := extendRules symbol alternatives grammar.rules
  distinct := by
    rw [symbols_extendRules]
    split
    · exact grammar.distinct
    · next fresh =>
        rw [List.nodup_append]
        refine ⟨grammar.distinct, by simp, fun old member new single same => ?_⟩
        rw [List.mem_singleton] at single
        exact fresh (single ▸ same ▸ member)

/-- The grammar that a list of definitions builds up, in which a symbol may be
defined more than once. -/
def ofRules (rules : List Rule) : Grammar :=
  rules.foldl (fun grammar rule => grammar.addRule rule.symbol rule.alternatives) empty

/-- The defined symbols, in the order they were first defined. -/
def symbols (grammar : Grammar) : List String :=
  grammar.rules.map Rule.symbol

/-- The alternatives of a symbol, or `none` when it is not defined. -/
def alternatives? (grammar : Grammar) (symbol : String) : Option (List Alternative) :=
  (grammar.rules.find? (·.symbol = symbol)).map Rule.alternatives

/-- The alternatives of a symbol, none when it is not defined. -/
def alternatives (grammar : Grammar) (symbol : String) : List Alternative :=
  (grammar.alternatives? symbol).getD []

/-- The characters that a symbol may be replaced by. -/
def terminals (grammar : Grammar) (symbol : String) : List Char :=
  (grammar.alternatives symbol).filterMap Alternative.terminal?

/-- The pairs of names that a symbol may be replaced by. -/
def pairs (grammar : Grammar) (symbol : String) : List (Char × Char) :=
  (grammar.alternatives symbol).filterMap Alternative.pair?

/-- Agreement on the start symbol and on every symbol's alternatives. -/
def Equivalent (first second : Grammar) : Prop :=
  first.start = second.start ∧
    ∀ symbol, first.alternatives? symbol = second.alternatives? symbol

/-- Whether two grammars agree, decided by the symbols that either defines. -/
def agrees (first second : Grammar) : Bool :=
  first.start = second.start &&
    (first.symbols ++ second.symbols).all fun symbol =>
      first.alternatives? symbol = second.alternatives? symbol

/-- The definition of one alternative as a line of text. -/
def definitionLine (symbol : String) (alternative : Alternative) : String :=
  symbol ++ " -> " ++ alternative.text ++ "\n"

/-- The lines of a listing, one for each alternative of each rule. -/
def definitions (grammar : Grammar) : List String :=
  grammar.rules.flatMap fun rule => rule.alternatives.map (definitionLine rule.symbol)

/-- The grammar listed alternative by alternative below a heading. -/
def listing (grammar : Grammar) : String :=
  "Grammar:\n" ++ String.join grammar.definitions

end Grammar

end Chomsky
