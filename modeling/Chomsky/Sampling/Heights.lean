import Chomsky.Grammar.Basic

/-!
# Least heights

The least height of a symbol is the least number of rules that are nested on
the way to a terminal word; a symbol that derives no word has none. Heights are
found by passes over all rules. After as many passes as a height says, that
height is known, and no height exceeds the number of rules, because a tree of
least height has no symbol twice on a way down.
-/

namespace Chomsky

/-- The symbols whose least height is known. -/
abbrev Heights := List (String × Nat)

namespace Heights

/-- The least height of the trees that start with an alternative, as far as
the heights of its symbols are known. -/
def ofAlternative? (heights : Heights) : Alternative → Option Nat
  | .terminal _ => some 1
  | .pair left right =>
      match heights.lookup (String.singleton left), heights.lookup (String.singleton right) with
      | some leftHeight, some rightHeight => some (max leftHeight rightHeight + 1)
      | _, _ => none
  | .unsupported _ => none

/-- The least height that any of the alternatives offers. -/
def least? (heights : Heights) (alternatives : List Alternative) : Option Nat :=
  (alternatives.filterMap heights.ofAlternative?).min?

/-- The heights that one pass over the rules finds with what was known. -/
def pass (grammar : Grammar) (known : Heights) : Heights :=
  grammar.rules.filterMap fun rule =>
    (known.least? rule.alternatives).map fun height => (rule.symbol, height)

/-- The heights after at most the given number of passes. A pass that finds
nothing new is the last one that matters. -/
def settle (grammar : Grammar) : (passes : Nat) → Heights → Heights
  | 0, known => known
  | passes + 1, known =>
      if pass grammar known = known then known
      else settle grammar passes (pass grammar known)

end Heights

/-- The least height of every symbol that derives a word. -/
def Grammar.leastHeights (grammar : Grammar) : Heights :=
  Heights.settle grammar grammar.rules.length []

end Chomsky
