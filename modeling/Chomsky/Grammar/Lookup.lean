import Chomsky.Grammar.Basic

/-!
# Looking symbols up

Every operation on a grammar is determined by what it does to the alternatives
of each symbol, and two grammars agree exactly when their lookups do.
-/

namespace Chomsky

namespace Grammar

/-- A symbol has alternatives exactly when it is defined. -/
theorem isSome_alternatives?_iff {grammar : Grammar} {symbol : String} :
    (grammar.alternatives? symbol).isSome ↔ symbol ∈ grammar.symbols := by
  simp [alternatives?, symbols]

/-- A symbol that is not defined has no alternatives. -/
theorem alternatives?_eq_none_iff {grammar : Grammar} {symbol : String} :
    grammar.alternatives? symbol = none ↔ symbol ∉ grammar.symbols := by
  rw [← isSome_alternatives?_iff]
  cases grammar.alternatives? symbol <;> simp

/-- Looking a symbol up in extended rules finds what it had with the new
alternatives after it, and for any other symbol what it had. -/
theorem find?_extendRules (symbol sought : String) (added : List Alternative)
    (rules : List Rule) :
    ((extendRules symbol added rules).find? (·.symbol = sought)).map Rule.alternatives =
      if sought = symbol then
        some (((rules.find? (·.symbol = sought)).map Rule.alternatives).getD [] ++ added)
      else (rules.find? (·.symbol = sought)).map Rule.alternatives := by
  induction rules with
  | nil =>
      by_cases same : sought = symbol
      · simp [extendRules, same]
      · simp [extendRules, same, Ne.symm same]
  | cons rule rest inductionHypothesis =>
      by_cases here : rule.symbol = symbol
      · by_cases same : sought = symbol
        · simp [extendRules, here, same]
        · simp [extendRules, here, same, Ne.symm same]
      · by_cases found : rule.symbol = sought
        · have different : sought ≠ symbol := fun same => here (found.trans same)
          simp [extendRules, found, different]
        · simpa [extendRules, here, found, List.find?_cons] using inductionHypothesis

/-- Adding a rule appends to one symbol's alternatives and leaves the others. -/
theorem alternatives?_addRule (grammar : Grammar) (symbol sought : String)
    (added : List Alternative) :
    (grammar.addRule symbol added).alternatives? sought =
      if sought = symbol then some (grammar.alternatives sought ++ added)
      else grammar.alternatives? sought :=
  find?_extendRules symbol sought added grammar.rules

/-- Adding a rule defines its symbol last unless it was defined before. -/
theorem symbols_addRule (grammar : Grammar) (symbol : String)
    (added : List Alternative) :
    (grammar.addRule symbol added).symbols =
      if symbol ∈ grammar.symbols then grammar.symbols
      else grammar.symbols ++ [symbol] :=
  symbols_extendRules symbol added grammar.rules

/-- The test for agreement decides it. -/
theorem agrees_iff {first second : Grammar} :
    first.agrees second = true ↔ first.Equivalent second := by
  simp only [agrees, Equivalent, Bool.and_eq_true, decide_eq_true_eq, List.all_eq_true]
  refine and_congr_right fun _ => ⟨fun same symbol => ?_, fun same symbol _ => same symbol⟩
  by_cases member : symbol ∈ first.symbols ++ second.symbols
  · exact same symbol member
  · rw [List.mem_append, not_or] at member
    rw [alternatives?_eq_none_iff.mpr member.1, alternatives?_eq_none_iff.mpr member.2]

instance (first second : Grammar) : Decidable (first.Equivalent second) :=
  decidable_of_iff _ agrees_iff

end Grammar

end Chomsky
