import Mathlib.Data.List.Induction
import Chomsky.Proofs.Grammar.Accumulation
import Chomsky.Proofs.Grammar.Agreement
import Chomsky.Proofs.Grammar.Productions

/-!
# Merging grammars

A grammar is merged into another one by adding its rules to it, symbol by symbol. For what comes
out it makes no difference whether definitions were grouped by their symbols before
(`Grammar.extend_rules_ofRules`): a definition may be moved up to an earlier one of its symbol,
since nothing in between can tell (`Grammar.extend_addRule`). The symbols and alternatives of a
merged grammar are those of its parts one after the other (`Grammar.symbols_merge`,
`Grammar.alternatives_merge`).
-/

namespace Chomsky

variable {symbol other : String} {added : List Alternative} {rules : List Rule}

/-- What is said of a defined symbol may be said before or after what is said of another one. -/
theorem extendRules_comm (defined : symbol ∈ rules.map Rule.symbol) (different : symbol ≠ other)
    (first second : List Alternative) :
    extendRules other second (extendRules symbol first rules) =
      extendRules symbol first (extendRules other second rules) := by
  induction rules with
  | nil => cases defined
  | cons rule rest inductionHypothesis =>
      by_cases here : rule.symbol = symbol
      · have elsewhere : rule.symbol ≠ other := here ▸ different
        simp only [extendRules, if_pos here, if_neg elsewhere]
      · rw [List.map_cons, List.mem_cons] at defined
        have later := inductionHypothesis (defined.resolve_left (Ne.symm here))
        by_cases there : rule.symbol = other
        · simp only [extendRules, if_neg here, if_pos there]
        · simp only [extendRules, if_neg here, if_neg there, later]

namespace Grammar

variable {grammar first second : Grammar}

/-- A grammar with all that another one says of its symbols, one after the other, behind what it
says of them itself. -/
def merge (first second : Grammar) : Grammar :=
  second.symbols.foldl
    (fun grammar symbol => grammar.addRule symbol (second.alternatives symbol)) first

/-- The first of further definitions is added before the others. -/
theorem extend_cons (grammar : Grammar) (rule : Rule) (rest : List Rule) :
    grammar.extend (rule :: rest) =
      (grammar.addRule rule.symbol rule.alternatives).extend rest :=
  rfl

/-- A rule that is added defines its symbol and leaves the other ones defined. -/
theorem mem_symbols_addRule :
    other ∈ (grammar.addRule symbol added).symbols ↔ other ∈ grammar.symbols ∨ other = symbol := by
  rw [symbols_addRule]
  split
  · next defined => exact ⟨.inl, fun either => either.elim id fun same => same ▸ defined⟩
  · rw [List.mem_append, List.mem_singleton]

/-- A rule that is added gives its symbol further alternatives and no other symbol any. -/
theorem alternatives_addRule (grammar : Grammar) (symbol other : String)
    (added : List Alternative) :
    (grammar.addRule symbol added).alternatives other =
      grammar.alternatives other ++ if symbol = other then added else [] := by
  rw [alternatives, alternatives?_addRule]
  by_cases here : other = symbol
  · rw [if_pos here, if_pos here.symm, Option.getD_some]
  · rw [if_neg here, if_neg (Ne.symm here), List.append_nil, alternatives]

/-- A symbol that is defined already may be added to before or after definitions of others. -/
theorem extend_addRule (defined : symbol ∈ grammar.symbols)
    (absent : symbol ∉ rules.map Rule.symbol) :
    (grammar.addRule symbol added).extend rules = (grammar.extend rules).addRule symbol added := by
  induction rules generalizing grammar with
  | nil => rfl
  | cons rule rest inductionHypothesis =>
      rw [List.map_cons, List.mem_cons, not_or] at absent
      have swapped : (grammar.addRule symbol added).addRule rule.symbol rule.alternatives =
          (grammar.addRule rule.symbol rule.alternatives).addRule symbol added := by
        ext1
        · rfl
        · exact extendRules_comm defined absent.1 added rule.alternatives
      have kept : symbol ∈ (grammar.addRule rule.symbol rule.alternatives).symbols :=
        mem_symbols_addRule.mpr (.inl defined)
      rw [extend_cons, swapped, inductionHypothesis kept absent.2, extend_cons]

/-- Extending a grammar by definitions that were extended before is extending it twice. -/
theorem extend_extendRules (distinct : (rules.map Rule.symbol).Nodup) :
    grammar.extend (extendRules symbol added rules) =
      (grammar.extend rules).addRule symbol added := by
  induction rules generalizing grammar with
  | nil => rfl
  | cons rule rest inductionHypothesis =>
      rw [List.map_cons, List.nodup_cons] at distinct
      by_cases here : rule.symbol = symbol
      · subst here
        have defined : rule.symbol ∈ (grammar.addRule rule.symbol rule.alternatives).symbols :=
          mem_symbols_addRule.mpr (.inr rfl)
        rw [extendRules, if_pos rfl, extend_cons, ← addRule_addRule,
          extend_addRule defined distinct.1, extend_cons]
      · rw [extendRules, if_neg here]
        exact inductionHypothesis distinct.2

/-- Definitions extend a grammar alike if they are grouped by their symbols before. -/
theorem extend_rules_ofRules (grammar : Grammar) (rules : List Rule) :
    grammar.extend (ofRules rules).rules = grammar.extend rules := by
  induction rules using List.reverseRecOn with
  | nil => rfl
  | append_singleton front rule inductionHypothesis =>
      have grouped : (ofRules (front ++ [rule])).rules =
          extendRules rule.symbol rule.alternatives (ofRules front).rules :=
        congrArg Grammar.rules (ofRules_concat front rule)
      rw [grouped, extend_extendRules (ofRules front).distinct, inductionHypothesis, extend_append]
      rfl

/-- Merging adds the rules as they are. -/
theorem merge_eq_extend (first second : Grammar) :
    first.merge second = first.extend second.rules := by
  rw [merge, symbols, List.foldl_map, extend]
  apply List.foldl_ext
  intro grammar rule member
  rw [alternatives, mem_rules_iff.mp member, Option.getD_some]

/-- Merging what definitions build up is building up from all of them. -/
theorem merge_ofRules (first second : List Rule) :
    (ofRules first).merge (ofRules second) = ofRules (first ++ second) := by
  rw [merge_eq_extend, extend_rules_ofRules]
  exact (extend_append first second).symm

/-- Definitions of different symbols define those that were not defined before, in their order. -/
theorem symbols_extend (distinct : (rules.map Rule.symbol).Nodup) :
    (grammar.extend rules).symbols =
      grammar.symbols ++ (rules.map Rule.symbol).filter (· ∉ grammar.symbols) := by
  induction rules generalizing grammar with
  | nil => exact (List.append_nil _).symm
  | cons rule rest inductionHypothesis =>
      rw [List.map_cons, List.nodup_cons] at distinct
      rw [extend_cons, inductionHypothesis distinct.2, symbols_addRule, List.map_cons]
      by_cases defined : rule.symbol ∈ grammar.symbols
      · rw [if_pos defined, List.filter_cons_of_neg (by simpa using defined)]
      · rw [if_neg defined, List.filter_cons_of_pos (by simpa using defined), List.append_assoc,
          List.singleton_append]
        congr 2
        apply List.filter_congr
        intro later member
        have different : later ≠ rule.symbol := fun same => distinct.1 (same ▸ member)
        simp [different]

/-- Definitions add up to the alternatives of each symbol. -/
theorem alternatives_extend (grammar : Grammar) (rules : List Rule) (symbol : String) :
    (grammar.extend rules).alternatives symbol =
      grammar.alternatives symbol ++
        rules.flatMap fun rule => if rule.symbol = symbol then rule.alternatives else [] := by
  induction rules generalizing grammar with
  | nil => exact (List.append_nil _).symm
  | cons rule rest inductionHypothesis =>
      rw [extend_cons, inductionHypothesis, alternatives_addRule, List.flatMap_cons,
        List.append_assoc]

/-- A merged grammar defines the symbols of its first part, and then those of its second part
that are new. -/
theorem symbols_merge (first second : Grammar) :
    (first.merge second).symbols =
      first.symbols ++ second.symbols.filter (· ∉ first.symbols) := by
  rw [merge_eq_extend, symbols_extend second.distinct, ← symbols]

/-- A merged grammar gives a symbol the alternatives of its first part, and then those of its
second part. -/
theorem alternatives_merge (first second : Grammar) (symbol : String) :
    (first.merge second).alternatives symbol =
      first.alternatives symbol ++ second.alternatives symbol := by
  rw [merge_eq_extend, alternatives_extend]
  congr 1
  exact flatMap_rules_of_symbol id rfl symbol second.distinct

end Grammar

end Chomsky
