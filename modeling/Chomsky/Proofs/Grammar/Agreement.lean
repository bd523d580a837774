import Mathlib.Data.List.Nodup
import Chomsky.Grammar.Lookup

/-!
# Agreement of grammars

A grammar is a map from symbols to alternatives that remembers an order of its
symbols. Agreement forgets that order: by `agrees_iff_perm` two grammars agree
when one has the rules of the other in some order.
-/

namespace Chomsky

namespace Grammar

variable {first second grammar : Grammar} {symbol : String}

/-- The rule that a look-up finds is a rule of that symbol. -/
theorem mem_of_find?_rules {rule : Rule}
    (found : grammar.rules.find? (·.symbol = symbol) = some rule) :
    rule ∈ grammar.rules ∧ rule.symbol = symbol :=
  ⟨List.mem_of_find?_eq_some found, by simpa using List.find?_some found⟩

/-- The rules of a grammar are what its symbols are looked up to. -/
theorem mem_rules_iff {rule : Rule} :
    rule ∈ grammar.rules ↔ grammar.alternatives? rule.symbol = some rule.alternatives := by
  rw [alternatives?, Option.map_eq_some_iff]
  constructor
  · intro member
    obtain ⟨found, foundEq⟩ :
        ∃ found, grammar.rules.find? (·.symbol = rule.symbol) = some found := by
      rw [← Option.isSome_iff_exists, List.find?_isSome]
      exact ⟨rule, member, decide_eq_true rfl⟩
    obtain ⟨foundMember, sameSymbol⟩ := mem_of_find?_rules foundEq
    have same : found = rule :=
      List.inj_on_of_nodup_map grammar.distinct foundMember member sameSymbol
    exact ⟨found, foundEq, congrArg Rule.alternatives same⟩
  · rintro ⟨found, foundEq, sameAlternatives⟩
    obtain ⟨foundMember, sameSymbol⟩ := mem_of_find?_rules foundEq
    have same : found = rule := by
      cases found
      cases sameSymbol
      cases sameAlternatives
      rfl
    exact same ▸ foundMember

/-- The alternatives of a symbol are those of its rule. -/
theorem mem_alternatives_iff {alternative : Alternative} :
    alternative ∈ grammar.alternatives symbol ↔
      ∃ rule ∈ grammar.rules, rule.symbol = symbol ∧ alternative ∈ rule.alternatives := by
  constructor
  · intro member
    rw [alternatives] at member
    cases found : grammar.alternatives? symbol with
    | none =>
        rw [found] at member
        cases member
    | some alternatives =>
        rw [found] at member
        exact ⟨⟨symbol, alternatives⟩, mem_rules_iff.mpr found, rfl, member⟩
  · rintro ⟨rule, member, rfl, inside⟩
    rw [alternatives, mem_rules_iff.mp member]
    exact inside

/-- No rule stands twice in a grammar. -/
theorem nodup_rules (grammar : Grammar) : grammar.rules.Nodup :=
  .of_map _ grammar.distinct

/-- Equivalent grammars have the same rules, in any order. -/
theorem equivalent_iff_perm :
    first.Equivalent second ↔
      first.start = second.start ∧ first.rules.Perm second.rules := by
  rw [List.perm_ext_iff_of_nodup first.nodup_rules second.nodup_rules]
  refine and_congr_right fun _ => ⟨?_, ?_⟩
  · intro same rule
    rw [mem_rules_iff, mem_rules_iff, same]
  · intro same symbol
    apply Option.ext
    intro alternatives
    have here := same ⟨symbol, alternatives⟩
    rwa [mem_rules_iff, mem_rules_iff] at here

/-- Two grammars agree exactly when they have the same start symbol and the same
rules, in any order. -/
theorem agrees_iff_perm :
    first.agrees second = true ↔
      first.start = second.start ∧ first.rules.Perm second.rules :=
  agrees_iff.trans equivalent_iff_perm

/-- Equivalent grammars give a symbol the same alternatives. -/
theorem Equivalent.alternatives (equivalent : first.Equivalent second) (symbol : String) :
    first.alternatives symbol = second.alternatives symbol := by
  rw [Grammar.alternatives, Grammar.alternatives, equivalent.2]

/-- Equivalent grammars give a symbol the same characters. -/
theorem Equivalent.terminals (equivalent : first.Equivalent second) (symbol : String) :
    first.terminals symbol = second.terminals symbol := by
  rw [Grammar.terminals, Grammar.terminals, equivalent.alternatives]

/-- Equivalent grammars give a symbol the same pairs. -/
theorem Equivalent.pairs (equivalent : first.Equivalent second) (symbol : String) :
    first.pairs symbol = second.pairs symbol := by
  rw [Grammar.pairs, Grammar.pairs, equivalent.alternatives]

end Grammar

end Chomsky
