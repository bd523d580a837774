import Mathlib.Data.List.Basic
import Chomsky.Grammar.Lookup
import Chomsky.Grammar.Productions

/-!
# The productions of one symbol

A chart reads the productions of all rules as one list. Seen from a single
symbol that list is the symbol's own alternatives in their order, whatever
stands between them: `filter_terminalProductions` and `filter_pairProductions`
are all that the rest of the theory needs to know about the order of rules.
-/

namespace Chomsky

/-- No rule is found for a symbol that has none. -/
theorem find?_rules_eq_none {symbol : String} {rules : List Rule}
    (undefined : symbol ∉ rules.map Rule.symbol) : rules.find? (·.symbol = symbol) = none := by
  rw [List.find?_eq_none]
  intro rule member found
  exact undefined (of_decide_eq_true found ▸ List.mem_map_of_mem member)

/-- When no symbol has two rules, what the rules of one symbol contribute is
what its alternatives contribute. -/
theorem flatMap_rules_of_symbol {β : Type} (contribution : List Alternative → List β)
    (nothing : contribution [] = []) (symbol : String) {rules : List Rule}
    (distinct : (rules.map Rule.symbol).Nodup) :
    (rules.flatMap fun rule =>
        if rule.symbol = symbol then contribution rule.alternatives else []) =
      contribution
        (((rules.find? (·.symbol = symbol)).map Rule.alternatives).getD []) := by
  induction rules with
  | nil => simp [nothing]
  | cons rule rest inductionHypothesis =>
      rw [List.map_cons, List.nodup_cons] at distinct
      have later := inductionHypothesis distinct.2
      by_cases here : rule.symbol = symbol
      · rw [find?_rules_eq_none (here ▸ distinct.1)] at later
        simpa [here, nothing] using later
      · simpa [here] using later

namespace Grammar

/-- Productions of any kind, gathered from all rules, are for one symbol the
alternatives of that kind which the symbol has. -/
theorem filter_owner_productions {Part Production : Type} (grammar : Grammar)
    (part? : Alternative → Option Part) (production : String → Part → Production)
    (owner : Production → String)
    (owned : ∀ symbol part, owner (production symbol part) = symbol) (symbol : String) :
    (grammar.rules.flatMap fun rule => rule.alternatives.filterMap fun alternative =>
        (part? alternative).map (production rule.symbol)).filter (owner · = symbol) =
      ((grammar.alternatives symbol).filterMap part?).map (production symbol) := by
  have perRule : ∀ rule : Rule,
      (rule.alternatives.filterMap fun alternative =>
          (part? alternative).map (production rule.symbol)).filter (owner · = symbol) =
        if rule.symbol = symbol then
          (rule.alternatives.filterMap part?).map (production symbol)
        else [] := by
    intro rule
    rw [← List.map_filterMap, List.filter_map]
    by_cases here : rule.symbol = symbol
    · simp [Function.comp_def, owned, here]
    · simp [Function.comp_def, owned, here]
  rw [List.filter_flatMap]
  simp only [perRule]
  exact flatMap_rules_of_symbol
    (fun alternatives => (alternatives.filterMap part?).map (production symbol))
    rfl symbol grammar.distinct

variable (grammar : Grammar) (symbol : String)

/-- The terminal productions of a symbol are its terminal alternatives. -/
theorem filter_terminalProductions :
    grammar.terminalProductions.filter (·.symbol = symbol) =
      (grammar.terminals symbol).map (TerminalProduction.mk symbol) :=
  grammar.filter_owner_productions Alternative.terminal? TerminalProduction.mk
    TerminalProduction.symbol (fun _ _ => rfl) symbol

/-- The pair production by which a symbol is replaced by two named ones. -/
def pairProduction (names : Char × Char) : PairProduction :=
  ⟨symbol, String.singleton names.1, String.singleton names.2⟩

/-- The pair productions of a symbol are its pair alternatives. -/
theorem filter_pairProductions :
    grammar.pairProductions.filter (·.symbol = symbol) =
      (grammar.pairs symbol).map (pairProduction symbol) :=
  grammar.filter_owner_productions Alternative.pair? pairProduction
    PairProduction.symbol (fun _ _ => rfl) symbol

/-- A symbol with alternatives is defined. -/
theorem mem_symbols_of_mem_alternatives {grammar : Grammar} {symbol : String}
    {alternative : Alternative} (member : alternative ∈ grammar.alternatives symbol) :
    symbol ∈ grammar.symbols := by
  by_contra undefined
  rw [← alternatives?_eq_none_iff] at undefined
  simp [alternatives, undefined] at member

/-- A character is among a symbol's terminals as often as its terminal
alternative is among the symbol's alternatives. -/
theorem count_terminals (character : Char) :
    (grammar.terminals symbol).count character =
      (grammar.alternatives symbol).count (.terminal character) := by
  rw [terminals, List.count_filterMap, List.count_eq_countP]
  refine List.countP_congr fun alternative _ => ?_
  cases alternative <;> simp [Alternative.terminal?]

/-- Two names are among a symbol's pairs as often as their alternative is among
the symbol's alternatives. -/
theorem count_pairs (names : Char × Char) :
    (grammar.pairs symbol).count names =
      (grammar.alternatives symbol).count (.pair names.1 names.2) := by
  rw [pairs, List.count_filterMap, List.count_eq_countP]
  refine List.countP_congr fun alternative _ => ?_
  cases alternative <;> simp [Alternative.pair?, Prod.ext_iff]

/-- The characters of a symbol are those of its terminal alternatives. -/
theorem mem_terminals_iff {grammar : Grammar} {symbol : String} {character : Char} :
    character ∈ grammar.terminals symbol ↔ .terminal character ∈ grammar.alternatives symbol := by
  rw [← List.count_pos_iff, count_terminals, List.count_pos_iff]

/-- The pairs of a symbol are those of its pair alternatives. -/
theorem mem_pairs_iff {grammar : Grammar} {symbol : String} {names : Char × Char} :
    names ∈ grammar.pairs symbol ↔ .pair names.1 names.2 ∈ grammar.alternatives symbol := by
  rw [← List.count_pos_iff, count_pairs, List.count_pos_iff]

end Grammar

end Chomsky
