import Chomsky.Proofs.Grammar.Merging

/-!
# What definitions build up

Definitions of different symbols may stand in any order between each other. Of a grammar that
they build up, the symbols stand in the order in which they are first defined
(`Grammar.symbols_ofRules`), and what a symbol is looked up to depends on its own definitions
alone (`Grammar.alternatives?_ofRules`). By `Grammar.definitions_accumulate` definitions may
therefore be moved past those of other symbols.
-/

namespace Chomsky

/-- The definitions of one symbol, in their order. -/
def definitionsOf (symbol : String) (rules : List Rule) : List Rule :=
  rules.filter (·.symbol = symbol)

/-- What is said of a symbol in all its definitions, in their order. -/
def saidOf (symbol : String) (rules : List Rule) : List Alternative :=
  (definitionsOf symbol rules).flatMap Rule.alternatives

variable {symbol : String} {rule : Rule} {rules : List Rule}

/-- A last definition is one of its symbol. -/
theorem definitionsOf_concat :
    definitionsOf symbol (rules ++ [rule]) =
      definitionsOf symbol rules ++ if rule.symbol = symbol then [rule] else [] := by
  rw [definitionsOf, List.filter_append, List.filter_singleton, definitionsOf]
  by_cases here : rule.symbol = symbol
  · rw [decide_eq_true here, if_pos here]
    rfl
  · rw [decide_eq_false here, if_neg here]
    rfl

/-- What a last definition says of its symbol comes last. -/
theorem saidOf_concat :
    saidOf symbol (rules ++ [rule]) =
      saidOf symbol rules ++ if rule.symbol = symbol then rule.alternatives else [] := by
  rw [saidOf, definitionsOf_concat, List.flatMap_append, saidOf]
  by_cases here : rule.symbol = symbol
  · rw [if_pos here, if_pos here, List.flatMap_singleton]
  · rw [if_neg here, if_neg here, List.flatMap_nil]

/-- Nothing is said of a symbol that has no definition. -/
theorem saidOf_of_notMem (undefined : symbol ∉ rules.map Rule.symbol) :
    saidOf symbol rules = [] := by
  have missing : definitionsOf symbol rules = [] := by
    rw [definitionsOf, List.filter_eq_nil_iff]
    intro rule member here
    exact undefined (of_decide_eq_true here ▸ List.mem_map_of_mem member)
  rw [saidOf, missing, List.flatMap_nil]

/-- Without any definition there is nothing said either. -/
theorem getD_saidOf :
    (if definitionsOf symbol rules = [] then none else some (saidOf symbol rules)).getD [] =
      saidOf symbol rules := by
  split
  · next undefined => rw [saidOf, undefined, List.flatMap_nil, Option.getD_none]
  · rw [Option.getD_some]

/-- Reading the elements of one kind and writing them again leaves out the others. -/
theorem map_filterMap_of_kind {α β : Type} {read? : α → Option β} {write : β → α}
    {kind : α → Bool} (reads : ∀ element, (read? element).map write = Option.guard kind element)
    (elements : List α) : (elements.filterMap read?).map write = elements.filter kind := by
  rw [List.map_filterMap, ← List.filterMap_eq_filter]
  exact List.filterMap_congr fun element _ => reads element

/-- A last element counts only if it is new. -/
theorem eraseDups_concat {α : Type} [DecidableEq α] (elements : List α) (last : α) :
    (elements ++ [last]).eraseDups =
      if last ∈ elements then elements.eraseDups else elements.eraseDups ++ [last] := by
  rw [List.eraseDups_append, List.removeAll, List.filter_singleton, List.elem_eq_mem]
  by_cases known : last ∈ elements
  · rw [if_pos known, decide_eq_true known]
    exact List.append_nil _
  · rw [if_neg known, decide_eq_false known]
    rfl

namespace Grammar

/-- Definitions define their symbols, each where it is first defined. -/
theorem symbols_ofRules (rules : List Rule) :
    (ofRules rules).symbols = (rules.map Rule.symbol).eraseDups := by
  induction rules using List.reverseRecOn with
  | nil => rfl
  | append_singleton rules rule inductionHypothesis =>
      rw [ofRules_concat, symbols_addRule, inductionHypothesis, List.map_append,
        List.map_singleton, eraseDups_concat]
      simp only [List.mem_eraseDups]

/-- A symbol is looked up to what its definitions say of it, if there are any. -/
theorem alternatives?_ofRules (symbol : String) (rules : List Rule) :
    (ofRules rules).alternatives? symbol =
      if definitionsOf symbol rules = [] then none else some (saidOf symbol rules) := by
  induction rules using List.reverseRecOn with
  | nil => rfl
  | append_singleton rules rule inductionHypothesis =>
      rw [ofRules_concat, alternatives?_addRule, definitionsOf_concat, saidOf_concat]
      by_cases here : symbol = rule.symbol
      · subst here
        rw [if_pos rfl, alternatives, inductionHypothesis, getD_saidOf]
        simp
      · rw [if_neg here, inductionHypothesis]
        simp [Ne.symm here]

/-- The alternatives of a symbol are all that its definitions say of it. -/
theorem alternatives_ofRules (symbol : String) (rules : List Rule) :
    (ofRules rules).alternatives symbol = saidOf symbol rules := by
  rw [alternatives, alternatives?_ofRules, getD_saidOf]

/-- Definitions build up grammars that agree if those of each symbol are the same, in their
order. -/
theorem agrees_ofRules {first second : List Rule}
    (same : ∀ symbol, definitionsOf symbol first = definitionsOf symbol second) :
    (ofRules first).agrees (ofRules second) = true := by
  rw [agrees_iff]
  refine ⟨by rw [start_ofRules, start_ofRules], fun symbol => ?_⟩
  rw [alternatives?_ofRules, alternatives?_ofRules, saidOf, saidOf, same]

/-- The characters of a symbol, in order, are those of its terminal alternatives. -/
theorem map_terminals (grammar : Grammar) (symbol : String) :
    (grammar.terminals symbol).map .terminal =
      (grammar.alternatives symbol).filter (· matches .terminal _) :=
  map_filterMap_of_kind (by rintro (_ | _ | _) <;> rfl) _

/-- The names of a symbol, in order, are those of its pair alternatives. -/
theorem map_pairs (grammar : Grammar) (symbol : String) :
    (grammar.pairs symbol).map (fun names => .pair names.1 names.2) =
      (grammar.alternatives symbol).filter (· matches .pair _ _) :=
  map_filterMap_of_kind (by rintro (_ | _ | _) <;> rfl) _

/-- Whatever definitions are made one after the other, of which some may repeat a symbol or say
nothing: the symbols are those that are defined, each where it is first defined, and what a
symbol may be replaced by is all that is said of it, in the order in which it is said; its
characters and its pairs are the alternatives of those kinds. Definitions in another order
build up a grammar that agrees, if those of each symbol stay in their order. -/
theorem definitions_accumulate (rules : List Rule) :
    (ofRules rules).symbols = (rules.map Rule.symbol).eraseDups ∧
    (∀ symbol,
      (ofRules rules).alternatives symbol = saidOf symbol rules ∧
      (symbol ∉ rules.map Rule.symbol → (ofRules rules).alternatives symbol = []) ∧
      ((ofRules rules).terminals symbol).map .terminal =
        (saidOf symbol rules).filter (· matches .terminal _) ∧
      ((ofRules rules).pairs symbol).map (fun names => .pair names.1 names.2) =
        (saidOf symbol rules).filter (· matches .pair _ _)) ∧
    ∀ reordered, (∀ symbol, definitionsOf symbol reordered = definitionsOf symbol rules) →
      (ofRules reordered).agrees (ofRules rules) = true := by
  refine ⟨symbols_ofRules rules, fun symbol => ?_, fun reordered same => agrees_ofRules same⟩
  rw [map_terminals, map_pairs, alternatives_ofRules]
  exact ⟨rfl, saidOf_of_notMem, rfl, rfl⟩

/-- Two symbols of which one is defined before anything is said of it, and the other twice. -/
def interleaved : List Rule :=
  [⟨"S", [.pair 'A' 'S']⟩, ⟨"A", []⟩, ⟨"S", [.terminal 's', .unsupported "SAS"]⟩,
    ⟨"A", [.terminal 'a', .pair 'A' 'A']⟩]

/-- The same definitions, with those of one symbol before those of the other. -/
def grouped : List Rule :=
  [⟨"A", []⟩, ⟨"A", [.terminal 'a', .pair 'A' 'A']⟩, ⟨"S", [.pair 'A' 'S']⟩,
    ⟨"S", [.terminal 's', .unsupported "SAS"]⟩]

/-- Grouped definitions build up other rules than interleaved ones, and still grammars that
agree. -/
theorem definitions_accumulate_grouped :
    (∀ symbol, definitionsOf symbol grouped = definitionsOf symbol interleaved) ∧
    ofRules grouped ≠ ofRules interleaved ∧
    (ofRules grouped).agrees (ofRules interleaved) = true := by
  have same : ∀ symbol, definitionsOf symbol grouped = definitionsOf symbol interleaved := by
    intro symbol
    by_cases start : "S" = symbol
    · subst start
      rfl
    · by_cases other : "A" = symbol
      · subst other
        rfl
      · simp [definitionsOf, grouped, interleaved, start, other]
  exact ⟨same, by decide, (definitions_accumulate interleaved).2.2 grouped same⟩

end Grammar

end Chomsky
