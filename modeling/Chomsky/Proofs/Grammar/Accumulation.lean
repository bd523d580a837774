import Mathlib.Data.List.Nodup
import Chomsky.Grammar.Lookup

/-!
# Definitions that add up

A symbol may be defined in several places, and what is said of it there adds
up. What holds of every definition and is kept when two of them are merged holds
of every rule (`forall_rules_ofRules`). A grammar that is taken apart into one
definition for each alternative builds itself up again (`ofRules_flatMap_split`).
-/

namespace Chomsky

/-- A rule taken apart into definitions of one alternative each. -/
def Rule.split (rule : Rule) : List Rule :=
  rule.alternatives.map fun alternative => ⟨rule.symbol, [alternative]⟩

variable {symbol : String} {rules : List Rule}

/-- Two definitions of a symbol one after the other are one with the alternatives
of both. -/
theorem extendRules_extendRules (first second : List Alternative) :
    extendRules symbol second (extendRules symbol first rules) =
      extendRules symbol (first ++ second) rules := by
  induction rules with
  | nil => simp [extendRules]
  | cons rule rest inductionHypothesis =>
      by_cases here : rule.symbol = symbol
      · simp [extendRules, here]
      · simp [extendRules, here, inductionHypothesis]

/-- A symbol without a rule is defined after all others. -/
theorem extendRules_of_notMem (fresh : symbol ∉ rules.map Rule.symbol)
    (added : List Alternative) : extendRules symbol added rules = rules ++ [⟨symbol, added⟩] := by
  induction rules with
  | nil => rfl
  | cons rule rest inductionHypothesis =>
      rw [List.map_cons, List.mem_cons, not_or] at fresh
      rw [extendRules, if_neg (Ne.symm fresh.1), inductionHypothesis fresh.2, List.cons_append]

/-- What holds of the rules and of a definition holds of the rules extended by that
definition, if merging keeps it. -/
theorem forall_extendRules {holds : Rule → Prop} {added : List Alternative}
    (merge : ∀ symbol first second, holds ⟨symbol, first⟩ → holds ⟨symbol, second⟩ →
      holds ⟨symbol, first ++ second⟩)
    (old : ∀ rule ∈ rules, holds rule) (new : holds ⟨symbol, added⟩) :
    ∀ rule ∈ extendRules symbol added rules, holds rule := by
  induction rules with
  | nil =>
      rw [extendRules, List.forall_mem_singleton]
      exact new
  | cons rule rest inductionHypothesis =>
      rw [List.forall_mem_cons] at old
      rw [extendRules]
      split
      · next same =>
          subst same
          rw [List.forall_mem_cons]
          exact ⟨merge rule.symbol rule.alternatives added old.1 new, old.2⟩
      · rw [List.forall_mem_cons]
        exact ⟨old.1, inductionHypothesis old.2⟩

namespace Grammar

variable {grammar : Grammar}

/-- A grammar is its start symbol and its rules. -/
@[ext] theorem ext {first second : Grammar} (start : first.start = second.start)
    (rules : first.rules = second.rules) : first = second := by
  cases first
  cases second
  cases start
  cases rules
  rfl

/-- A grammar with further definitions after its own. -/
def extend (grammar : Grammar) (rules : List Rule) : Grammar :=
  rules.foldl (fun grammar rule => grammar.addRule rule.symbol rule.alternatives) grammar

/-- Definitions may be added in two steps. -/
theorem extend_append (first second : List Rule) :
    grammar.extend (first ++ second) = (grammar.extend first).extend second :=
  List.foldl_append

/-- A last definition is added to what those before it build up. -/
theorem ofRules_concat (rules : List Rule) (rule : Rule) :
    ofRules (rules ++ [rule]) = (ofRules rules).addRule rule.symbol rule.alternatives :=
  extend_append rules [rule]

/-- Definitions do not touch the start symbol. -/
theorem start_extend (grammar : Grammar) (rules : List Rule) :
    (grammar.extend rules).start = grammar.start := by
  induction rules generalizing grammar with
  | nil => rfl
  | cons rule rest inductionHypothesis => exact inductionHypothesis _

/-- Without a start symbol of its own, a grammar has the default one. -/
theorem start_ofRules (rules : List Rule) : (ofRules rules).start = defaultStart :=
  start_extend empty rules

/-- What holds of a grammar's rules and of further definitions holds of the grammar
extended by them, if merging keeps it. -/
theorem forall_rules_extend {holds : Rule → Prop}
    (merge : ∀ symbol first second, holds ⟨symbol, first⟩ → holds ⟨symbol, second⟩ →
      holds ⟨symbol, first ++ second⟩)
    (old : ∀ rule ∈ grammar.rules, holds rule) (new : ∀ rule ∈ rules, holds rule) :
    ∀ rule ∈ (grammar.extend rules).rules, holds rule := by
  induction rules generalizing grammar with
  | nil => exact old
  | cons rule rest inductionHypothesis =>
      rw [List.forall_mem_cons] at new
      apply inductionHypothesis _ new.2
      exact forall_extendRules merge old new.1

/-- What holds of all definitions holds of every rule they build up, if merging
keeps it. -/
theorem forall_rules_ofRules {holds : Rule → Prop}
    (merge : ∀ symbol first second, holds ⟨symbol, first⟩ → holds ⟨symbol, second⟩ →
      holds ⟨symbol, first ++ second⟩)
    (each : ∀ rule ∈ rules, holds rule) : ∀ rule ∈ (ofRules rules).rules, holds rule :=
  forall_rules_extend merge (fun _ none => absurd none List.not_mem_nil) each

/-- Adding alternatives twice is adding them all at once. -/
theorem addRule_addRule (first second : List Alternative) :
    (grammar.addRule symbol first).addRule symbol second =
      grammar.addRule symbol (first ++ second) := by
  ext1
  · rfl
  · exact extendRules_extendRules first second

/-- Adding the alternatives of a defined symbol one by one adds them all. -/
theorem extend_split_addRule (before alternatives : List Alternative) :
    (grammar.addRule symbol before).extend (Rule.split ⟨symbol, alternatives⟩) =
      grammar.addRule symbol (before ++ alternatives) := by
  induction alternatives generalizing before with
  | nil => rw [List.append_nil]; rfl
  | cons alternative rest inductionHypothesis =>
      have first : (grammar.addRule symbol before).extend
            (Rule.split ⟨symbol, alternative :: rest⟩) =
          ((grammar.addRule symbol before).addRule symbol [alternative]).extend
            (Rule.split ⟨symbol, rest⟩) := rfl
      rw [first, addRule_addRule, inductionHypothesis, List.append_assoc, List.singleton_append]

/-- A rule that defines something may be taken apart. -/
theorem extend_split {rule : Rule} (defined : rule.alternatives ≠ []) :
    grammar.extend rule.split = grammar.addRule rule.symbol rule.alternatives := by
  obtain ⟨symbol, alternatives⟩ := rule
  obtain ⟨first, others, rfl⟩ := List.exists_cons_of_ne_nil defined
  exact extend_split_addRule [first] others

/-- Rules of further symbols that are taken apart are put together as they were. -/
theorem rules_extend_flatMap_split (distinct : ((grammar.rules ++ rules).map Rule.symbol).Nodup)
    (defined : ∀ rule ∈ rules, rule.alternatives ≠ []) :
    (grammar.extend (rules.flatMap Rule.split)).rules = grammar.rules ++ rules := by
  induction rules generalizing grammar with
  | nil => rw [List.append_nil]; rfl
  | cons rule rest inductionHypothesis =>
      rw [List.forall_mem_cons] at defined
      have fresh : rule.symbol ∉ grammar.rules.map Rule.symbol := by
        intro member
        rw [List.map_append, List.nodup_append] at distinct
        exact distinct.2.2 _ member _ (by simp) rfl
      have added : (grammar.addRule rule.symbol rule.alternatives).rules =
          grammar.rules ++ [rule] :=
        extendRules_of_notMem fresh rule.alternatives
      rw [List.flatMap_cons, extend_append, extend_split defined.1,
        inductionHypothesis _ defined.2, added, List.append_assoc, List.singleton_append]
      rwa [added, List.append_assoc, List.singleton_append]

/-- A grammar whose symbols all have alternatives is put together from one
definition for each alternative. -/
theorem ofRules_flatMap_split (start : grammar.start = defaultStart)
    (defined : ∀ rule ∈ grammar.rules, rule.alternatives ≠ []) :
    ofRules (grammar.rules.flatMap Rule.split) = grammar := by
  ext1
  · rw [start_ofRules, start]
  · exact rules_extend_flatMap_split grammar.distinct defined

end Grammar

end Chomsky
