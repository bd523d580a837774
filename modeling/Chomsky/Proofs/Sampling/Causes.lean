import Chomsky.Proofs.Sampling.Steering

/-!
# Where an expansion fails

A fault names a symbol that stands at the end of a chain of names from the symbol that is
sampled (`Faults.exists_leads`), and `Blocked` says what is in the way of an expansion there. A
chain that goes on below the last depth enters the steered levels at a symbol whose trees, if it
has any, are too high for them (`Faults.lt_of_depthExceeded`). So each fault is accounted for by
the grammar, or by a source that does not decide (`sampling_errors_have_causes`).
-/

namespace Chomsky

namespace Grammar

/-- A chain of so many steps leads from a symbol to another, each symbol on it naming the next
one. -/
inductive Leads (grammar : Grammar) : (steps : Nat) → String → String → Prop where
  | here (symbol : String) : Leads grammar 0 symbol symbol
  | step {steps : Nat} {symbol next last : String} (named : grammar.Names symbol next)
      (onward : Leads grammar steps next last) : Leads grammar (steps + 1) symbol last

/-- What a fault says of the symbol that it names, with so many levels left for it. -/
inductive Blocked (grammar : Grammar) : (levels : Nat) → ExpansionFault → Prop where
  | undefined {levels : Nat} {symbol : String} (absent : symbol ∉ grammar.symbols) :
      Blocked grammar (levels + 1) (.undefined symbol)
  | noAlternatives {levels : Nat} {symbol : String} (defined : symbol ∈ grammar.symbols)
      (useless : ∀ alternative ∈ grammar.alternatives symbol, alternative.isNormal = false) :
      Blocked grammar (levels + 1) (.noAlternatives symbol)
  | depthExceeded (symbol : String) : Blocked grammar 0 (.depthExceeded symbol)
  | undecided (levels : Nat) (symbol : String) : Blocked grammar (levels + 1) (.undecided symbol)

end Grammar

variable {grammar : Grammar} {heights : Heights} {levels depth above below : Nat}
  {symbol exceeded : String} {supply after : Supply} {fault : ExpansionFault}
  {alternatives : List Alternative}

/-- There are candidates at every depth unless no alternative is in normal form. -/
theorem isNormal_of_candidates_eq_nil (nothing : candidates heights depth alternatives = []) :
    ∀ alternative ∈ alternatives, alternative.isNormal = false := by
  have none : alternatives.filter Alternative.isNormal = [] := by
    simp only [candidates] at nothing
    split at nothing
    · split at nothing
      · next least found =>
          -- What the least height is taken from is a candidate itself.
          obtain ⟨⟨alternative, member, offered⟩, _⟩ := Heights.least?_eq_some_iff.mp found
          have kept := List.filter_eq_nil_iff.mp nothing alternative member
          exact absurd (decide_eq_true offered) kept
      · exact nothing
    · exact nothing
  simpa only [List.filter_eq_nil_iff, Bool.not_eq_true] using none

/-- A chosen pair names both of its symbols. -/
theorem names_of_choose {left right : Char}
    (rule : grammar.alternatives? symbol = some alternatives)
    (choice : supply.choose (candidates heights depth alternatives) =
      (some (.pair left right), after)) :
    grammar.Names symbol (String.singleton left) ∧
      grammar.Names symbol (String.singleton right) :=
  have member := mem_alternatives_of_choose rule choice
  ⟨.left member, .right member⟩

/-- A fault arises at the end of a chain to the symbol that it names, which takes one level for
every step. -/
theorem Faults.exists_leads (run : Faults grammar heights levels symbol supply fault after) :
    ∃ steps rest, steps + rest = levels ∧ grammar.Leads steps symbol fault.symbol ∧
      grammar.Blocked rest fault := by
  induction run with
  | depthExceeded symbol supply => exact ⟨0, 0, rfl, .here symbol, .depthExceeded symbol⟩
  | @undefined levels symbol supply rule =>
      exact ⟨0, levels + 1, Nat.zero_add _, .here symbol,
        .undefined (Grammar.alternatives?_eq_none_iff.mp rule)⟩
  | @noAlternatives levels symbol alternatives supply rule nothing =>
      refine ⟨0, levels + 1, Nat.zero_add _, .here symbol, .noAlternatives ?_ ?_⟩
      · rw [← Grammar.isSome_alternatives?_iff, rule, Option.isSome_some]
      · rw [Grammar.alternatives, rule, Option.getD_some]
        exact isNormal_of_candidates_eq_nil nothing
  | @undecided levels symbol =>
      exact ⟨0, levels + 1, Nat.zero_add _, .here symbol, .undecided levels symbol⟩
  | left rule choice _ leftHypothesis =>
      obtain ⟨steps, rest, rfl, chain, blocked⟩ := leftHypothesis
      exact ⟨steps + 1, rest, Nat.add_right_comm steps 1 rest,
        .step (names_of_choose rule choice).1 chain, blocked⟩
  | right rule choice _ _ rightHypothesis =>
      obtain ⟨steps, rest, rfl, chain, blocked⟩ := rightHypothesis
      exact ⟨steps + 1, rest, Nat.add_right_comm steps 1 rest,
        .step (names_of_choose rule choice).2 chain, blocked⟩

/-- The expansion that goes below the last depth passes through every depth before, and goes on
to the same end from there. -/
theorem Faults.exists_between
    (run : Faults grammar heights (above + below) symbol supply (.depthExceeded exceeded) after) :
    ∃ middle between, grammar.Leads above symbol middle ∧
      Faults grammar heights below middle between (.depthExceeded exceeded) after := by
  induction above generalizing symbol supply with
  | zero =>
      rw [Nat.zero_add] at run
      exact ⟨symbol, supply, .here symbol, run⟩
  | succ above inductionHypothesis =>
      rw [Nat.add_right_comm] at run
      cases run with
      | left rule choice leftFault =>
          obtain ⟨middle, between, chain, rest⟩ := inductionHypothesis leftFault
          exact ⟨middle, between, .step (names_of_choose rule choice).1 chain, rest⟩
      | right rule choice _ rightFault =>
          obtain ⟨middle, between, chain, rest⟩ := inductionHypothesis rightFault
          exact ⟨middle, between, .step (names_of_choose rule choice).2 chain, rest⟩

/-- A chain that is as long as there are levels leads below the last depth. -/
theorem Faults.leads_of_depthExceeded
    (run : Faults grammar heights levels symbol supply (.depthExceeded exceeded) after) :
    grammar.Leads levels symbol exceeded := by
  obtain ⟨steps, rest, rfl, chain, blocked⟩ := run.exists_leads
  cases blocked
  exact chain

/-- On the steered levels, no symbol with a tree that fits into them leads below the last
depth. -/
theorem Faults.lt_of_depthExceeded {height : Nat}
    (run : Faults grammar grammar.leastHeights levels symbol supply (.depthExceeded exceeded) after)
    (deep : levels ≤ steeredLevels) (least : grammar.LeastHeight symbol height) :
    levels < height := by
  by_contra low
  obtain ⟨stuck, undecided⟩ := run.eq_undecided (.steered least (Nat.le_of_not_lt low) deep)
  cases undecided

namespace Grammar

/-- Whatever goes wrong when a symbol is sampled is located in the file as a whole and has a
cause. A symbol is undefined if it has no rule, and without alternatives if it has a rule that
holds nothing in normal form; a chain of 128 steps at most leads to it. The depth is exceeded at
the end of a chain of 129 steps, of which the first 12 lead to a symbol that derives no word or
has a least height above 117. And a choice is left open only by a source that does not decide. -/
theorem sampling_errors_have_causes {start path : String} {error : ExpansionError}
    (failed : (grammar.sampleFrom start path supply).1 = .error error) :
    error.location = .whole path ∧
    (∀ symbol, error.cause = .undefined symbol →
      symbol ∉ grammar.symbols ∧ ∃ steps ≤ 128, grammar.Leads steps start symbol) ∧
    (∀ symbol, error.cause = .noAlternatives symbol →
      symbol ∈ grammar.symbols ∧
      (∀ alternative ∈ grammar.alternatives symbol, ∃ text, alternative = .unsupported text) ∧
      ∃ steps ≤ 128, grammar.Leads steps start symbol) ∧
    (∀ symbol, error.cause = .depthExceeded symbol →
      ∃ middle, grammar.Leads 12 start middle ∧ grammar.Leads 117 middle symbol ∧
        ((¬ ∃ word, grammar.Derives middle word) ∨
          ∃ height, grammar.LeastHeight middle height ∧ 117 < height)) ∧
    ∀ symbol, error.cause = .undecided symbol → ¬ supply.source.Decides := by
  obtain ⟨fault, run, rfl⟩ := sampleFrom_eq_error_iff.mp (Prod.ext failed rfl)
  obtain ⟨steps, rest, (levels : steps + rest = 129), chain, blocked⟩ := run.exists_leads
  refine ⟨rfl, ?undefined, ?noAlternatives, ?depthExceeded, ?undecided⟩
  case undefined =>
    rintro symbol rfl
    cases blocked with
    | undefined absent => exact ⟨absent, steps, by omega, chain⟩
  case noAlternatives =>
    rintro symbol rfl
    cases blocked with
    | noAlternatives defined useless =>
        refine ⟨defined, ?_, steps, by omega, chain⟩
        intro alternative member
        have notNormal := useless alternative member
        cases alternative with
        | terminal character => cases notNormal
        | pair left right => cases notNormal
        | unsupported text => exact ⟨text, rfl⟩
  case depthExceeded =>
    rintro symbol rfl
    have cut : Faults grammar grammar.leastHeights (12 + 117) start supply (.depthExceeded symbol)
      (grammar.sampleFrom start path supply).2 := run
    obtain ⟨middle, between, before, steered⟩ := cut.exists_between
    refine ⟨middle, before, steered.leads_of_depthExceeded, ?_⟩
    rw [or_iff_not_imp_left, not_not]
    rintro ⟨word, derivation⟩
    obtain ⟨tree, valid, _⟩ := derives_iff_exists_tree.mp derivation
    obtain ⟨height, _, least⟩ := exists_leastHeight valid
    exact ⟨height, least, steered.lt_of_depthExceeded (by decide) least⟩
  case undecided =>
    rintro symbol rfl decides
    exact run.ne_undecided decides symbol rfl

/-- A grammar that derives nothing, in which it depends on the words what goes wrong. -/
def fruitless : Grammar :=
  .ofRules [⟨"S", [.pair 'S' 'S', .pair 'X' 'T', .pair 'T' 'X']⟩, ⟨"T", [.unsupported "abc"]⟩]

/-- Small words pick the first pair again and again, a word in the middle the second one, and
the greatest word the third. -/
theorem sampling_errors_have_causes_fruitless :
    (fruitless.sampleFrom "S" "g.cnf" (.fresh (.listed (Array.replicate 129 0)))).1 =
        .error ⟨.whole "g.cnf", .depthExceeded "S"⟩ ∧
      (∃ middle, fruitless.Leads 12 "S" middle ∧ fruitless.Leads 117 middle "S" ∧
        ((¬ ∃ word, fruitless.Derives middle word) ∨
          ∃ height, fruitless.LeastHeight middle height ∧ 117 < height)) ∧
    (fruitless.sampleFrom "S" "g.cnf" (.fresh (.listed #[0, 0x80000000]))).1 =
        .error ⟨.whole "g.cnf", .undefined "X"⟩ ∧
      (∃ steps ≤ 128, fruitless.Leads steps "S" "X") ∧
    (fruitless.sampleFrom "S" "g.cnf" (.fresh (.listed #[0xFFFFFFFE]))).1 =
        .error ⟨.whole "g.cnf", .noAlternatives "T"⟩ ∧
      ∃ steps ≤ 128, fruitless.Leads steps "S" "T" := by
  have exceeded : (fruitless.sampleFrom "S" "g.cnf"
      (.fresh (.listed (Array.replicate 129 0)))).1 =
        .error ⟨.whole "g.cnf", .depthExceeded "S"⟩ := by decide +kernel
  have undefined : (fruitless.sampleFrom "S" "g.cnf" (.fresh (.listed #[0, 0x80000000]))).1 =
        .error ⟨.whole "g.cnf", .undefined "X"⟩ := by decide
  have empty : (fruitless.sampleFrom "S" "g.cnf" (.fresh (.listed #[0xFFFFFFFE]))).1 =
        .error ⟨.whole "g.cnf", .noAlternatives "T"⟩ := by decide
  have causes := sampling_errors_have_causes exceeded
  exact ⟨exceeded, causes.2.2.2.1 "S" rfl,
    undefined, ((sampling_errors_have_causes undefined).2.1 "X" rfl).2,
    empty, ((sampling_errors_have_causes empty).2.2.1 "T" rfl).2.2⟩

end Grammar

end Chomsky
