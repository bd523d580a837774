import Chomsky.Proofs.Chart.Recognition
import Chomsky.Proofs.Sampling.Runs

/-!
# Sampled words are parsed

Sampling expands a symbol from the top by random choices, a chart finds what
derives a word from its characters up. The two agree on what a grammar means:
the run behind a sampled word goes along a valid tree, and a chart finds a tree
for every word that has one.
-/

namespace Chomsky

variable {grammar : Grammar} {symbol path : String} {supply : Supply} {word : Word}

/-- A sampled word is derived from the symbol that it was sampled from. -/
theorem Grammar.derives_of_sampleFrom
    (sampled : (grammar.sampleFrom symbol path supply).1 = .ok word) :
    grammar.Derives symbol word := by
  obtain ⟨tree, run, spells⟩ := sampleFrom_eq_ok_iff.mp (Prod.ext sampled rfl)
  exact derives_iff_exists_tree.mpr ⟨tree, run.valid, spells⟩

/-- The chart of a derived word has a tree that spells the word. -/
theorem Chart.exists_tree?_of_derives (derivation : grammar.Derives symbol word) :
    ∃ tree, (build grammar word).tree? symbol = some tree ∧
      tree.leaves = word ∧ tree.spelled = String.ofList word := by
  obtain ⟨tree, found⟩ := Option.isSome_iff_exists.mp (isSome_tree?_iff.mpr derivation)
  have spells : tree.leaves = word := by
    rw [tree?_eq_head?] at found
    exact (Grammar.mem_trees_iff.mp (List.mem_of_head? found)).2
  exact ⟨tree, found, spells, congrArg String.ofList spells⟩

namespace Grammar

/-- Whatever the random source, a sampled word has characters and is parsed from
the symbol that it was sampled from, by a tree that spells it; one that was
sampled from the start symbol is a word of the grammar. -/
theorem sampled_word_parses (grammar : Grammar) (path : String) (supply : Supply) :
    (∀ symbol word, (grammar.sampleFrom symbol path supply).1 = .ok word →
      word ≠ [] ∧ ∃ tree, (Chart.build grammar word).tree? symbol = some tree ∧
        tree.leaves = word ∧ tree.spelled = String.ofList word) ∧
    ∀ word, (grammar.sample path supply).1 = .ok word →
      ∃ tree, parse? grammar word = some tree ∧ tree.leaves = word := by
  constructor
  · intro symbol word sampled
    have derivation := derives_of_sampleFrom sampled
    exact ⟨derivation.word_ne_nil, Chart.exists_tree?_of_derives derivation⟩
  · intro word sampled
    obtain ⟨tree, found, spells, _⟩ :=
      Chart.exists_tree?_of_derives (derives_of_sampleFrom sampled)
    exact ⟨tree, found, spells⟩

/-- The word zero picks the pair and each of the next two a character; what they
make is parsed. -/
theorem sampled_word_parses_of_bracketings :
    (bracketings.sample "g.cnf" (.fresh (.listed #[0, 0x80000000, 0x90000000]))).1 =
      .ok ['a', 'a'] ∧
    ∃ tree, parse? .bracketings ['a', 'a'] = some tree ∧ tree.leaves = ['a', 'a'] := by
  have sampled : (bracketings.sample "g.cnf"
      (.fresh (.listed #[0, 0x80000000, 0x90000000]))).1 = .ok ['a', 'a'] := by decide
  exact ⟨sampled, (sampled_word_parses .bracketings "g.cnf" _).2 _ sampled⟩

end Grammar

end Chomsky
