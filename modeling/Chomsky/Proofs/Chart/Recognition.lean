import Chomsky.Proofs.Chart.Unfolding

/-!
# Recognition is exact

A chart lists a symbol for a span exactly when the symbol derives the span's
characters. Derivability is `Grammar.Derives`, which knows of no chart, and the
grammar may be any: with symbols of any length, with pairs of undefined symbols
and with repeated or unsupported alternatives.
-/

namespace Chomsky

namespace Grammar

/-- Only defined symbols derive anything. -/
theorem Derives.mem_symbols {grammar : Grammar} {symbol : String} {word : Word}
    (derivation : grammar.Derives symbol word) : symbol ∈ grammar.symbols := by
  cases derivation with
  | terminal alternative => exact mem_symbols_of_mem_alternatives alternative
  | pair alternative _ _ => exact mem_symbols_of_mem_alternatives alternative

/-- The grammar `S -> SS | a`, whose trees over a word are its bracketings. -/
def bracketings : Grammar :=
  .ofRules [⟨"S", [.pair 'S' 'S', .terminal 'a']⟩]

/-- The grammar `S -> LR | LA | SS`, `A -> SR`, `L -> (`, `R -> )` of balanced parentheses, in
which an expansion may go on forever. -/
def parentheses : Grammar :=
  .ofRules [⟨"S", [.pair 'L' 'R', .pair 'L' 'A', .pair 'S' 'S']⟩, ⟨"A", [.pair 'S' 'R']⟩,
    ⟨"L", [.terminal '(']⟩, ⟨"R", [.terminal ')']⟩]

end Grammar

namespace Chart

variable {grammar : Grammar} {word : Word} {symbol : String}

/-- A symbol has a slot in a cell exactly when it derives the span. -/
theorem isSome_slot?_cell_iff {start width : Nat} (within : start + width ≤ word.length) :
    (((build grammar word).cell start width).slot? symbol).isSome ↔
      grammar.Derives symbol (word.span start width) := by
  rw [← Grammar.trees_ne_nil_iff, Ne, ← slot?_cell_eq_none_iff within,
    Option.isSome_iff_ne_none]

/-- The list of a span inside the word is the list of its cell. -/
theorem symbolsAt_of_within {first last : Nat} (ordered : first ≤ last)
    (within : last < word.length) :
    (build grammar word).symbolsAt first last =
      ((build grammar word).cell first (last - first + 1)).symbols := by
  rw [symbolsAt, size_build, if_pos ⟨ordered, within⟩]

theorem mem_symbolsAt_iff {first last : Nat} (ordered : first ≤ last)
    (within : last < word.length) :
    symbol ∈ (build grammar word).symbolsAt first last ↔
      grammar.Derives symbol (word.span first (last - first + 1)) := by
  rw [symbolsAt_of_within ordered within, ← Cell.isSome_slot?_iff,
    isSome_slot?_cell_iff (by omega)]

theorem nodup_symbolsAt {first last : Nat} (ordered : first ≤ last)
    (within : last < word.length) :
    ((build grammar word).symbolsAt first last).Nodup := by
  rw [symbolsAt_of_within ordered within]
  exact (wellFormed_cell grammar word (by omega)).distinct

theorem derives_iff : (build grammar word).derives symbol ↔ grammar.Derives symbol word := by
  rw [derives, root?, size_build, isSome_slot?_cell_iff (by omega), Word.span_zero_length]

theorem isSome_tree?_iff :
    ((build grammar word).tree? symbol).isSome ↔ grammar.Derives symbol word := by
  rw [tree?_eq_head?, List.isSome_head?, ← Grammar.trees_ne_nil_iff]

/-- A chart lists exactly the derivable symbols of every span of the word, each
of them once, and nothing for other positions; it answers for the whole word, and
a word is parsed, exactly when there is a derivation. -/
theorem build_recognizes_exactly (grammar : Grammar) (word : Word) :
    (∀ first last, last < first ∨ word.length ≤ last →
      (build grammar word).symbolsAt first last = []) ∧
    (∀ first last, first ≤ last → last < word.length →
      ((build grammar word).symbolsAt first last).Nodup ∧
        ∀ symbol, symbol ∈ (build grammar word).symbolsAt first last ↔
          symbol ∈ grammar.symbols ∧
            grammar.Derives symbol (word.span first (last - first + 1))) ∧
    (∀ symbol, (build grammar word).derives symbol ↔ grammar.Derives symbol word) ∧
    ((parse? grammar word).isSome ↔ grammar.Derives grammar.start word) ∧
    (∀ symbol, (build grammar []).derives symbol = false) ∧
    parse? grammar [] = none := by
  refine ⟨?outside, ?inside, fun symbol => derives_iff, isSome_tree?_iff, ?nothing, ?unparsed⟩
  case outside =>
    intro first last misplaced
    rw [symbolsAt, size_build, if_neg (by omega)]
  case inside =>
    intro first last ordered within
    refine ⟨nodup_symbolsAt ordered within, fun symbol => ?_⟩
    rw [mem_symbolsAt_iff ordered within]
    exact ⟨fun derivation => ⟨derivation.mem_symbols, derivation⟩, And.right⟩
  case nothing =>
    intro symbol
    rw [Bool.eq_false_iff, Ne, derives_iff]
    exact fun derivation => derivation.word_ne_nil rfl
  case unparsed =>
    rw [parse?, tree?_eq_head?, Grammar.trees_nil, List.head?_nil]

/-- In `aaa` the last two characters are derived by the one symbol, and a span
that ends behind the word by none. -/
theorem build_recognizes_exactly_of_bracketings :
    (1 ≤ 2 ∧ 2 < ['a', 'a', 'a'].length ∧
      (build .bracketings ['a', 'a', 'a']).symbolsAt 1 2 = ["S"] ∧
      ("S" ∈ (build .bracketings ['a', 'a', 'a']).symbolsAt 1 2 ↔
        "S" ∈ Grammar.bracketings.symbols ∧ Grammar.bracketings.Derives "S" ['a', 'a'])) ∧
    ['a', 'a', 'a'].length ≤ 3 ∧
      (build .bracketings ['a', 'a', 'a']).symbolsAt 2 3 = [] :=
  have exact := build_recognizes_exactly .bracketings ['a', 'a', 'a']
  ⟨⟨by decide, by decide, by decide, (exact.2.1 1 2 (by decide) (by decide)).2 "S"⟩,
    by decide, exact.1 2 3 (.inr (by decide))⟩

end Chart

end Chomsky
