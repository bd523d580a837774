import Chomsky.Proofs.Grammar.Merging
import Chomsky.Proofs.Source.Contribution

/-!
# Sources one after the other

The lines of a source that ends with a line go on contributing what they do when another source
follows, and so does that one (`IsTerminated.contributions_append`). What is said in either of
them adds up, whatever lines it is scattered over, to the merged grammar. Idle lines contribute
nothing, so that they may be put in or taken out between any two lines
(`joined_sources_merge`).
-/

namespace Chomsky

/-- A source that ends with a line, if it has any. -/
def IsTerminated (source : Bytes) : Prop :=
  source = [] ∨ source.getLast? = some lineFeed

/-- A blank line or a comment: one whose first visible character, if there is any, is a
semicolon. -/
def IsIdle (line : Option String) : Prop :=
  ∃ text, line = some text ∧
    ∀ character, (text.toList.find? fun character => !isBlank character) = some character →
      character = ';'

variable {path : String} {first second source skipped before after : Bytes}
  {grammar : Grammar}

/-- Behind its last line, a source goes on with the lines of another one. -/
theorem IsTerminated.contributions_append (terminated : IsTerminated first) (second : Bytes) :
    contributions (first ++ second) = contributions first ++ contributions second := by
  rcases terminated with rfl | last
  · rfl
  · obtain ⟨lines, rfl⟩ := List.getLast?_eq_some_iff.mp last
    have nothing : contributions [] = [] := rfl
    rw [List.append_assoc, List.singleton_append, contributions_append_lineFeed,
      contributions_append_lineFeed, nothing, List.append_nil]

/-- An idle line contributes nothing. -/
theorem IsIdle.contribution_eq_nil {line : Option String} (idle : IsIdle line) :
    contribution line = [] := by
  obtain ⟨text, rfl, visible⟩ := idle
  rw [contribution, isRuleLine_eq_any, if_neg]
  rw [Option.any_eq_true]
  rintro ⟨character, found, other⟩
  simp [visible character found] at other

/-- Idle lines contribute nothing together. -/
theorem contributions_eq_nil_of_idle (idle : ∀ line ∈ lines skipped, IsIdle line) :
    contributions skipped = [] := by
  rw [contributions, List.flatMap_eq_nil_iff]
  exact fun line member => (idle line member).contribution_eq_nil

/-- Sources that contribute the same are accepted as the same grammar. -/
theorem readGrammar_eq_ok_congr (same : contributions first = contributions second) :
    readGrammar path first = .ok grammar ↔ readGrammar path second = .ok grammar := by
  rw [readGrammar_eq_ok_iff_contributions, readGrammar_eq_ok_iff_contributions, same]

/-- Idle lines may stand between the lines of a source or at its end. -/
theorem contributions_insert_idle (idle : ∀ line ∈ lines skipped, IsIdle line)
    (terminated : IsTerminated before) (between : IsTerminated skipped ∨ after = []) :
    contributions (before ++ skipped ++ after) = contributions (before ++ after) := by
  rw [List.append_assoc, terminated.contributions_append, terminated.contributions_append]
  rcases between with skippedTerminated | rfl
  · rw [skippedTerminated.contributions_append, contributions_eq_nil_of_idle idle,
      List.nil_append]
  · rw [List.append_nil, contributions_eq_nil_of_idle idle]
    rfl

/-- Of two accepted sources, the first of which ends with a line, the whole is accepted, and what
it spells is what either spells, merged: first the symbols of the first grammar, then the new
ones of the second, each with its alternatives from the first grammar before those from the
second. Idle lines that are put in in front of any line or behind the last one, whether or not
that ends with a line feed, make no difference to the grammar that is accepted. -/
theorem joined_sources_merge {firstPath secondPath : String}
    {firstGrammar secondGrammar : Grammar} (terminated : IsTerminated first)
    (firstRead : readGrammar firstPath first = .ok firstGrammar)
    (secondRead : readGrammar secondPath second = .ok secondGrammar) (path : String) :
    readGrammar path (first ++ second) = .ok (firstGrammar.merge secondGrammar) ∧
    (firstGrammar.merge secondGrammar).symbols =
      firstGrammar.symbols ++ secondGrammar.symbols.filter (· ∉ firstGrammar.symbols) ∧
    (∀ symbol, (firstGrammar.merge secondGrammar).alternatives symbol =
      firstGrammar.alternatives symbol ++ secondGrammar.alternatives symbol) ∧
    ∀ skipped : Bytes, (∀ line ∈ lines skipped, IsIdle line) →
      (∀ before after grammar, IsTerminated before → (IsTerminated skipped ∨ after = []) →
        (readGrammar path (before ++ skipped ++ after) = .ok grammar ↔
          readGrammar path (before ++ after) = .ok grammar)) ∧
      ∀ source grammar,
        (readGrammar path (source ++ lineFeed :: skipped) = .ok grammar ↔
          readGrammar path source = .ok grammar) := by
  refine ⟨?merged, Grammar.symbols_merge _ _, Grammar.alternatives_merge _ _, ?skips⟩
  case merged =>
    obtain ⟨firstRules, firstSpelled, rfl⟩ := readGrammar_eq_ok_iff_contributions.mp firstRead
    obtain ⟨secondRules, secondSpelled, rfl⟩ := readGrammar_eq_ok_iff_contributions.mp secondRead
    rw [Grammar.merge_ofRules, readGrammar_eq_ok_iff_contributions]
    refine ⟨firstRules ++ secondRules, ?_, rfl⟩
    rw [terminated.contributions_append, firstSpelled, secondSpelled, List.map_append]
  case skips =>
    intro skipped idle
    constructor
    · intro before after grammar beforeTerminated between
      exact readGrammar_eq_ok_congr (contributions_insert_idle idle beforeTerminated between)
    · intro source grammar
      apply readGrammar_eq_ok_congr
      rw [contributions_append_lineFeed, contributions_eq_nil_of_idle idle, List.append_nil]

/-- Two rules are scattered over both sources, and the last line ends with a carriage return that
becomes part of a line end when a blank line and a comment follow. -/
theorem joined_sources_merge_scattered :
    let first := encode "S -> AB\r\n; S\nA -> a\n"
    let second := encode "B -> b\nA->c\nS -> b|SS\r"
    let skipped := encode " \t\n;-> |"
    let merged := Grammar.ofRules
      [⟨"S", [.pair 'A' 'B', .terminal 'b', .pair 'S' 'S']⟩, ⟨"A", [.terminal 'a', .terminal 'c']⟩,
        ⟨"B", [.terminal 'b']⟩]
    readGrammar "joined" (first ++ second) = .ok merged ∧
      readGrammar "joined" (first ++ second ++ lineFeed :: skipped) = .ok merged := by
  intro first second skipped merged
  have terminated : IsTerminated first := .inr rfl
  have firstRead : readGrammar "first" first =
      .ok (.ofRules [⟨"S", [.pair 'A' 'B']⟩, ⟨"A", [.terminal 'a']⟩]) := rfl
  have secondRead : readGrammar "second" second =
      .ok (.ofRules [⟨"B", [.terminal 'b']⟩, ⟨"A", [.terminal 'c']⟩,
        ⟨"S", [.terminal 'b', .pair 'S' 'S']⟩]) := rfl
  have joined := joined_sources_merge terminated firstRead secondRead "joined"
  have whole : readGrammar "joined" (first ++ second) = .ok merged := joined.1
  have idle : ∀ line ∈ lines skipped, IsIdle line := by
    have cut : lines skipped = [some " \t", some ";-> |"] := rfl
    rw [cut, List.forall_mem_cons, List.forall_mem_singleton]
    refine ⟨⟨_, rfl, ?_⟩, ⟨_, rfl, ?_⟩⟩
    · rintro character ⟨⟩
    · rintro character ⟨⟩
      rfl
  exact ⟨whole, ((joined.2.2.2 skipped idle).2 (first ++ second) merged).mpr whole⟩

end Chomsky
