import Chomsky.Proofs.Grammar.Accumulation
import Chomsky.Proofs.Source.RuleLine
import Chomsky.Proofs.Text.Encoding
import Chomsky.Source.Reading

/-!
# Listings read back

A listing quotes nothing, so that it can be read again rests on what reading has
made sure of: every rule of a grammar that was read is legible
(`legible_of_readGrammar`). Its definitions, one to a line, are then rule lines
that spell just themselves, and they build the grammar up again
(`listing_reads_back`).
-/

namespace Chomsky

universe u v

variable {path : String} {source : Bytes} {grammar : Grammar}

/-- Results are collected into values exactly when these are the results. -/
theorem collect_eq_ok_iff_map {ε : Type u} {α : Type v} {results : List (Except ε α)}
    {values : List α} : collect results = .ok values ↔ results = values.map .ok := by
  rw [collect_eq_ok_iff]
  constructor
  · rintro ⟨noErrors, rfl⟩
    induction results with
    | nil => rfl
    | cons result rest inductionHypothesis =>
        cases result with
        | error fault => cases noErrors
        | ok value => exact congrArg (.ok value :: ·) (inductionHypothesis noErrors)
  · rintro rfl
    induction values with
    | nil => exact ⟨rfl, rfl⟩
    | cons value rest inductionHypothesis =>
        exact ⟨inductionHypothesis.1, congrArg (value :: ·) inductionHypothesis.2⟩

/-- A line contributes a rule when it is a rule line that spells it. -/
theorem readLine_eq_ok_iff {line : Option String} {number : Nat} {rule : Rule} :
    readLine path line number = some (.ok rule) ↔
      ∃ text, line = some text ∧ isRuleLine text = true ∧ Rule.ofLine text = .ok rule := by
  cases line with
  | none => simp [readLine]
  | some text =>
      rw [readLine]
      cases isRule : isRuleLine text with
      | false => simp [isRule]
      | true => cases spelled : Rule.ofLine text <;> simp [isRule, spelled]

/-- A grammar is read when every line contributes a rule or nothing. -/
theorem readGrammar_eq_ok_iff :
    readGrammar path source = .ok grammar ↔
      ∃ rules, readLines path ((lines source).zipIdx 1) = rules.map .ok ∧
        grammar = .ofRules rules := by
  rw [readGrammar]
  cases collected : collect (readLines path ((lines source).zipIdx 1)) with
  | ok rules =>
      have results := collect_eq_ok_iff_map.mp collected
      constructor
      · intro same
        exact ⟨rules, results, (Except.ok.inj same).symm⟩
      · rintro ⟨others, otherResults, rfl⟩
        have same := collected.symm.trans (collect_eq_ok_iff_map.mpr otherResults)
        rw [Except.ok.inj same]
  | error errors =>
      constructor
      · intro same
        cases same
      · rintro ⟨rules, results, _⟩
        rw [collect_eq_ok_iff_map.mpr results] at collected
        cases collected

/-- Every rule of a grammar that was read is legible. -/
theorem legible_of_readGrammar (read : readGrammar path source = .ok grammar) :
    ∀ rule ∈ grammar.rules, rule.Legible := by
  obtain ⟨rules, results, rfl⟩ := readGrammar_eq_ok_iff.mp read
  apply Grammar.forall_rules_ofRules
  · intro symbol first second firstLegible secondLegible
    exact firstLegible.append secondLegible
  · intro rule member
    have contributed : .ok rule ∈ readLines path ((lines source).zipIdx 1) := by
      rw [results]
      exact List.mem_map_of_mem member
    obtain ⟨⟨line, number⟩, numbered, ok⟩ := List.mem_filterMap.mp contributed
    obtain ⟨text, rfl, isRule, spelled⟩ := readLine_eq_ok_iff.mp ok
    have lineMember : some text ∈ lines source := List.fst_mem_of_mem_zipIdx numbered
    exact Rule.legible_of_ofLine spelled isRule (newline_notMem_of_mem_lines lineMember)

/-- Lines that all spell rules contribute these rules, wherever the numbers begin. -/
theorem readLines_map_some {α : Type u} {entries : List α} {text : α → String} {rule : α → Rule}
    (isRule : ∀ entry ∈ entries, isRuleLine (text entry) = true)
    (spelled : ∀ entry ∈ entries, Rule.ofLine (text entry) = .ok (rule entry)) (first : Nat) :
    readLines path (((entries.map text).map some).zipIdx first) =
      (entries.map rule).map .ok := by
  induction entries generalizing first with
  | nil => rfl
  | cons entry rest inductionHypothesis =>
      rw [List.forall_mem_cons] at isRule spelled
      have here : readLine path (some (text entry)) first = some (.ok (rule entry)) :=
        readLine_eq_ok_iff.mpr ⟨text entry, rfl, isRule.1, spelled.1⟩
      have later := inductionHypothesis isRule.2 spelled.2 (first + 1)
      rw [readLines] at later
      simp only [List.map_cons, List.zipIdx_cons, readLines, List.filterMap_cons, here, later]

namespace Grammar

/-- The alternatives of all rules, each with its symbol, in the order they are
listed. -/
def entries (grammar : Grammar) : List (String × Alternative) :=
  grammar.rules.flatMap fun rule => rule.alternatives.map (Prod.mk rule.symbol)

/-- A listing has a line for each entry. -/
theorem definitions_eq_map_entries (grammar : Grammar) :
    grammar.definitions =
      (grammar.entries.map fun entry => definitionText entry.1 entry.2).map (· ++ "\n") := by
  rw [definitions, entries, List.map_flatMap, List.map_flatMap]
  simp only [List.map_map]
  rfl

/-- What is said of a grammar entry by entry is the grammar taken apart. -/
theorem flatMap_split_eq_map_entries (grammar : Grammar) :
    grammar.rules.flatMap Rule.split =
      grammar.entries.map fun entry => ⟨entry.1, [entry.2]⟩ := by
  rw [entries, List.map_flatMap]
  simp only [List.map_map]
  rfl

/-- Every entry of a grammar with legible rules makes a legible rule by itself. -/
theorem legible_of_mem_entries (legible : ∀ rule ∈ grammar.rules, rule.Legible)
    {entry : String × Alternative} (member : entry ∈ grammar.entries) :
    Rule.Legible ⟨entry.1, [entry.2]⟩ := by
  obtain ⟨rule, inRules, inRule⟩ := List.mem_flatMap.mp member
  obtain ⟨alternative, inAlternatives, rfl⟩ := List.mem_map.mp inRule
  have ruleLegible := legible rule inRules
  refine ⟨ruleLegible.writable, ruleLegible.visible, List.cons_ne_nil alternative [], ?_⟩
  rw [List.forall_mem_singleton]
  exact ruleLegible.legible alternative inAlternatives

/-- The definitions of legible rules read back as the grammar that they list. -/
theorem readGrammar_definitions (start : grammar.start = defaultStart)
    (legible : ∀ rule ∈ grammar.rules, rule.Legible) (path : String) :
    readGrammar path (encode (String.join grammar.definitions)) = .ok grammar := by
  rw [readGrammar_eq_ok_iff]
  refine ⟨grammar.rules.flatMap Rule.split, ?results, ?rebuilt⟩
  case results =>
    rw [definitions_eq_map_entries, lines_encode_join, flatMap_split_eq_map_entries]
    · apply readLines_map_some
      · intro entry member
        exact isRuleLine_definitionText (legible_of_mem_entries legible member)
      · intro entry member
        exact Rule.ofLine_definitionText (legible_of_mem_entries legible member)
    · rw [List.forall_mem_map]
      intro entry member
      exact newline_notMem_definitionText (legible_of_mem_entries legible member)
    · rw [List.forall_mem_map]
      intro entry member
      exact getLast?_definitionText_ne (legible_of_mem_entries legible member)
  case rebuilt =>
    have defined : ∀ rule ∈ grammar.rules, rule.alternatives ≠ [] :=
      fun rule member => (legible rule member).defined
    exact (ofRules_flatMap_split start defined).symm

/-- A grammar that was read is listed below a heading in a form that reads back as
the very same grammar, symbols and alternatives in their order. -/
theorem listing_reads_back (read : readGrammar path source = .ok grammar) (otherPath : String) :
    ∃ body, grammar.listing = "Grammar:\n" ++ body ∧
      readGrammar otherPath (encode body) = .ok grammar := by
  refine ⟨String.join grammar.definitions, rfl, ?_⟩
  have start : grammar.start = defaultStart := by
    obtain ⟨rules, _, rfl⟩ := readGrammar_eq_ok_iff.mp read
    exact start_ofRules rules
  exact readGrammar_definitions start (legible_of_readGrammar read) otherPath

/-- A source with a comment, ends of lines of both kinds, a symbol that is defined in
two places, and names that are made of parts of an arrow. -/
def scatteredSource : Bytes :=
  encode "S -> AB | -\r\n; a comment\r\n\r\nX- -> >|X-\nS->a  b \n"

/-- The grammar that `scatteredSource` spells. -/
def scattered : Grammar :=
  ofRules
    [⟨"S", [.pair 'A' 'B', .terminal '-', .unsupported "a  b"]⟩,
      ⟨"X-", [.terminal '>', .pair 'X' '-']⟩]

/-- What is said in two places is listed in one, and neither a dash nor an arrow's
head is taken for an arrow when it is read again. -/
theorem listing_reads_back_scattered :
    readGrammar "scattered" scatteredSource = .ok scattered ∧
      ∃ body, scattered.listing = "Grammar:\n" ++ body ∧
        readGrammar "listing" (encode body) = .ok scattered := by
  have read : readGrammar "scattered" scatteredSource = .ok scattered := rfl
  exact ⟨read, listing_reads_back read "listing"⟩

end Grammar

end Chomsky
