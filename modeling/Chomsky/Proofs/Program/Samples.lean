import Mathlib.Data.List.Infix
import Chomsky.Program
import Chomsky.Proofs.Sampling.Parsing

/-!
# Random words from the command line

A run that is asked for random words makes one attempt after the other, each with the words that
the attempts before it have left, and stops at the first one that fails. `Grammar.attempts` goes
on behind a failure and so does not depend on where a run stops: fewer attempts are the first of
more (`Grammar.attempts_isPrefix`), and a run shows those in front of the first failure
(`Grammar.samples_eq`). From this, two runs with one seed are compared by their amounts alone
(`seeded_runs_extend`).
-/

namespace Chomsky

universe u v

variable {grammar : Grammar} {path : String} {amount fewer more : Nat} {supply : Supply}
  {source : WordSource}

namespace Grammar

/-- What comes of sampling the start symbol so many times, each time with the words that are left
then, whether or not the times before succeeded. -/
def attempts (grammar : Grammar) (path : String) :
    (amount : Nat) → Supply → List (Except ExpansionError Word)
  | 0, _ => []
  | amount + 1, supply =>
      (grammar.sample path supply).1 :: grammar.attempts path amount (grammar.sample path supply).2

/-- Fewer attempts are the first of more. -/
theorem attempts_isPrefix (grammar : Grammar) (path : String) (supply : Supply)
    (le : fewer ≤ more) :
    grammar.attempts path fewer supply <+: grammar.attempts path more supply := by
  induction fewer generalizing more supply with
  | zero => exact List.nil_prefix
  | succ fewer inductionHypothesis =>
      obtain ⟨more, rfl⟩ : ∃ others, more = others + 1 := ⟨more - 1, by omega⟩
      rw [attempts, attempts, List.prefix_cons_inj]
      exact inductionHypothesis _ (Nat.le_of_succ_le_succ le)

/-- What is made are the words in front of the first failure, which is what goes wrong. -/
theorem samples_eq (grammar : Grammar) (path : String) (amount : Nat) (supply : Supply) :
    grammar.samples path amount supply =
      (valuesOf ((grammar.attempts path amount supply).takeWhile Except.isOk),
        (errorsOf (grammar.attempts path amount supply)).head?) := by
  induction amount generalizing supply with
  | zero => rfl
  | succ amount inductionHypothesis =>
      rw [samples, attempts]
      rcases sampled : grammar.sample path supply with ⟨error | word, after⟩
      · rfl
      · simp only [inductionHypothesis]
        rfl

/-- A word that is made is derived from the start symbol. -/
theorem derives_of_mem_attempts {word : Word}
    (member : .ok word ∈ grammar.attempts path amount supply) :
    grammar.Derives grammar.start word := by
  induction amount generalizing supply with
  | zero => cases member
  | succ amount inductionHypothesis =>
      rw [attempts, List.mem_cons] at member
      rcases member with first | later
      · exact derives_of_sampleFrom first.symm
      · exact inductionHypothesis later

end Grammar

/-- Results that others follow have no fewer values in front of the first error. -/
theorem valuesOf_takeWhile_isPrefix {ε : Type u} {α : Type v} {results others : List (Except ε α)}
    (first : results <+: others) :
    valuesOf (results.takeWhile Except.isOk) <+: valuesOf (others.takeWhile Except.isOk) := by
  obtain ⟨later, rfl⟩ := first
  apply List.IsPrefix.filterMap
  rw [List.takeWhile_append]
  split
  · exact (List.takeWhile_prefix _).trans (List.prefix_append _ _)
  · exact List.prefix_refl _

/-- More reports make more lines behind the same ones. -/
theorem exists_reportLines_append {reports others : List String} (first : reports <+: others) :
    ∃ later, reportLines others = reportLines reports ++ later := by
  obtain ⟨rest, rfl⟩ := first
  refine ⟨reportLines rest, ?_⟩
  rw [reportLines, reportLines, reportLines, List.map_append, String.join_append]

namespace Grammar

/-- A run writes the words in front of the first failure, one per line. -/
theorem stdout_samplingEnding (grammar : Grammar) (path : String) (amount : Nat)
    (source : WordSource) :
    (grammar.samplingEnding path amount source).stdout =
      reportLines ((valuesOf ((grammar.attempts path amount (.fresh source)).takeWhile
        Except.isOk)).map String.ofList) := by
  simp only [samplingEnding, samples_eq]
  split <;> rfl

/-- A run reports the first failure, if there is one. -/
theorem stderr_samplingEnding (grammar : Grammar) (path : String) (amount : Nat)
    (source : WordSource) :
    (grammar.samplingEnding path amount source).stderr =
      reportLines ((errorsOf (grammar.attempts path amount (.fresh source))).head?.toList.map
        (Located.report ExpansionFault.message)) := by
  simp only [samplingEnding, samples_eq]
  split
  · next none =>
      rw [none]
      rfl
  · next error some =>
      rw [some]
      rfl

/-- The exit code tells whether there is a failure. -/
theorem code_samplingEnding (grammar : Grammar) (path : String) (amount : Nat)
    (source : WordSource) :
    (grammar.samplingEnding path amount source).code =
      if errorsOf (grammar.attempts path amount (.fresh source)) = [] then exitSuccess
      else exitFailure := by
  simp only [samplingEnding, samples_eq]
  split
  · next none => rw [if_pos (List.head?_eq_none_iff.mp none)]
  · next error some =>
      rw [if_neg]
      intro nothing
      simp [nothing] at some

/-- A run succeeds exactly when no attempt fails. -/
theorem code_samplingEnding_eq_exitSuccess_iff :
    (grammar.samplingEnding path amount source).code = exitSuccess ↔
      ∀ error, .error error ∉ grammar.attempts path amount (.fresh source) := by
  have different : exitFailure ≠ exitSuccess := by decide
  rw [code_samplingEnding, ite_eq_left_iff, ← errorsOf_eq_nil_iff]
  simp only [different, imp_false, not_not]

/-- A run fails exactly when some attempt does, and then reports one error. -/
theorem samplingEnding_fails_iff :
    ((grammar.samplingEnding path amount source).code = exitFailure ∧
        ∃ error : ExpansionError, (grammar.samplingEnding path amount source).stderr =
          reportLines [error.report ExpansionFault.message]) ↔
      ∃ error, .error error ∈ grammar.attempts path amount (.fresh source) := by
  rw [code_samplingEnding, stderr_samplingEnding]
  simp only [← mem_errorsOf_iff]
  cases errorsOf (grammar.attempts path amount (.fresh source)) with
  | nil =>
      have different : exitSuccess ≠ exitFailure := by decide
      simp [different]
  | cons error others =>
      rw [if_neg (List.cons_ne_nil error others)]
      exact iff_of_true ⟨rfl, error, rfl⟩ ⟨error, List.mem_cons_self⟩

end Grammar

/-- Random words are made with the grammar that was read, started from the symbol that the
options name. -/
theorem runAmong_eq_samplingEnding {arguments : List String} {options : Options} {files : Files}
    {read : Grammar} {amount : UInt32} {seed : UInt64}
    (accepted : Options.ofArguments arguments = .ok options)
    (parsed : files.readGrammar options.file = .ok read)
    (asked : options.amount = some amount) (seeded : options.seed = some seed)
    (input : Bytes) (entropy : WordSource) :
    let grammar : Grammar := { read with start := options.start.getD read.start }
    runAmong arguments files input entropy =
      grammar.samplingEnding options.file amount.toNat (ChaCha.seeded seed) := by
  rw [Files.readGrammar] at parsed
  simp only [runAmong, accepted, Agenda.ofOptions, parsed, asked, seeded, Agenda.ending]
  cases options.start <;> rfl

/-- With the same seed, a run that is asked for more words writes what one that is asked for fewer
writes and goes on from there, and succeeds only if that one does; texts to parse, quietness and
counting make no difference. It writes the words that are made before the first failure, with no
listing in front of them, each of them derived from the symbol that the options name, or else from
the start symbol of the grammar that was read. It fails exactly when one of the attempts on the
words of the seed does, reporting one error then, which is the first. -/
theorem seeded_runs_extend {arguments others : List String} {file : String}
    {start : Option String} {inputs otherInputs : List String}
    {quiet otherQuiet showCount otherShowCount : Bool} {fewer more : UInt32} {seed : UInt64}
    {files : Files} {read : Grammar}
    (accepted : Options.ofArguments arguments =
      .ok { file, start, inputs, amount := some fewer, seed := some seed, quiet, showCount })
    (otherAccepted : Options.ofArguments others =
      .ok { file, start, inputs := otherInputs, amount := some more, seed := some seed,
            quiet := otherQuiet, showCount := otherShowCount })
    (parsed : files.readGrammar file = .ok read) (le : fewer ≤ more)
    (input otherInput : Bytes) (entropy otherEntropy : WordSource) :
    let symbol := start.getD read.start
    let grammar : Grammar := { read with start := symbol }
    let attempts := grammar.attempts file more.toNat (.fresh (ChaCha.seeded seed))
    let words := valuesOf (attempts.takeWhile Except.isOk)
    let shorter := runAmong arguments files input entropy
    let longer := runAmong others files otherInput otherEntropy
    (∃ later, longer.stdout = shorter.stdout ++ later) ∧
    (longer.code = exitSuccess → shorter.code = exitSuccess) ∧
    longer.stdout = reportLines (words.map String.ofList) ∧
    (∀ word ∈ words, read.Derives symbol word) ∧
    (longer.code = exitSuccess ↔ ∀ error, .error error ∉ attempts) ∧
    ((longer.code = exitFailure ∧ ∃ error : ExpansionError,
        longer.stderr = reportLines [error.report ExpansionFault.message]) ↔
      ∃ error, .error error ∈ attempts) ∧
    longer.stderr = reportLines ((errorsOf attempts).head?.toList.map
      (Located.report ExpansionFault.message)) := by
  intro symbol grammar attempts words shorter longer
  have shorterEnds : shorter =
      grammar.samplingEnding file fewer.toNat (ChaCha.seeded seed) :=
    runAmong_eq_samplingEnding accepted parsed rfl rfl input entropy
  have longerEnds : longer = grammar.samplingEnding file more.toNat (ChaCha.seeded seed) :=
    runAmong_eq_samplingEnding otherAccepted parsed rfl rfl otherInput otherEntropy
  have first : grammar.attempts file fewer.toNat (.fresh (ChaCha.seeded seed)) <+: attempts :=
    grammar.attempts_isPrefix file _ (UInt32.le_iff_toNat_le.mp le)
  rw [shorterEnds, longerEnds]
  refine ⟨?goesOn, ?succeeds, Grammar.stdout_samplingEnding grammar file _ _, ?derived,
    Grammar.code_samplingEnding_eq_exitSuccess_iff, Grammar.samplingEnding_fails_iff,
    Grammar.stderr_samplingEnding grammar file _ _⟩
  case goesOn =>
    rw [Grammar.stdout_samplingEnding, Grammar.stdout_samplingEnding]
    exact exists_reportLines_append ((valuesOf_takeWhile_isPrefix first).map _)
  case succeeds =>
    rw [Grammar.code_samplingEnding_eq_exitSuccess_iff,
      Grammar.code_samplingEnding_eq_exitSuccess_iff]
    exact fun sound error member => sound error (first.subset member)
  case derived =>
    intro word member
    have made := (List.takeWhile_prefix _).subset (mem_valuesOf_iff.mp member)
    exact Grammar.derives_withStart.mp (Grammar.derives_of_mem_attempts made)

/-- The third word of the seed picks a pair with an undefined symbol, so that a run that is asked
for four words stops behind two. Both are words of the symbol that is named and not of the start
symbol of the grammar itself. -/
theorem seeded_runs_extend_until_failure :
    let arguments := ["/srv/words", "-n1", "-s", "A", "--seed", "0"]
    let others := ["-q", "--seed=0", "-sA", "-di", "x", "--generate", "4", "/srv/words"]
    let files : Files := fun path =>
      if path = "/srv/words" then .ok (encode "S -> c\nA -> a | XX | b\n") else .error .notFound
    let read := Grammar.ofRules
      [⟨"S", [.terminal 'c']⟩, ⟨"A", [.terminal 'a', .pair 'X' 'X', .terminal 'b']⟩]
    let shorter := runAmong arguments files [] (.listed #[])
    let longer := runAmong others files (encode "b\n") (.listed #[1])
    files.readGrammar "/srv/words" = .ok read ∧
    shorter.stdout = "b\n" ∧
    longer.stdout = "b\nb\n" ∧
    (∃ later, longer.stdout = shorter.stdout ++ later) ∧
    read.Derives "A" ['b'] ∧ ¬ read.Derives read.start ['b'] ∧
    longer.code = exitFailure ∧
    longer.stderr =
      "\x1b[31;49;1m[/srv/words]\x1b[39;49;1m  No definition for nonterminal `X`\x1b[0m\n" := by
  intro arguments others files read shorter longer
  have accepted : Options.ofArguments arguments =
      .ok { file := "/srv/words", start := some "A", amount := some 1, seed := some 0 } := rfl
  have otherAccepted : Options.ofArguments others =
      .ok { file := "/srv/words", start := some "A", inputs := ["x"], amount := some 4,
            seed := some 0, quiet := true, showCount := true } := rfl
  have parsed : files.readGrammar "/srv/words" = .ok read := rfl
  have compared := seeded_runs_extend accepted otherAccepted parsed (by decide) []
    (encode "b\n") (.listed #[]) (.listed #[1])
  have underivable : ¬ read.Derives read.start ['b'] := by
    rw [← Chart.isSome_tree?_iff]
    decide
  refine ⟨parsed, by decide +kernel, by decide +kernel, compared.1,
    compared.2.2.2.1 ['b'] (by decide +kernel), underivable, ?_, by decide +kernel⟩
  exact (compared.2.2.2.2.2.1.mpr ⟨⟨.whole "/srv/words", .undefined "X"⟩, by decide +kernel⟩).1

end Chomsky
