import Chomsky.Program
import Chomsky.Proofs.Chart.Recognition
import Chomsky.Proofs.Session.Course

/-!
# Texts on the command line

A run that is given texts to parse does nothing but report on them
(`runAmong_eq_parsingEnding`). It reports on every text, also behind a rejected one, and
its exit code tells whether all of them are derivable. A session over the same texts
replies with the same reports, as long as each of them is a line of its own that does
not ask for the end (`written_ofSource_terminated`).
-/

namespace Chomsky

variable {grammar : Grammar} {showCount : Bool} {texts : List String} {opening : String}

/-- The outcome of a text says whether the start symbol derives it. -/
theorem Outcome.derivable_ofText_iff {text : String} :
    (ofText grammar showCount text).derivable = true ↔
      grammar.Derives grammar.start text.toList := by
  rw [← Chart.isSome_tree?_iff, ofText]
  cases (Chart.build grammar text.toList).tree? grammar.start <;> simp

namespace Grammar

/-- There is a report on every text, behind what was written before. -/
theorem stdout_parsingEnding :
    (grammar.parsingEnding showCount texts opening).stdout =
      opening ++ reportsOn grammar showCount texts := by
  rw [parsingEnding, List.map_map, reportsOn]
  rfl

/-- Parsing is a success exactly when all texts are derivable. -/
theorem code_parsingEnding_eq_exitSuccess_iff :
    (grammar.parsingEnding showCount texts opening).code = exitSuccess ↔
      ∀ text ∈ texts, grammar.Derives grammar.start text.toList := by
  have different : exitFailure ≠ exitSuccess := by decide
  simp only [parsingEnding, ite_eq_left_iff, different, imp_false, not_not, List.all_map,
    List.all_eq_true, Function.comp_apply, Outcome.derivable_ofText_iff]

/-- Parsing is a failure exactly when some text is not derivable. -/
theorem code_parsingEnding_eq_exitFailure_iff :
    (grammar.parsingEnding showCount texts opening).code = exitFailure ↔
      ∃ text ∈ texts, ¬ grammar.Derives grammar.start text.toList := by
  have different : exitSuccess ≠ exitFailure := by decide
  have either : (grammar.parsingEnding showCount texts opening).code = exitSuccess ∨
      (grammar.parsingEnding showCount texts opening).code = exitFailure := by
    rw [parsingEnding]
    exact ite_eq_or_eq _ _ _
  rw [← not_iff_not]
  push Not
  rw [← code_parsingEnding_eq_exitSuccess_iff]
  constructor
  · exact either.resolve_right
  · intro success failure
    exact different (success.symm.trans failure)

end Grammar

/-- Texts on the command line are parsed with the grammar that was read, started from
the symbol that the options name. -/
theorem runAmong_eq_parsingEnding {arguments : List String} {options : Options} {files : Files}
    {read : Grammar} (accepted : Options.ofArguments arguments = .ok options)
    (parsed : files.readGrammar options.file = .ok read)
    (parsing : options.amount = none) (given : options.inputs ≠ [])
    (input : Bytes) (entropy : WordSource) :
    let grammar : Grammar := { read with start := options.start.getD read.start }
    runAmong arguments files input entropy =
      grammar.parsingEnding options.showCount options.inputs
        (if options.quiet then "" else grammar.listing) := by
  rw [Files.readGrammar] at parsed
  simp only [runAmong, accepted, Agenda.ofOptions, parsed, parsing, if_neg given, Agenda.ending]
  cases options.start <;> rfl

/-- A session over terminated texts says nothing but the reports on them. -/
theorem Transcript.written_ofSource_terminated
    (entries : ∀ text ∈ texts,
      '\n' ∉ text.toList ∧ text.toList.getLast? ≠ some '\r' ∧ isExit text = false) :
    (ofSource grammar showCount (.ofCapacity none) (.ofCapacity none)
        (encode (String.join (texts.map (· ++ "\n"))))).replies.written =
      reportsOn grammar showCount texts := by
  have decoded := lines_encode_join texts (fun text member => (entries text member).1)
    (fun text member => (entries text member).2.1)
  rw [ofSource_unbounded decoded, repliesTo_of_goesOn fun text member => (entries text member).2.2]

/-- A run that is given texts writes the listing, unless it is quiet, and a report on
every text in their order. It succeeds if all of them are derived from the symbol that
the options name, or else from the start symbol of the grammar that was read, and fails
if there is one that is not. A session that reads the same texts, one per line, replies
with the same reports, provided that no text holds a line feed, ends in a carriage
return or asks for the end. -/
theorem run_reports_every_text {arguments : List String} {options : Options} {files : Files}
    {read : Grammar} (accepted : Options.ofArguments arguments = .ok options)
    (parsed : files.readGrammar options.file = .ok read)
    (parsing : options.amount = none) (given : options.inputs ≠ [])
    (input : Bytes) (entropy : WordSource) :
    let symbol := options.start.getD read.start
    let grammar : Grammar := { read with start := symbol }
    let ending := runAmong arguments files input entropy
    let reports := reportsOn grammar options.showCount options.inputs
    ending.stdout = (if options.quiet then "" else read.listing) ++ reports ∧
    ending.stderr = "" ∧
    (ending.code = exitSuccess ↔ ∀ text ∈ options.inputs, read.Derives symbol text.toList) ∧
    (ending.code = exitFailure ↔ ∃ text ∈ options.inputs, ¬ read.Derives symbol text.toList) ∧
    ((∀ text ∈ options.inputs,
        '\n' ∉ text.toList ∧ text.toList.getLast? ≠ some '\r' ∧ isExit text = false) →
      (Transcript.ofSource grammar options.showCount (.ofCapacity none) (.ofCapacity none)
          (encode (String.join (options.inputs.map (· ++ "\n"))))).replies.written =
        reports) := by
  intro symbol grammar ending reports
  have ends : ending = grammar.parsingEnding options.showCount options.inputs
      (if options.quiet then "" else grammar.listing) :=
    runAmong_eq_parsingEnding accepted parsed parsing given input entropy
  have derives (text : String) :
      grammar.Derives grammar.start text.toList ↔ read.Derives symbol text.toList :=
    Grammar.derives_withStart
  simp only [ends, ← derives]
  exact ⟨Grammar.stdout_parsingEnding, rfl, Grammar.code_parsingEnding_eq_exitSuccess_iff,
    Grammar.code_parsingEnding_eq_exitFailure_iff, Transcript.written_ofSource_terminated⟩

/-- Of two texts the first one is rejected, and still there is a report on the other,
from the command line as from a session. -/
theorem run_reports_every_text_after_rejection :
    let arguments := ["-qs", "A", "-i", "a", "--input=b", "words"]
    let options : Options :=
      { file := "words", start := some "A", inputs := ["a", "b"], quiet := true }
    let directory : Directory := [("words", encode "S -> a\nA -> b\n")]
    let read := Grammar.ofRules [⟨"S", [.terminal 'a']⟩, ⟨"A", [.terminal 'b']⟩]
    let ending := run arguments directory [] (.listed #[])
    Options.ofArguments arguments = .ok options ∧
    directory.readGrammar options.file = .ok read ∧
    ending.code = exitFailure ∧
    ending.stdout =
      "The string cannot be parsed by the grammar.\n" ++
        "The string can be parsed by the grammar. \nParse Tree:\n└── A\n    └── b\n" ∧
    (Transcript.ofSource { read with start := "A" } false (.ofCapacity none) (.ofCapacity none)
      (encode "a\nb\n")).replies.written = ending.stdout := by
  have accepted : Options.ofArguments ["-qs", "A", "-i", "a", "--input=b", "words"] =
      .ok { file := "words", start := some "A", inputs := ["a", "b"], quiet := true } := rfl
  have parsed : Directory.readGrammar [("words", encode "S -> a\nA -> b\n")] "words" =
      .ok (.ofRules [⟨"S", [.terminal 'a']⟩, ⟨"A", [.terminal 'b']⟩]) := rfl
  have reported := run_reports_every_text accepted parsed rfl (by decide) [] (.listed #[])
  intro arguments options directory read ending
  have underivable : ¬ read.Derives "A" ['a'] := by
    rw [← Chart.isSome_tree?_iff]
    decide
  refine ⟨accepted, parsed, reported.2.2.2.1.mpr ⟨"a", by decide, underivable⟩, ?_, ?_⟩
  · exact reported.1.trans (by decide)
  · exact (reported.2.2.2.2 (by decide)).trans reported.1.symm

end Chomsky
