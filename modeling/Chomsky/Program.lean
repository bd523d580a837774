import Chomsky.CommandLine.Arguments
import Chomsky.Sampling.ChaCha
import Chomsky.Sampling.Expansion
import Chomsky.Session.Transcript
import Chomsky.Source.Directory

/-!
# The program

A run of the program is decided by its arguments, the file they name, the text
on standard input and, where random words are wanted without a seed, a source
of them. Only a dialogue reads standard input; every other run is over before
that.
-/

namespace Chomsky

/-- How a run ends. -/
structure Ending where
  /-- The exit code. -/
  code : UInt32
  /-- What was written to standard output. -/
  stdout : String
  /-- What was written to standard error. -/
  stderr : String
deriving DecidableEq, Repr

/-- The exit code of a run that did what it was asked for. -/
def exitSuccess : UInt32 := 0

/-- The exit code of a run that found a fault or an underivable text. -/
def exitFailure : UInt32 := 1

/-- The exit code of a run that was asked for nothing sensible. -/
def exitUsage : UInt32 := 2

/-- A line for each report. -/
def reportLines (reports : List String) : String :=
  String.join (reports.map (· ++ "\n"))

/-- What the program calls itself. -/
def versionText : String :=
  "cyk 0.1.0\n"

/-- What the program says about its options. -/
def helpText : String :=
  "Parses strings against a grammar in Chomsky normal form\n" ++
    "\n" ++
    "Usage: cyk [OPTIONS] [FILE]\n" ++
    "\n" ++
    "  FILE                    File containing the grammar (default: input.txt)\n" ++
    "  -s, --start SYMBOL      Start symbol (default: S)\n" ++
    "  -i, --input STRING      String to parse, may be repeated\n" ++
    "                          (default: read strings interactively)\n" ++
    "  -n, --generate AMOUNT   Amount of random strings to generate instead of parsing\n" ++
    "      --seed SEED         Seed for generating strings\n" ++
    "  -q, --quiet             Don't print the grammar before parsing\n" ++
    "  -d, --derivations       Also report how many parse trees each string has\n" ++
    "  -h, --help              Print help\n" ++
    "  -V, --version           Print version\n"

namespace Refusal

/-- What is wrong with the arguments. -/
def message : Refusal → String
  | help => "help was asked for"
  | version => "the version was asked for"
  | missingValue => "a value is missing"
  | repeated => "an option is given more than once"
  | badNumber => "a value is not a number of the right size"
  | flagWithValue => "an option takes no value"
  | unknown => "an argument is not understood"
  | seedWithoutAmount => "a seed needs an amount of strings to generate"

/-- How a run without options ends. -/
def ending : Refusal → Ending
  | help => ⟨exitSuccess, helpText, ""⟩
  | version => ⟨exitSuccess, versionText, ""⟩
  | refusal => ⟨exitUsage, "", "error: " ++ refusal.message ++ "\n"⟩

end Refusal

namespace Grammar

/-- Random words of the start symbol, as many as asked for or until one cannot
be made, and what went wrong with that one. -/
def samples (grammar : Grammar) (path : String) :
    (amount : Nat) → Supply → List Word × Option ExpansionError
  | 0, _ => ([], none)
  | amount + 1, supply =>
      match grammar.sample path supply with
      | (.ok word, after) =>
          let later := grammar.samples path amount after
          (word :: later.1, later.2)
      | (.error error, _) => ([], some error)

/-- How a run that makes random words ends. -/
def samplingEnding (grammar : Grammar) (path : String) (amount : Nat)
    (source : WordSource) : Ending :=
  let made := grammar.samples path amount (.fresh source)
  let text := reportLines (made.1.map String.ofList)
  match made.2 with
  | none => ⟨exitSuccess, text, ""⟩
  | some error => ⟨exitFailure, text, reportLines [error.report ExpansionFault.message]⟩

/-- How a run that parses given texts ends, after it has written `opening`. -/
def parsingEnding (grammar : Grammar) (showCount : Bool) (inputs : List String)
    (opening : String) : Ending :=
  let outcomes := inputs.map (Outcome.ofText grammar showCount)
  { code := if outcomes.all Outcome.derivable then exitSuccess else exitFailure
    stdout := opening ++ String.join (outcomes.map Outcome.report)
    stderr := "" }

end Grammar

/-- The message on standard error about a session that broke off. -/
def sessionReport (fault : SessionFault) : String :=
  "Readline error: " ++ fault.message ++ "\n"

/-- What is left to do once the grammar has been read. -/
inductive Agenda where
  /-- Nothing: the run is over. -/
  | done (ending : Ending)
  /-- A session, after `opening` has been written. -/
  | dialogue (opening : String) (grammar : Grammar) (showCount : Bool)

namespace Agenda

/-- What options leave to do, given what the file they name holds and a source
for random words without a seed. -/
def ofOptions (options : Options) (contents : Except FileFault Bytes)
    (entropy : WordSource) : Agenda :=
  match readGrammarFrom options.file contents with
  | .error errors =>
      .done ⟨exitFailure, "", reportLines (errors.map (Located.report SourceFault.message))⟩
  | .ok read =>
      let grammar := match options.start with
        | some start => read.withStart start
        | none => read
      match options.amount with
      | some amount =>
          let source := match options.seed with
            | some seed => ChaCha.seeded seed
            | none => entropy
          .done (grammar.samplingEnding options.file amount.toNat source)
      | none =>
          let opening := if options.quiet then "" else grammar.listing
          if options.inputs = [] then .dialogue opening grammar options.showCount
          else .done (grammar.parsingEnding options.showCount options.inputs opening)

/-- How a run with this left to do ends when standard input holds the given bytes. -/
def ending (input : Bytes) : Agenda → Ending
  | done ending => ending
  | dialogue opening grammar showCount =>
      let steps := SessionStep.plan grammar showCount input
      let failed := steps.contains .unreadable
      { code := if failed then exitFailure else exitSuccess
        stdout := opening ++ String.join (steps.map SessionStep.shown)
        stderr := if failed then sessionReport .notUtf8 else "" }

end Agenda

/-- A run of the program among files. -/
def runAmong (arguments : List String) (files : Files) (input : Bytes)
    (entropy : WordSource) : Ending :=
  match Options.ofArguments arguments with
  | .error refusal => refusal.ending
  | .ok options => (Agenda.ofOptions options (files options.file) entropy).ending input

/-- A run of the program in a directory. -/
def run (arguments : List String) (directory : Directory) (input : Bytes)
    (entropy : WordSource) : Ending :=
  runAmong arguments directory.read input entropy

end Chomsky
