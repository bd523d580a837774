import Mathlib.Logic.Relation
import Chomsky.CommandLine.Arguments

/-!
# What arguments commit

However arguments are clustered, attached to their options or set apart from them, the options that
are committed change in three ways only: a flag is raised, a setting is given or the file is named
(`Options.Takes`). Whatever these keep is kept by all arguments (`PartialOptions.takes_arguments`).
What is pending in the end is committed by one more argument just as the end would have committed
it, so that accepted arguments may be followed by others (`Options.accepted_arguments_extend`).
-/

namespace Chomsky

open Relation (ReflTransGen)

/-- A computation in two steps succeeds exactly when both of them do. -/
theorem bind_eq_ok_iff {ε α β : Type} {first : Except ε α} {second : α → Except ε β}
    {result : β} :
    first >>= second = .ok result ↔ ∃ value, first = .ok value ∧ second value = .ok result := by
  constructor
  · intro both
    cases first with
    | error fault => cases both
    | ok value => exact ⟨value, rfl, both⟩
  · rintro ⟨value, rfl, rest⟩
    exact rest

/-- What stands before the value where a setting and its value are one argument. -/
def Setting.opening : Setting → String
  | start => "--start="
  | input => "--input="
  | amount => "--generate="
  | seed => "--seed="

/-- More than two dashes stand before a value. -/
theorem Setting.opening_append_ne (setting : Setting) (value : String) :
    setting.opening ++ value ≠ "--" := by
  intro same
  have shape := congrArg String.toList same
  rw [String.toList_append] at shape
  cases setting <;> cases shape

namespace Options

variable {options after : Options}

/-- One commitment is made. -/
inductive Takes (options : Options) : Options → Prop where
  | flag {flag : Flag} {after : Options} (raised : options.raise flag = .ok after) :
      Takes options after
  | setting {setting : Setting} {value : String} {after : Options}
      (given : options.give setting value = .ok after) : Takes options after
  | file {path : String} (named : path ≠ "") : Takes options { options with file := path }

/-- A flag does not touch the file. -/
theorem file_of_raise {flag : Flag} (raised : options.raise flag = .ok after) :
    after.file = options.file := by
  cases flag with
  | quiet | derivations =>
      simp only [raise] at raised
      split at raised
      · cases raised
      · cases raised
        rfl
  | help | version => cases raised

/-- A setting does not touch the file. -/
theorem file_of_give {setting : Setting} {value : String}
    (given : options.give setting value = .ok after) : after.file = options.file := by
  cases setting with
  | input =>
      cases given
      rfl
  | start | amount | seed =>
      simp only [give] at given
      grind

/-- After a commitment the file still has a name. -/
theorem Takes.file_ne (takes : options.Takes after) (named : options.file ≠ "") :
    after.file ≠ "" := by
  cases takes with
  | flag raised => rwa [file_of_raise raised]
  | setting given => rwa [file_of_give given]
  | file pathNamed => exact pathNamed

/-- Whatever is committed, the file has a name. -/
theorem file_ne_of_takes (taken : ReflTransGen Takes {} options) : options.file ≠ "" := by
  induction taken with
  | refl => decide
  | tail _ takes named => exact takes.file_ne named

end Options

namespace PartialOptions

variable {soFar after : PartialOptions} {options : Options}

/-- Committing makes one commitment at most and leaves nothing pending. -/
theorem exists_of_commit (committed : soFar.commit = .ok after) :
    ∃ options, ReflTransGen Options.Takes soFar.committed options ∧
      after = ⟨options, .nothing, soFar.hasFile⟩ := by
  obtain ⟨options, pending, hasFile⟩ := soFar
  cases pending with
  | nothing =>
      cases committed
      exact ⟨options, .refl, rfl⟩
  | waiting setting => cases committed
  | valued setting value =>
      obtain ⟨given, givenEq, ⟨⟩⟩ := bind_eq_ok_iff.mp committed
      exact ⟨given, .single (.setting givenEq), rfl⟩
  | file path =>
      simp only [commit] at committed
      split at committed
      · cases committed
      · next named =>
          cases committed
          exact ⟨_, .single (.file named), rfl⟩

/-- What is pending may be committed. -/
theorem takes_commit (committed : soFar.commit = .ok after) :
    ReflTransGen Options.Takes soFar.committed after.committed := by
  obtain ⟨options, taken, rfl⟩ := exists_of_commit committed
  exact taken

/-- A flag is raised behind what was pending. -/
theorem takes_flag {flag : Flag} (read : soFar.flag flag = .ok after) :
    ReflTransGen Options.Takes soFar.committed after.committed := by
  obtain ⟨between, committed, read⟩ := bind_eq_ok_iff.mp read
  obtain ⟨raised, raisedEq, ⟨⟩⟩ := bind_eq_ok_iff.mp read
  exact .tail (takes_commit committed) (.flag raisedEq)

/-- A setting with its value is given behind what was pending. -/
theorem takes_attached {setting : Setting} {value : String}
    (read : soFar.attached setting value = .ok after) :
    ReflTransGen Options.Takes soFar.committed after.committed := by
  obtain ⟨between, committed, read⟩ := bind_eq_ok_iff.mp read
  obtain ⟨given, givenEq, ⟨⟩⟩ := bind_eq_ok_iff.mp read
  exact .tail (takes_commit committed) (.setting givenEq)

/-- A setting that waits for its value commits what was pending. -/
theorem takes_setting {setting : Setting} (read : soFar.setting setting = .ok after) :
    ReflTransGen Options.Takes soFar.committed after.committed := by
  obtain ⟨between, committed, ⟨⟩⟩ := bind_eq_ok_iff.mp read
  have taken := takes_commit committed
  exact taken

/-- A file commits what was pending. -/
theorem takes_positional {path : String} (read : soFar.positional path = .ok after) :
    ReflTransGen Options.Takes soFar.committed after.committed := by
  rw [positional] at read
  split at read
  · cases read
  · obtain ⟨between, committed, ⟨⟩⟩ := bind_eq_ok_iff.mp read
    have taken := takes_commit committed
    exact taken

/-- What an argument with two dashes commits. -/
theorem takes_long {body : List Char} (read : soFar.long body = .ok after) :
    ReflTransGen Options.Takes soFar.committed after.committed := by
  simp only [long] at read
  split at read
  · cases read
  · exact takes_flag read
  · exact takes_attached read
  · exact takes_setting read
  · cases read

/-- What letters behind one dash commit. -/
theorem takes_letters {letters : List Char} (read : soFar.letters letters = .ok after) :
    ReflTransGen Options.Takes soFar.committed after.committed := by
  induction letters generalizing soFar with
  | nil =>
      cases read
      exact .refl
  | cons letter rest inductionHypothesis =>
      simp only [PartialOptions.letters] at read
      split at read
      · obtain ⟨between, flagged, read⟩ := bind_eq_ok_iff.mp read
        exact (takes_flag flagged).trans (inductionHypothesis read)
      · split at read
        · exact takes_setting read
        · exact takes_attached read
        · exact takes_attached read
      · cases read

/-- What an argument without a dash commits. -/
theorem takes_plain {argument : String} (read : soFar.plain argument = .ok after) :
    ReflTransGen Options.Takes soFar.committed after.committed := by
  rw [plain] at read
  split at read
  · cases read
    exact .refl
  · exact takes_positional read

/-- What one argument commits. -/
theorem takes_argument {argument : String} (read : soFar.argument argument = .ok after) :
    ReflTransGen Options.Takes soFar.committed after.committed := by
  rw [PartialOptions.argument] at read
  split at read
  · exact takes_long read
  · exact takes_letters read
  · exact takes_plain read

/-- What arguments that are no options commit. -/
theorem takes_positionals {paths : List String} (read : soFar.positionals paths = .ok after) :
    ReflTransGen Options.Takes soFar.committed after.committed := by
  induction paths generalizing soFar with
  | nil =>
      cases read
      exact .refl
  | cons path rest inductionHypothesis =>
      obtain ⟨between, first, read⟩ := bind_eq_ok_iff.mp read
      exact (takes_positional first).trans (inductionHypothesis read)

/-- All arguments together commit one thing after the other. -/
theorem takes_arguments {arguments : List String} (read : soFar.arguments arguments = .ok after) :
    ReflTransGen Options.Takes soFar.committed after.committed := by
  induction arguments generalizing soFar with
  | nil =>
      cases read
      exact .refl
  | cons argument rest inductionHypothesis =>
      rw [PartialOptions.arguments] at read
      split at read
      · exact takes_positionals read
      · obtain ⟨between, first, read⟩ := bind_eq_ok_iff.mp read
        exact (takes_argument first).trans (inductionHypothesis read)

/-- The options that are concluded are those with everything committed, if a seed comes with an
amount. -/
theorem conclude_eq_ok_iff :
    soFar.conclude = .ok options ↔
      soFar.commit = .ok ⟨options, .nothing, soFar.hasFile⟩ ∧
        (options.seed.isSome → options.amount.isSome) := by
  rw [conclude, bind_eq_ok_iff]
  constructor
  · rintro ⟨after, committed, concluded⟩
    split at concluded
    · cases concluded
    · next complete =>
        cases concluded
        obtain ⟨options, -, rfl⟩ := exists_of_commit committed
        refine ⟨committed, fun seeded => ?_⟩
        rw [Option.isSome_iff_ne_none]
        exact fun missing => complete ⟨seeded, Option.isNone_iff_eq_none.mpr missing⟩
  · rintro ⟨committed, complete⟩
    refine ⟨_, committed, if_neg ?_⟩
    rintro ⟨seeded, missing⟩
    rw [Option.isNone_iff_eq_none] at missing
    exact Option.isSome_iff_ne_none.mp (complete seeded) missing

/-- Arguments are read one by one, up to two dashes alone. -/
theorem arguments_cons {argument : String} (different : argument ≠ "--") (rest : List String) :
    soFar.arguments (argument :: rest) = soFar.argument argument >>= (·.arguments rest) := by
  rw [arguments, if_neg different]

/-- Behind an argument that can be read, the next ones are read. -/
theorem arguments_cons_of_ok {argument : String} (different : argument ≠ "--")
    (read : soFar.argument argument = .ok after) (rest : List String) :
    soFar.arguments (argument :: rest) = after.arguments rest := by
  rw [arguments_cons different, read]
  rfl

/-- Arguments may be read in two steps, unless two dashes alone come first. -/
theorem arguments_append {first : List String} (alone : "--" ∉ first) (second : List String) :
    soFar.arguments (first ++ second) = soFar.arguments first >>= (·.arguments second) := by
  induction first generalizing soFar with
  | nil => rfl
  | cons argument rest inductionHypothesis =>
      rw [List.mem_cons, not_or] at alone
      rw [List.cons_append, arguments_cons (Ne.symm alone.1), arguments_cons (Ne.symm alone.1)]
      cases soFar.argument argument with
      | error refusal => rfl
      | ok between => exact inductionHypothesis alone.2

/-- A setting and its value in one argument are read as such, whatever the value is. -/
theorem argument_opening (soFar : PartialOptions) (setting : Setting) (value : String) :
    soFar.argument (setting.opening ++ value) = soFar.attached setting value := by
  have read : soFar.argument (setting.opening ++ value) =
      soFar.attached setting (String.ofList value.toList) := by
    rw [argument, String.toList_append]
    cases setting <;> rfl
  rwa [String.ofList_toList] at read

/-- What a setting with its value gives when everything before it can be committed. -/
theorem attached_eq_ok {setting : Setting} {value : String} {given : Options}
    (committed : soFar.commit = .ok ⟨options, .nothing, soFar.hasFile⟩)
    (givenEq : options.give setting value = .ok given) :
    soFar.attached setting value = .ok ⟨given, .nothing, soFar.hasFile⟩ :=
  bind_eq_ok_iff.mpr ⟨_, committed, bind_eq_ok_iff.mpr ⟨given, givenEq, rfl⟩⟩

/-- What a flag raises when everything before it can be committed. -/
theorem flag_eq_ok {flag : Flag} {raised : Options}
    (committed : soFar.commit = .ok ⟨options, .nothing, soFar.hasFile⟩)
    (raisedEq : options.raise flag = .ok raised) :
    soFar.flag flag = .ok ⟨raised, .nothing, soFar.hasFile⟩ :=
  bind_eq_ok_iff.mpr ⟨_, committed, bind_eq_ok_iff.mpr ⟨raised, raisedEq, rfl⟩⟩

/-- An argument that does not start with a dash is the value that a setting waits for. -/
theorem argument_of_waiting {setting : Setting} {text : String} {hasFile : Bool}
    (plain : text.toList.head? ≠ some '-') :
    argument ⟨options, .waiting setting, hasFile⟩ text =
      .ok ⟨options, .valued setting text, hasFile⟩ := by
  rw [argument]
  split
  · next shape =>
      rw [shape] at plain
      exact absurd rfl plain
  · next shape =>
      rw [shape] at plain
      exact absurd rfl plain
  · rfl

/-- A text to parse that is part of its argument is added behind all that is committed. -/
theorem arguments_input (committed : soFar.commit = .ok ⟨options, .nothing, soFar.hasFile⟩)
    (text : String) :
    soFar.arguments ["--input=" ++ text] =
      .ok ⟨{ options with inputs := options.inputs ++ [text] }, .nothing, soFar.hasFile⟩ := by
  have read := (argument_opening soFar .input text).trans (attached_eq_ok committed rfl)
  exact arguments_cons_of_ok (Setting.input.opening_append_ne text) read []

/-- A text to parse that is an argument of its own waits for the end behind all that is
committed. -/
theorem arguments_input_apart (committed : soFar.commit = .ok ⟨options, .nothing, soFar.hasFile⟩)
    {text : String} (plain : text.toList.head? ≠ some '-') :
    soFar.arguments ["-i", text] = .ok ⟨options, .valued .input text, soFar.hasFile⟩ := by
  have different : text ≠ "--" := by
    rintro rfl
    exact plain rfl
  have waits : soFar.argument "-i" = .ok ⟨options, .waiting .input, soFar.hasFile⟩ :=
    bind_eq_ok_iff.mpr ⟨_, committed, rfl⟩
  rw [arguments_cons_of_ok (by decide) waits,
    arguments_cons_of_ok different (argument_of_waiting plain)]
  rfl

end PartialOptions

namespace Options

variable {arguments : List String} {options : Options}

/-- Arguments are accepted exactly when they can be read to the end and concluded. -/
theorem ofArguments_eq_ok_iff :
    ofArguments arguments = .ok options ↔
      ∃ soFar, PartialOptions.arguments {} arguments = .ok soFar ∧ soFar.conclude = .ok options :=
  bind_eq_ok_iff

/-- What follows arguments is read behind them. -/
theorem ofArguments_append {soFar : PartialOptions} (alone : "--" ∉ arguments)
    (read : PartialOptions.arguments {} arguments = .ok soFar) (more : List String) :
    ofArguments (arguments ++ more) = soFar.arguments more >>= PartialOptions.conclude := by
  rw [ofArguments, PartialOptions.arguments_append alone, read]
  rfl

/-- Accepted arguments name a file and give no seed without an amount. Unless two dashes alone are
among them, they may be followed by one more text to parse, in the argument of its option or, if it
does not start with a dash, behind it: it is added to the other ones and nothing else changes, even
where the last of the accepted arguments is pending until then. -/
theorem accepted_arguments_extend (accepted : ofArguments arguments = .ok options) :
    (options.seed.isSome → options.amount.isSome) ∧ options.file ≠ "" ∧
    ("--" ∉ arguments → ∀ text,
      ofArguments (arguments ++ ["--input=" ++ text]) =
        .ok { options with inputs := options.inputs ++ [text] } ∧
      (text.toList.head? ≠ some '-' →
        ofArguments (arguments ++ ["-i", text]) =
          .ok { options with inputs := options.inputs ++ [text] })) := by
  obtain ⟨soFar, read, concluded⟩ := ofArguments_eq_ok_iff.mp accepted
  obtain ⟨committed, complete⟩ := PartialOptions.conclude_eq_ok_iff.mp concluded
  have taken : ReflTransGen Takes {} options :=
    (PartialOptions.takes_arguments read).trans (PartialOptions.takes_commit committed)
  refine ⟨complete, file_ne_of_takes taken, fun alone text => ⟨?attached, fun plain => ?apart⟩⟩
  case attached =>
    rw [ofArguments_append alone read, PartialOptions.arguments_input committed]
    exact bind_eq_ok_iff.mpr ⟨_, rfl, PartialOptions.conclude_eq_ok_iff.mpr ⟨rfl, complete⟩⟩
  case apart =>
    rw [ofArguments_append alone read, PartialOptions.arguments_input_apart committed plain]
    exact bind_eq_ok_iff.mpr ⟨_, rfl, PartialOptions.conclude_eq_ok_iff.mpr ⟨rfl, complete⟩⟩

/-- A text to parse that was pending in the end is added before the one that follows it, which is
not read as a seed. -/
theorem accepted_arguments_extend_pending :
    let arguments := ["-qn", "+3", "--seed=9", "words", "-i", "="]
    let options : Options :=
      { file := "words", inputs := ["="], amount := some 3, seed := some 9, quiet := true }
    ofArguments arguments = .ok options ∧
    "--" ∉ arguments ∧ "".toList.head? ≠ some '-' ∧
    ofArguments (arguments ++ ["--input=" ++ "--seed=1"]) =
      .ok { options with inputs := ["=", "--seed=1"] } ∧
    ofArguments (arguments ++ ["-i", ""]) = .ok { options with inputs := ["=", ""] } := by
  intro arguments options
  have accepted : ofArguments arguments = .ok options := rfl
  have alone : "--" ∉ arguments := by decide
  have plain : "".toList.head? ≠ some '-' := by decide
  have extended := (accepted_arguments_extend accepted).2.2 alone
  exact ⟨accepted, alone, plain, (extended "--seed=1").1, (extended "").2 plain⟩

end Options

end Chomsky
