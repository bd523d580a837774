import Chomsky.CommandLine.Numeral
import Chomsky.CommandLine.Options

/-!
# Reading arguments

Arguments are read from left to right. A setting whose value is a separate
argument, and the file, stay pending until the next option or the end commits
them, and only then are their values looked at. What makes an argument unknown
is found before the pending item is committed, so it hides what is wrong with
that item.
-/

namespace Chomsky

/-- Why arguments give no options. -/
inductive Refusal where
  /-- The options are to be explained. -/
  | help
  /-- The program is to be named. -/
  | version
  /-- A setting has no value, or the file has no name. -/
  | missingValue
  /-- Something is given again that can be given only once. -/
  | repeated
  /-- A value is not a number of the right size. -/
  | badNumber
  /-- A flag is given with a value. -/
  | flagWithValue
  /-- There is no such option, or there is a file already. -/
  | unknown
  /-- A seed is given although no random words are to be made. -/
  | seedWithoutAmount
deriving DecidableEq, Repr

namespace Options

/-- The options with a flag given. -/
def raise (options : Options) : Flag → Except Refusal Options
  | .quiet => if options.quiet then .error .repeated else .ok { options with quiet := true }
  | .derivations =>
      if options.showCount then .error .repeated else .ok { options with showCount := true }
  | .help => .error .help
  | .version => .error .version

/-- The options with a setting given. -/
def give (options : Options) (setting : Setting) (value : String) :
    Except Refusal Options :=
  match setting with
  | .input => .ok { options with inputs := options.inputs ++ [value] }
  | .start =>
      if options.start.isSome then .error .repeated
      else .ok { options with start := some value }
  | .amount =>
      if options.amount.isSome then .error .repeated
      else match Numeral.word32? value with
        | some amount => .ok { options with amount := some amount }
        | none => .error .badNumber
  | .seed =>
      if options.seed.isSome then .error .repeated
      else match Numeral.word64? value with
        | some seed => .ok { options with seed := some seed }
        | none => .error .badNumber

end Options

/-- What has been read but not committed. -/
inductive Pending where
  /-- Everything is committed. -/
  | nothing
  /-- A setting that waits for its value. -/
  | waiting (setting : Setting)
  /-- A setting and the argument after it. -/
  | valued (setting : Setting) (value : String)
  /-- The file. -/
  | file (path : String)
deriving DecidableEq, Repr

/-- What the arguments read so far amount to. -/
structure PartialOptions where
  /-- What is committed. -/
  committed : Options := {}
  /-- What is not. -/
  pending : Pending := .nothing
  /-- Whether the file has been given. -/
  hasFile : Bool := false
deriving DecidableEq, Repr

namespace PartialOptions

/-- The options so far, with nothing pending any more. -/
def commit (soFar : PartialOptions) : Except Refusal PartialOptions :=
  match soFar.pending with
  | .nothing => .ok soFar
  | .waiting _ => .error .missingValue
  | .valued setting value => do
      let committed ← soFar.committed.give setting value
      return { soFar with committed, pending := .nothing }
  | .file path =>
      if path = "" then .error .missingValue
      else .ok { soFar with committed.file := path, pending := .nothing }

/-- The options so far after a flag. -/
def flag (soFar : PartialOptions) (flag : Flag) : Except Refusal PartialOptions := do
  let soFar ← soFar.commit
  let committed ← soFar.committed.raise flag
  return { soFar with committed }

/-- The options so far after a setting whose value is part of the same argument. -/
def attached (soFar : PartialOptions) (setting : Setting) (value : String) :
    Except Refusal PartialOptions := do
  let soFar ← soFar.commit
  let committed ← soFar.committed.give setting value
  return { soFar with committed }

/-- The options so far after a setting whose value is yet to come. -/
def setting (soFar : PartialOptions) (setting : Setting) : Except Refusal PartialOptions := do
  let soFar ← soFar.commit
  return { soFar with pending := .waiting setting }

/-- The options so far after a file. -/
def positional (soFar : PartialOptions) (path : String) : Except Refusal PartialOptions :=
  if soFar.hasFile then .error .unknown
  else do
    let soFar ← soFar.commit
    return { soFar with pending := .file path, hasFile := true }

/-- The options so far after an argument that starts with two dashes and goes on. -/
def long (soFar : PartialOptions) (body : List Char) : Except Refusal PartialOptions :=
  let name := String.ofList (body.takeWhile (· != '='))
  let value? := match body.dropWhile (· != '=') with
    | [] => none
    | _ :: value => some (String.ofList value)
  match Flag.ofName? name, Setting.ofName? name, value? with
  | some _, _, some _ => .error .flagWithValue
  | some flag, _, none => soFar.flag flag
  | none, some setting, some value => soFar.attached setting value
  | none, some setting, none => soFar.setting setting
  | none, none, _ => .error .unknown

/-- The options so far after the letters of an argument that starts with one dash. The
first setting among them takes what follows as its value. -/
def letters (soFar : PartialOptions) : List Char → Except Refusal PartialOptions
  | [] => .ok soFar
  | letter :: rest =>
      match Flag.ofLetter? letter, Setting.ofLetter? letter with
      | some flag, _ => do
          let soFar ← soFar.flag flag
          soFar.letters rest
      | none, some setting =>
          match rest with
          | [] => soFar.setting setting
          | '=' :: value => soFar.attached setting (String.ofList value)
          | value => soFar.attached setting (String.ofList value)
      | none, none => .error .unknown

/-- The options so far after an argument that is no option. -/
def plain (soFar : PartialOptions) (argument : String) : Except Refusal PartialOptions :=
  match soFar.pending with
  | .waiting setting => .ok { soFar with pending := .valued setting argument }
  | _ => soFar.positional argument

/-- The options so far after one argument other than two dashes alone. -/
def argument (soFar : PartialOptions) (argument : String) : Except Refusal PartialOptions :=
  match argument.toList with
  | '-' :: '-' :: body => soFar.long body
  | '-' :: letter :: rest => soFar.letters (letter :: rest)
  | _ => soFar.plain argument

/-- The options so far after arguments none of which is an option. -/
def positionals (soFar : PartialOptions) : List String → Except Refusal PartialOptions
  | [] => .ok soFar
  | path :: rest => do
      let soFar ← soFar.positional path
      soFar.positionals rest

/-- The options so far after arguments, of which those behind two dashes alone are no
options. -/
def arguments (soFar : PartialOptions) : List String → Except Refusal PartialOptions
  | [] => .ok soFar
  | argument :: rest =>
      if argument = "--" then soFar.positionals rest
      else do
        let soFar ← soFar.argument argument
        soFar.arguments rest

/-- The options that all arguments together give. -/
def conclude (soFar : PartialOptions) : Except Refusal Options := do
  let soFar ← soFar.commit
  if soFar.committed.seed.isSome ∧ soFar.committed.amount.isNone then
    .error .seedWithoutAmount
  else
    return soFar.committed

end PartialOptions

/-- The options that arguments choose. -/
def Options.ofArguments (arguments : List String) : Except Refusal Options := do
  let soFar ← PartialOptions.arguments {} arguments
  soFar.conclude

end Chomsky
