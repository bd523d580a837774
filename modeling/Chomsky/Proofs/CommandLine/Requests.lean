import Mathlib.Data.List.Perm.Basic
import Chomsky.Proofs.CommandLine.Commitment
import Chomsky.Proofs.CommandLine.Numeral

/-!
# Options put into words

Besides the file, options are what has been requested of them: at most one thing by each option,
and any number of texts to parse. Every request has an argument that says it, whatever the texts in
it are. Read in any order, such arguments grant one request after the other
(`PartialOptions.arguments_requests`). What has been granted determines the options
(`Options.eq_of_has_iff`), so that the arguments of all requests of some options choose just these
options (`Options.ofArguments_requests`).
-/

namespace Chomsky

/-- One thing that options ask for, besides the file. -/
inductive Request where
  /-- A start symbol. -/
  | start (symbol : String)
  /-- A text to parse. -/
  | input (text : String)
  /-- An amount of random words. -/
  | amount (number : UInt32)
  /-- A seed of the random words. -/
  | seed (number : UInt64)
  /-- No listing. -/
  | quiet
  /-- The number of trees. -/
  | showCount
deriving DecidableEq, Repr

namespace Request

/-- The argument that says a request. -/
def argument : Request → String
  | start symbol => "--start=" ++ symbol
  | input text => "--input=" ++ text
  | amount number => "--generate=" ++ number.toNat.repr
  | seed number => "--seed=" ++ number.toNat.repr
  | quiet => "--quiet"
  | showCount => "--derivations"

/-- The text that a request asks to parse. -/
def input? : Request → Option String
  | input text => some text
  | _ => none

/-- The option that makes a request. -/
def option : Request → Flag ⊕ Setting
  | start _ => .inr .start
  | input _ => .inr .input
  | amount _ => .inr .amount
  | seed _ => .inr .seed
  | quiet => .inl .quiet
  | showCount => .inl .derivations

/-- Only one of two requests can be granted: all options but one are given at most once. -/
def Clashes (first second : Request) : Prop :=
  first.option = second.option ∧ first.option ≠ .inr .input

theorem Clashes.symm {first second : Request} (clash : first.Clashes second) :
    second.Clashes first :=
  ⟨clash.1.symm, clash.1 ▸ clash.2⟩

/-- No request is said by two dashes alone. -/
theorem argument_ne (request : Request) : request.argument ≠ "--" := by
  cases request with
  | start symbol => exact Setting.start.opening_append_ne symbol
  | input text => exact Setting.input.opening_append_ne text
  | amount number => exact Setting.amount.opening_append_ne number.toNat.repr
  | seed number => exact Setting.seed.opening_append_ne number.toNat.repr
  | quiet | showCount => decide

end Request

namespace Options

/-- A request is among those that have been granted. -/
def Has (options : Options) : Request → Prop
  | .start symbol => options.start = some symbol
  | .input text => text ∈ options.inputs
  | .amount number => options.amount = some number
  | .seed number => options.seed = some number
  | .quiet => options.quiet = true
  | .showCount => options.showCount = true

/-- The options with one more request granted. -/
def grant (options : Options) : Request → Options
  | .start symbol => { options with start := some symbol }
  | .input text => { options with inputs := options.inputs ++ [text] }
  | .amount number => { options with amount := some number }
  | .seed number => { options with seed := some number }
  | .quiet => { options with quiet := true }
  | .showCount => { options with showCount := true }

/-- All requests of the options, the texts to parse in their order. -/
def requests (options : Options) : List Request :=
  options.start.toList.map .start ++ options.inputs.map .input ++
    options.amount.toList.map .amount ++ options.seed.toList.map .seed ++
    (if options.quiet then [.quiet] else []) ++ (if options.showCount then [.showCount] else [])

/-- Nothing that has been granted clashes with a request. -/
def Admits (options : Options) (request : Request) : Prop :=
  ∀ granted, options.Has granted → ¬ granted.Clashes request

variable {options other : Options} {request : Request} {requests : List Request}

/-- The requests are those that have been granted. -/
theorem mem_requests_iff : request ∈ options.requests ↔ options.Has request := by
  cases request <;> simp [Options.requests, Has]

/-- Options are known from the file, the texts to parse and what is granted. -/
theorem eq_of_has_iff (file : options.file = other.file) (inputs : options.inputs = other.inputs)
    (same : ∀ request, options.Has request ↔ other.Has request) : options = other := by
  have start : options.start = other.start := Option.ext fun symbol => same (.start symbol)
  have amount : options.amount = other.amount := Option.ext fun amount => same (.amount amount)
  have seed : options.seed = other.seed := Option.ext fun seed => same (.seed seed)
  have quiet : options.quiet = other.quiet := Bool.eq_iff_iff.mpr (same .quiet)
  have showCount : options.showCount = other.showCount := Bool.eq_iff_iff.mpr (same .showCount)
  cases options
  cases other
  simp_all

/-- Granting a request that clashes with nothing grants it besides the others. -/
theorem has_grant_iff {granted : Request} (admitted : options.Admits request) :
    (options.grant request).Has granted ↔ options.Has granted ∨ granted = request := by
  have unclaimed := admitted granted
  cases request <;> cases granted <;> simp [grant, Has]
  case start.start | amount.amount | seed.seed =>
    exact ⟨fun same => .inr same.symm,
      fun either => (either.resolve_left fun has => unclaimed has ⟨rfl, by rintro ⟨⟩⟩).symm⟩

/-- Nothing has been granted at first. -/
theorem not_has_default (request : Request) : ¬ ({} : Options).Has request := by
  intro has
  cases request <;> cases has

/-- Every request is admitted at first. -/
theorem admits_default (request : Request) : ({} : Options).Admits request :=
  fun granted has => absurd has (not_has_default granted)

/-- Requests that do not clash with one that is admitted are admitted behind it. -/
theorem Admits.forall_grant (admitted : options.Admits request)
    (laterAdmitted : ∀ later ∈ requests, options.Admits later)
    (peace : ∀ later ∈ requests, ¬ request.Clashes later) :
    ∀ later ∈ requests, (options.grant request).Admits later := by
  intro later member granted has
  rcases (has_grant_iff admitted).mp has with before | rfl
  · exact laterAdmitted later member granted before
  · exact peace later member

/-- What is granted one after the other is granted besides what was granted before. -/
theorem has_foldl_grant_iff {granted : Request}
    (peace : requests.Pairwise fun first second => ¬ first.Clashes second)
    (admitted : ∀ request ∈ requests, options.Admits request) :
    (requests.foldl grant options).Has granted ↔ options.Has granted ∨ granted ∈ requests := by
  induction requests generalizing options with
  | nil => simp
  | cons request rest inductionHypothesis =>
      rw [List.pairwise_cons] at peace
      rw [List.forall_mem_cons] at admitted
      rw [List.foldl_cons, inductionHypothesis peace.2 (admitted.1.forall_grant admitted.2 peace.1),
        has_grant_iff admitted.1, or_assoc, List.mem_cons]

end Options

namespace PartialOptions

variable {options : Options} {request : Request} {requests : List Request} {hasFile : Bool}

/-- The argument of a request that clashes with nothing grants it. -/
theorem argument_request (admitted : options.Admits request) :
    argument ⟨options, .nothing, hasFile⟩ request.argument =
      .ok ⟨options.grant request, .nothing, hasFile⟩ := by
  cases request with
  | start symbol =>
      have free : options.start = none := Option.eq_none_iff_forall_ne_some.mpr
        fun old has => admitted (.start old) has ⟨rfl, by rintro ⟨⟩⟩
      exact (argument_opening _ .start symbol).trans
        (attached_eq_ok rfl (by simp [Options.give, free, Options.grant]))
  | input text => exact (argument_opening _ .input text).trans (attached_eq_ok rfl rfl)
  | amount number =>
      have free : options.amount = none := Option.eq_none_iff_forall_ne_some.mpr
        fun old has => admitted (.amount old) has ⟨rfl, by rintro ⟨⟩⟩
      exact (argument_opening _ .amount number.toNat.repr).trans
        (attached_eq_ok rfl (by simp [Options.give, free, Numeral.word32?_repr, Options.grant]))
  | seed number =>
      have free : options.seed = none := Option.eq_none_iff_forall_ne_some.mpr
        fun old has => admitted (.seed old) has ⟨rfl, by rintro ⟨⟩⟩
      exact (argument_opening _ .seed number.toNat.repr).trans
        (attached_eq_ok rfl (by simp [Options.give, free, Numeral.word64?_repr, Options.grant]))
  | quiet =>
      have free : options.quiet = false :=
        Bool.eq_false_iff.mpr fun has => admitted .quiet has ⟨rfl, by rintro ⟨⟩⟩
      exact flag_eq_ok rfl (by simp [Options.raise, free, Options.grant])
  | showCount =>
      have free : options.showCount = false :=
        Bool.eq_false_iff.mpr fun has => admitted .showCount has ⟨rfl, by rintro ⟨⟩⟩
      exact flag_eq_ok rfl (by simp [Options.raise, free, Options.grant])

/-- The arguments of requests that do not clash grant them one after the other. -/
theorem arguments_requests (peace : requests.Pairwise fun first second => ¬ first.Clashes second)
    (admitted : ∀ request ∈ requests, options.Admits request) (rest : List String) :
    arguments ⟨options, .nothing, hasFile⟩ (requests.map Request.argument ++ rest) =
      arguments ⟨requests.foldl Options.grant options, .nothing, hasFile⟩ rest := by
  induction requests generalizing options with
  | nil => rfl
  | cons request later inductionHypothesis =>
      rw [List.pairwise_cons] at peace
      rw [List.forall_mem_cons] at admitted
      rw [List.map_cons, List.cons_append,
        arguments_cons_of_ok request.argument_ne (argument_request admitted.1),
        inductionHypothesis peace.2 (admitted.1.forall_grant admitted.2 peace.1), List.foldl_cons]

/-- A file behind two dashes stays pending, whatever it looks like. -/
theorem arguments_file (path : String) :
    arguments ⟨options, .nothing, false⟩ ["--", path] = .ok ⟨options, .file path, true⟩ :=
  rfl

/-- A file with a name is committed as it is. -/
theorem commit_file {path : String} (named : path ≠ "") :
    commit ⟨options, .file path, hasFile⟩ =
      .ok ⟨{ options with file := path }, .nothing, hasFile⟩ :=
  if_neg named

end PartialOptions

namespace Options

variable {options : Options} {order : List Request}

/-- Options have no requests that clash. -/
theorem pairwise_requests (options : Options) :
    options.requests.Pairwise fun first second => ¬ first.Clashes second := by
  have inputs : options.inputs.Pairwise fun _ _ => True :=
    List.pairwise_of_forall fun _ _ => trivial
  have flags : ∀ (given : Bool) (flag : Request) (apart : Request → Request → Prop),
      (if given then [flag] else []).Pairwise apart := by
    intro given flag apart
    cases given <;> simp
  simp [Options.requests, List.pairwise_append, List.pairwise_map, or_imp, forall_and, inputs,
    flags, Request.Clashes, Request.option]

/-- Nor do they clash in another order. -/
theorem pairwise_of_perm (same : order.Perm options.requests) :
    order.Pairwise fun first second => ¬ first.Clashes second :=
  (same.pairwise_iff fun apart clash => apart clash.symm).mpr (pairwise_requests options)

/-- What is granted touches the texts to parse only by adding those that are asked for. -/
theorem inputs_foldl_grant (options : Options) (requests : List Request) :
    (requests.foldl grant options).inputs =
      options.inputs ++ requests.filterMap Request.input? := by
  induction requests generalizing options with
  | nil => simp
  | cons request rest inductionHypothesis =>
      rw [List.foldl_cons, inductionHypothesis]
      cases request <;> simp [grant, Request.input?, List.filterMap_cons]

/-- Granting all requests of some options, the texts to parse in their order, gives these options
but for the file. -/
theorem foldl_grant_of_perm (same : order.Perm options.requests)
    (inputs : order.filterMap Request.input? = options.inputs) :
    { order.foldl grant {} with file := options.file } = options := by
  have has : ∀ request, (order.foldl grant {}).Has request ↔ options.Has request := by
    intro request
    rw [has_foldl_grant_iff (pairwise_of_perm same) fun request _ => admits_default request,
      same.mem_iff, mem_requests_iff]
    exact or_iff_right (not_has_default request)
  refine eq_of_has_iff rfl ((inputs_foldl_grant {} order).trans inputs) fun request => ?_
  rw [← has request]
  cases request <;> exact Iff.rfl

/-- Options with a file that has a name, and with a seed only beside an amount, are chosen by the
arguments of their requests and the file behind two dashes. The requests may be said in any order
that keeps the order of the texts to parse, and the texts may look like options themselves. -/
theorem ofArguments_requests (named : options.file ≠ "")
    (complete : options.seed.isSome → options.amount.isSome)
    (same : order.Perm options.requests)
    (inputs : order.filterMap Request.input? = options.inputs) :
    ofArguments (order.map Request.argument ++ ["--", options.file]) = .ok options := by
  have read : PartialOptions.arguments {} (order.map Request.argument ++ ["--", options.file]) =
      .ok ⟨order.foldl grant {}, .file options.file, true⟩ :=
    (PartialOptions.arguments_requests (pairwise_of_perm same)
      (fun request _ => admits_default request) _).trans
        (PartialOptions.arguments_file options.file)
  refine ofArguments_eq_ok_iff.mpr ⟨_, read, PartialOptions.conclude_eq_ok_iff.mpr ⟨?_, complete⟩⟩
  rw [PartialOptions.commit_file named, foldl_grant_of_perm same inputs]

/-- Texts that look like options, and a file that looks like two dashes, stay what they are. -/
theorem ofArguments_requests_disguised :
    let options : Options :=
      { file := "--", start := some "-q", inputs := ["", "--seed=1", "a=b"],
        amount := some 4294967295, seed := some 0, quiet := true, showCount := true }
    let order : List Request :=
      [.seed 0, .input "", .showCount, .input "--seed=1", .start "-q", .amount 4294967295, .quiet,
        .input "a=b"]
    options.file ≠ "" ∧ (options.seed.isSome → options.amount.isSome) ∧
    order.Perm options.requests ∧ order.filterMap Request.input? = options.inputs ∧
    ofArguments ["--seed=0", "--input=", "--derivations", "--input=--seed=1", "--start=-q",
      "--generate=4294967295", "--quiet", "--input=a=b", "--", "--"] = .ok options := by
  intro options order
  have named : options.file ≠ "" := by decide
  have complete : options.seed.isSome → options.amount.isSome := fun _ => rfl
  have same : order.Perm options.requests := by decide
  have inputs : order.filterMap Request.input? = options.inputs := by decide
  exact ⟨named, complete, same, inputs, ofArguments_requests named complete same inputs⟩

end Options

end Chomsky
