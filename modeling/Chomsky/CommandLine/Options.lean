/-!
# Options

The settings that a command line chooses, and the names that choose them. A
flag is given or not; a valued option is given with a value.
-/

namespace Chomsky

/-- The settings of one run of the program. -/
structure Options where
  /-- The file that holds the grammar. -/
  file : String := "input.txt"
  /-- The start symbol, when it is not the default one. -/
  start : Option String := none
  /-- The texts to parse instead of those read in a session. -/
  inputs : List String := []
  /-- How many random words to make instead of parsing. -/
  amount : Option UInt32 := none
  /-- The seed of the random words. -/
  seed : Option UInt64 := none
  /-- Whether the listing of the grammar is left out. -/
  quiet : Bool := false
  /-- Whether the number of trees is reported. -/
  showCount : Bool := false
deriving DecidableEq, Repr

/-- An option that stands for itself. -/
inductive Flag where
  /-- Leave the listing out. -/
  | quiet
  /-- Report the number of trees. -/
  | derivations
  /-- Explain the options and stop. -/
  | help
  /-- Name the program and stop. -/
  | version
deriving DecidableEq, Repr

namespace Flag

/-- The flag with a long name. -/
def ofName? (name : String) : Option Flag :=
  if name = "quiet" then some quiet
  else if name = "derivations" then some derivations
  else if name = "help" then some help
  else if name = "version" then some version
  else none

/-- The flag with a short name. -/
def ofLetter? : Char → Option Flag
  | 'q' => some quiet
  | 'd' => some derivations
  | 'h' => some help
  | 'V' => some version
  | _ => none

end Flag

/-- An option that takes a value. -/
inductive Setting where
  /-- The start symbol. -/
  | start
  /-- A text to parse, which may be given any number of times. -/
  | input
  /-- How many random words to make. -/
  | amount
  /-- The seed of the random words. -/
  | seed
deriving DecidableEq, Repr

namespace Setting

/-- The setting with a long name. -/
def ofName? (name : String) : Option Setting :=
  if name = "start" then some start
  else if name = "input" then some input
  else if name = "generate" then some amount
  else if name = "seed" then some seed
  else none

/-- The setting with a short name. -/
def ofLetter? : Char → Option Setting
  | 's' => some start
  | 'i' => some input
  | 'n' => some amount
  | _ => none

end Setting

end Chomsky
