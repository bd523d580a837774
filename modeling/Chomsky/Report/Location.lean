import Chomsky.Report.Path

/-!
# Located reports

A report says where something went wrong and what it was: a path, with a line
number unless the file as a whole is meant, in front of the description. The
colour changes are part of the text.
-/

namespace Chomsky

universe u

/-- A place in a file, whose lines count from one. -/
structure Location where
  /-- The path as it was given. -/
  path : String
  /-- The line, or zero for the file as a whole. -/
  line : Nat
deriving DecidableEq, Repr

namespace Location

/-- The file as a whole. -/
def whole (path : String) : Location := ⟨path, 0⟩

/-- Whether two locations are the same line of the same path. -/
def agrees (first second : Location) : Bool :=
  Path.components first.path = Path.components second.path && first.line = second.line

/-- A location as it stands in a report. -/
def text (location : Location) : String :=
  if location.line = 0 then location.path
  else location.path ++ ":" ++ location.line.repr

end Location

/-- Something that happened at a location. -/
structure Located (α : Type u) where
  /-- Where it happened. -/
  location : Location
  /-- What happened. -/
  cause : α
deriving DecidableEq, Repr

namespace Located

variable {α : Type u}

/-- A report with its location in red ahead of the description. -/
def report (describe : α → String) (located : Located α) : String :=
  "\x1b[31;49;1m[" ++ located.location.text ++ "]\x1b[39;49;1m  " ++
    describe located.cause ++ "\x1b[0m"

/-- Whether two reports name the same cause at the same location. -/
def agrees [DecidableEq α] (first second : Located α) : Bool :=
  first.location.agrees second.location && first.cause = second.cause

end Located

end Chomsky
