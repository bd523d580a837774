import Chomsky.Text.Pieces

/-!
# Paths

A path is compared by its components, so that repeated and trailing slashes and
inner dots make no difference. A leading slash and a leading dot do, and a
double dot is never resolved, because that would need the file system.
-/

namespace Chomsky

namespace Path

/-- The parts of a path between its slashes, empty ones included. -/
def segments (path : String) : List String :=
  (pieces '/' path.toList).map String.ofList

/-- Whether a segment leads nowhere: nothing between two slashes, or a dot. -/
def isIdle (segment : String) : Bool :=
  segment = "" || segment = "."

/-- The components that tell paths apart; the root directory counts as one. -/
def components (path : String) : List String :=
  match segments path with
  | [] => []
  | [first] => if first = "" then [] else [first]
  | first :: rest =>
      (if first = "" then "/" else first) :: rest.filter fun segment => !isIdle segment

end Path

end Chomsky
