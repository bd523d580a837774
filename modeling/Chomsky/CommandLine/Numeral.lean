/-!
# Numerals of the command line

Numbers are written in ASCII digits with an optional sign. A minus sign is
taken only where the number is zero, as all numbers are bounded by zero.
-/

namespace Chomsky

namespace Numeral

/-- The number that a digit stands for. -/
def digit? (character : Char) : Option Nat :=
  if '0' ≤ character ∧ character ≤ '9' then some (character.toNat - '0'.toNat) else none

/-- The number that starts with `high` and continues with digits. -/
def continue? (high : Nat) : List Char → Option Nat
  | [] => some high
  | character :: rest =>
      match digit? character with
      | some digit => continue? (high * 10 + digit) rest
      | none => none

/-- The number that digits stand for; there is at least one. -/
def digits? : List Char → Option Nat
  | [] => none
  | digits => continue? 0 digits

/-- The 32-bit number that a text stands for. -/
def word32? (text : String) : Option UInt32 :=
  let number := match text.toList with
    | '+' :: digits => digits? digits
    | '-' :: digits => (digits? digits).filter (· = 0)
    | digits => digits? digits
  match number with
  | some number => if number < UInt32.size then some (UInt32.ofNat number) else none
  | none => none

/-- The 64-bit number that a text stands for; it has no minus sign. -/
def word64? (text : String) : Option UInt64 :=
  let number := match text.toList with
    | '+' :: digits => digits? digits
    | digits => digits? digits
  match number with
  | some number => if number < UInt64.size then some (UInt64.ofNat number) else none
  | none => none

end Numeral

end Chomsky
