import Chomsky.CommandLine.Numeral

/-!
# Numerals in decimal

A number that is written in decimal, without a sign, is read as the number that it is.
-/

namespace Chomsky

namespace Numeral

variable {character : Char} {digits : List Char}

/-- A digit is read as its distance from zero. -/
theorem digit?_of_isDigit (digit : character.isDigit = true) :
    digit? character = some (character.toNat - '0'.toNat) := by
  simp only [Char.isDigit, Bool.and_eq_true, decide_eq_true_eq] at digit
  exact if_pos digit

/-- Digits continue a number as they do in base ten. -/
theorem continue?_of_isDigit (each : ∀ character ∈ digits, character.isDigit = true)
    (high : Nat) : continue? high digits = some (Nat.ofDigitChars 10 digits high) := by
  induction digits generalizing high with
  | nil => rfl
  | cons character rest inductionHypothesis =>
      rw [List.forall_mem_cons] at each
      rw [continue?, digit?_of_isDigit each.1, Nat.ofDigitChars_cons, Nat.mul_comm 10]
      exact inductionHypothesis each.2 _

/-- Digits continue nothing, if there are any. -/
theorem digits?_of_ne_nil (nonempty : digits ≠ []) : digits? digits = continue? 0 digits := by
  cases digits with
  | nil => exact absurd rfl nonempty
  | cons first rest => rfl

/-- A number in decimal has digits only. -/
theorem isDigit_of_mem_toDigits {number : Nat} (member : character ∈ Nat.toDigits 10 number) :
    character.isDigit = true :=
  Nat.isDigit_of_mem_toDigits (by decide) (by decide) member

/-- A number is what its decimal digits stand for. -/
theorem digits?_toDigits (number : Nat) : digits? (Nat.toDigits 10 number) = some number := by
  rw [digits?_of_ne_nil Nat.toDigits_ne_nil,
    continue?_of_isDigit (fun _ => isDigit_of_mem_toDigits), Nat.ofDigitChars_ten_toDigits]

/-- A number in decimal has no sign. -/
theorem toDigits_ne_sign {number : Nat} (sign : character.isDigit = false) :
    Nat.toDigits 10 number ≠ character :: digits := by
  intro shape
  have member : character ∈ Nat.toDigits 10 number := shape ▸ List.mem_cons_self
  exact Bool.false_ne_true (sign.symm.trans (isDigit_of_mem_toDigits member))

/-- A 32-bit number in decimal is read back. -/
theorem word32?_repr (word : UInt32) : word32? word.toNat.repr = some word := by
  have plus : ∀ digits, Nat.toDigits 10 word.toNat = '+' :: digits → False :=
    fun _ => toDigits_ne_sign rfl
  have minus : ∀ digits, Nat.toDigits 10 word.toNat = '-' :: digits → False :=
    fun _ => toDigits_ne_sign rfl
  simp only [word32?, Nat.toList_repr, digits?_toDigits, word.toNat_lt_size,
    if_true, UInt32.ofNat_toNat]

/-- A 64-bit number in decimal is read back. -/
theorem word64?_repr (word : UInt64) : word64? word.toNat.repr = some word := by
  have plus : ∀ digits, Nat.toDigits 10 word.toNat = '+' :: digits → False :=
    fun _ => toDigits_ne_sign rfl
  simp only [word64?, Nat.toList_repr, digits?_toDigits, word.toNat_lt_size,
    if_true, UInt64.ofNat_toNat]

end Numeral

end Chomsky
