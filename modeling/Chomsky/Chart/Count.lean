import Chomsky.Chart.Basic

/-!
# Counting derivations

The number of trees of a slot is the sum over its derivations of the product of
the numbers of trees of the two halves. Numbers are capped, which can be done
at every step because sums and products of capped numbers cap alike.
-/

namespace Chomsky

namespace Chart

/-- The largest number that a count is reported as. -/
def countCap : Nat := (1 <<< 128) - 1

/-- A number, or the cap when it is larger. -/
def capped (number : Nat) : Nat :=
  min countCap number

/-- The capped number of trees of one derivation of a span, given the counts of
the slots of shorter spans. -/
def derivationCount (shorter : Nat → Nat → List Nat) (start width : Nat) :
    Derivation → Nat
  | .terminal _ => 1
  | .split leftWidth leftSlot rightSlot =>
      capped ((shorter start leftWidth).getD leftSlot 0 *
        (shorter (start + leftWidth) (width - leftWidth)).getD rightSlot 0)

/-- The capped number of trees of a slot. -/
def slotCount (shorter : Nat → Nat → List Nat) (start width : Nat) (slot : Slot) : Nat :=
  slot.derivations.foldl
    (fun total derivation => capped (total + derivationCount shorter start width derivation)) 0

/-- The capped numbers of trees of all slots, in the order of the slots. -/
def counts (chart : Chart) : SpanTable (List Nat) :=
  .fill chart.size fun shorter start width =>
    (chart.cell start width).map (slotCount shorter start width)

/-- The capped number of trees of the whole word from a symbol. -/
def count (chart : Chart) (symbol : String) : Nat :=
  match chart.root? symbol with
  | some slot => (chart.counts.entry 0 chart.size).getD slot 0
  | none => 0

/-- Capping the parts of a sum before adding makes no difference. -/
theorem capped_add (first second : Nat) :
    capped (capped first + capped second) = capped (first + second) := by
  unfold capped
  omega

/-- Capping one factor before multiplying makes no difference. -/
theorem capped_mul_capped (first second : Nat) :
    capped (first * capped second) = capped (first * second) := by
  by_cases small : second ≤ countCap
  · simp [capped, Nat.min_eq_right small]
  · have large : countCap ≤ second := by omega
    rcases Nat.eq_zero_or_pos first with rfl | positive
    · simp
    · have capBelow : countCap ≤ first * countCap := Nat.le_mul_of_pos_left countCap positive
      have productBelow : first * countCap ≤ first * second := Nat.mul_le_mul_left first large
      simp only [capped, Nat.min_eq_left large]
      omega

/-- Capping the factors before multiplying makes no difference. -/
theorem capped_mul (first second : Nat) :
    capped (capped first * capped second) = capped (first * second) := by
  rw [capped_mul_capped, Nat.mul_comm, capped_mul_capped, Nat.mul_comm]

end Chart

end Chomsky
