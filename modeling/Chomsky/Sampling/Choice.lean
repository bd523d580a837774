import Chomsky.Sampling.Words

/-!
# Fair choices

To pick one of `count` candidates, a word is multiplied by `count`, which spreads
the words evenly over `count` ranges of 32 bits each. The upper part of the
product is then the pick and the lower part the place within the range. Words
that fall past the common length of the ranges are refused, so that all picks
are equally likely.
-/

namespace Chomsky

/-- The number of different words. -/
def wordCount : Nat := 1 <<< 32

/-- The last accepted place within a range: `count`, moved up until it needs all
32 bits, less one. -/
def lastAccepted (count : Nat) : Nat :=
  count <<< (31 - Nat.log2 count) - 1

/-- Whether a word gives a pick out of `count` candidates. -/
def accepts (count : Nat) (word : UInt32) : Bool :=
  word.toNat * count % wordCount ≤ lastAccepted count

/-- The pick that an accepted word gives. -/
def pickOf (count : Nat) (word : UInt32) : Nat :=
  word.toNat * count / wordCount

/-- A pick is a position in the list of candidates. -/
theorem pickOf_lt {count : Nat} (positive : 0 < count) (word : UInt32) :
    pickOf count word < count := by
  have bound : word.toNat < wordCount := word.toNat_lt
  unfold pickOf
  rw [Nat.div_lt_iff_lt_mul (by decide), Nat.mul_comm count]
  exact Nat.mul_lt_mul_of_pos_right bound positive

namespace Supply

/-- The pick of the first accepted word among the next ones, looking at no more
than `patience` of them. -/
def pickWithin (count : Nat) : (patience : Nat) → Supply → Option Nat × Supply
  | 0, supply => (none, supply)
  | patience + 1, supply =>
      if accepts count supply.next then
        (some (pickOf count supply.next), supply.rest)
      else
        pickWithin count patience supply.rest

/-- A pick out of `count` candidates. -/
def pick (count : Nat) (supply : Supply) : Option Nat × Supply :=
  supply.pickWithin count supply.source.patience

universe u

/-- One of the candidates, if there are any and the source has a word that
picks one. -/
def choose {α : Type u} (candidates : List α) (supply : Supply) : Option α × Supply :=
  match supply.pick candidates.length with
  | (some position, after) => (candidates[position]?, after)
  | (none, after) => (none, after)

end Supply

end Chomsky
