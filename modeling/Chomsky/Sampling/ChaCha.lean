import Chomsky.Sampling.Words

/-!
# ChaCha with twelve rounds

A stream of words made of blocks of sixteen. A block mixes four constants, a
key of eight words and the number of the block; the state is kept as a square
of four rows, whose columns and diagonals are mixed in turn. A key is expanded
from a 64-bit seed by a congruential generator with permuted output.
-/

namespace Chomsky

namespace ChaCha

/-- Four words in a row of the state. -/
structure Row where
  /-- The word in column zero. -/
  w0 : UInt32
  /-- The word in column one. -/
  w1 : UInt32
  /-- The word in column two. -/
  w2 : UInt32
  /-- The word in column three. -/
  w3 : UInt32
deriving DecidableEq, Repr

namespace Row

/-- A row computed from two column by column. -/
def zipWith (combine : UInt32 → UInt32 → UInt32) (first second : Row) : Row :=
  ⟨combine first.w0 second.w0, combine first.w1 second.w1,
    combine first.w2 second.w2, combine first.w3 second.w3⟩

/-- A row computed from another column by column. -/
def map (change : UInt32 → UInt32) (row : Row) : Row :=
  ⟨change row.w0, change row.w1, change row.w2, change row.w3⟩

/-- A row moved one column to the left, around the end. -/
def turn (row : Row) : Row :=
  ⟨row.w1, row.w2, row.w3, row.w0⟩

/-- The words of a row, column by column. -/
def toList (row : Row) : List UInt32 :=
  [row.w0, row.w1, row.w2, row.w3]

end Row

/-- The four rows of the state. -/
structure Square where
  /-- Row zero, which starts as the constants. -/
  a : Row
  /-- Row one, which starts as the first half of the key. -/
  b : Row
  /-- Row two, which starts as the second half of the key. -/
  c : Row
  /-- Row three, which starts as the number of the block. -/
  d : Row
deriving DecidableEq, Repr

/-- A word rotated to the left, by more than no bits and fewer than all. -/
def rotateLeft (count : UInt32) (word : UInt32) : UInt32 :=
  (word <<< count) ||| (word >>> (32 - count))

/-- A word rotated to the right, by any number of bits below thirty-two. -/
def rotateRight (count : UInt32) (word : UInt32) : UInt32 :=
  if count = 0 then word else rotateLeft (32 - count) word

namespace Square

/-- Half a round: two additions, each of which then flips and rotates the row
that was not part of it. -/
def halfRound (dTurn bTurn : UInt32) (square : Square) : Square :=
  let a := square.a.zipWith (· + ·) square.b
  let d := (square.d.zipWith (· ^^^ ·) a).map (rotateLeft dTurn)
  let c := square.c.zipWith (· + ·) d
  let b := (square.b.zipWith (· ^^^ ·) c).map (rotateLeft bTurn)
  ⟨a, b, c, d⟩

/-- A round over the four columns. -/
def columnRound (square : Square) : Square :=
  (square.halfRound 16 12).halfRound 8 7

/-- A round over the four diagonals, made columns by turning the rows. -/
def diagonalRound (square : Square) : Square :=
  let mixed :=
    columnRound ⟨square.a, square.b.turn, square.c.turn.turn, square.d.turn.turn.turn⟩
  ⟨mixed.a, mixed.b.turn.turn.turn, mixed.c.turn.turn, mixed.d.turn⟩

/-- Pairs of rounds, one over the columns and one over the diagonals. -/
def doubleRounds : Nat → Square → Square
  | 0, square => square
  | count + 1, square => doubleRounds count square.columnRound.diagonalRound

/-- The sum of two states, word by word. -/
def add (first second : Square) : Square :=
  ⟨first.a.zipWith (· + ·) second.a, first.b.zipWith (· + ·) second.b,
    first.c.zipWith (· + ·) second.c, first.d.zipWith (· + ·) second.d⟩

/-- The sixteen words of a state, row by row. -/
def toList (square : Square) : List UInt32 :=
  square.a.toList ++ square.b.toList ++ square.c.toList ++ square.d.toList

end Square

/-- The eight words that tell one stream from another. -/
structure Key where
  /-- The first four words. -/
  first : Row
  /-- The last four words. -/
  second : Row
deriving DecidableEq, Repr

/-- The state that the numbered block is mixed from. -/
def initial (key : Key) (number : Nat) : Square where
  a := ⟨0x61707865, 0x3320646e, 0x79622d32, 0x6b206574⟩
  b := key.first
  c := key.second
  d := ⟨UInt32.ofNat number, UInt32.ofNat (number / (1 <<< 32)), 0, 0⟩

/-- The words of the numbered block. -/
def block (key : Key) (number : Nat) : List UInt32 :=
  (((initial key number).doubleRounds 6).add (initial key number)).toList

/-- The blocks one after the other. Their numbers have 64 bits, after which the
stream starts again. -/
def stream (key : Key) : WordSource where
  word position := (block key (position / 16)).getD (position % 16) 0
  patience := 1 <<< 68

/-- The state of the key expansion after one step. -/
def advance (state : UInt64) : UInt64 :=
  state * 6364136223846793005 + 11634580027462260723

/-- The word that the key expansion gives out in a state: its upper half folded
in, rotated by its uppermost bits. -/
def output (state : UInt64) : UInt32 :=
  let folded := ((state >>> 18) ^^^ state) >>> 27
  rotateRight (state >>> 59).toUInt32 folded.toUInt32

/-- Four words of the key expansion, from the state before them. -/
def expandRow (state : UInt64) : Row × UInt64 :=
  let s0 := advance state
  let s1 := advance s0
  let s2 := advance s1
  let s3 := advance s2
  (⟨output s0, output s1, output s2, output s3⟩, s3)

/-- The key that a seed is expanded to. -/
def keyOfSeed (seed : UInt64) : Key :=
  let first := expandRow seed
  ⟨first.1, (expandRow first.2).1⟩

/-- The stream of a seed. -/
def seeded (seed : UInt64) : WordSource :=
  stream (keyOfSeed seed)

end ChaCha

end Chomsky
