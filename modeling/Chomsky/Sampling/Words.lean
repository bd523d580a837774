/-!
# Random words

A word source is an endless sequence of 32-bit words, addressed by position, so
that drawing from it is a matter of counting. A supply is a source of which
some words have been drawn.
-/

namespace Chomsky

/-- An endless sequence of 32-bit words. -/
structure WordSource where
  /-- The word at each position. -/
  word : Nat → UInt32
  /-- How many words in a row are looked at for one that is wanted. From its
  position on, a source that repeats itself shows all it has in one period. -/
  patience : Nat

namespace WordSource

/-- A multiplier whose multiples visit every 32-bit word, because it is odd. -/
def stride : Nat := 0x9E3779B9

/-- The source that starts with the given words. After them, each word is its
own position times the stride. -/
def listed (words : Array UInt32) : WordSource where
  word position := words.getD position (UInt32.ofNat (position * stride))
  patience := words.size + 1 <<< 32

end WordSource

/-- A source and how much has been drawn from it. -/
structure Supply where
  /-- Where the words come from. -/
  source : WordSource
  /-- The number of words drawn so far. -/
  drawn : Nat

namespace Supply

/-- A source of which nothing has been drawn. -/
def fresh (source : WordSource) : Supply := ⟨source, 0⟩

/-- The next word. -/
def next (supply : Supply) : UInt32 :=
  supply.source.word supply.drawn

/-- What is left when the next word has been drawn. -/
def rest (supply : Supply) : Supply :=
  { supply with drawn := supply.drawn + 1 }

@[simp] theorem drawn_rest (supply : Supply) : supply.rest.drawn = supply.drawn + 1 := rfl

end Supply

end Chomsky
