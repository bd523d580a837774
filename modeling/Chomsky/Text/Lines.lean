import Chomsky.Text.Pieces

/-!
# Lines of a byte source

A line ends at a line feed and loses one carriage return standing just before
it. What follows the last line feed is a line of its own when it is not empty,
and keeps a carriage return at its end. Each line is decoded on its own, so one
that is not valid UTF-8 does not hide the lines after it.
-/

namespace Chomsky

/-- Undecoded text. -/
abbrev Bytes := List UInt8

/-- The byte that ends a line. -/
def lineFeed : UInt8 := 0x0A

/-- The byte that a line loses when it stands just before a line feed. -/
def carriageReturn : UInt8 := 0x0D

/-- A line without one carriage return at its end. -/
def dropCarriageReturn (line : Bytes) : Bytes :=
  if line.getLast? = some carriageReturn then line.dropLast else line

/-- The lines made of the pieces between line feeds, of which the last piece
alone has no line feed after it. -/
def linesOfPieces : List Bytes → List Bytes
  | [] => []
  | [unterminated] => if unterminated = [] then [] else [unterminated]
  | line :: rest => dropCarriageReturn line :: linesOfPieces rest

/-- The lines of a source, not yet decoded. -/
def byteLines (source : Bytes) : List Bytes :=
  linesOfPieces (pieces lineFeed source)

/-- The text that a line encodes in UTF-8, if it encodes any. -/
def decode? (line : Bytes) : Option String :=
  String.fromUTF8? ⟨line.toArray⟩

/-- The bytes that encode a text in UTF-8. -/
def encode (text : String) : Bytes :=
  text.toUTF8.data.toList

/-- The lines of a source, with `none` for one that is not valid UTF-8. -/
def lines (source : Bytes) : List (Option String) :=
  (byteLines source).map decode?

/-- Encoding loses nothing. -/
theorem decode?_encode (text : String) : decode? (encode text) = some text := by
  simp only [decode?, encode, String.fromUTF8?, String.toUTF8_eq_toByteArray,
    Array.toArray_toList, dif_pos text.isValidUTF8]
  rfl

end Chomsky
