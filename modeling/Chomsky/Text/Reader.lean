import Chomsky.Text.Lines

/-!
# Input read line by line

Who replies to every line cannot wait for the input to end. A reader takes the
bytes up to and including the next line feed, decodes them together, and takes
the end of the line off the text. When there are no bytes left the input is over,
so that what follows the last line feed is a line only if it is not empty.
-/

namespace Chomsky

/-- The bytes up to and including the first line feed, and the bytes after it. -/
def cutLine : Bytes → Bytes × Bytes
  | [] => ([], [])
  | byte :: rest =>
      if byte = lineFeed then ([byte], rest)
      else
        let later := cutLine rest
        (byte :: later.1, later.2)

/-- A text without one carriage return at its end. -/
def dropReturn (text : List Char) : List Char :=
  if text.getLast? = some '\r' then text.dropLast else text

/-- A text without the line feed at its end and a carriage return before that. A
carriage return at the end of a text without a line feed stays. -/
def dropLineEnd (text : List Char) : List Char :=
  if text.getLast? = some '\n' then dropReturn text.dropLast else text

/-- What comes of reading a line. -/
inductive NextLine where
  /-- The input is over. -/
  | ended
  /-- The line is not valid UTF-8. -/
  | unreadable
  /-- The line, and the input after it. -/
  | line (text : String) (rest : Bytes)
deriving DecidableEq, Repr

/-- The next line of an input. -/
def nextLine (input : Bytes) : NextLine :=
  let cut := cutLine input
  if cut.1 = [] then .ended
  else
    match decode? cut.1 with
    | none => .unreadable
    | some text => .line (String.ofList (dropLineEnd text.toList)) cut.2

/-- A cut takes nothing away. -/
theorem append_cutLine (input : Bytes) : (cutLine input).1 ++ (cutLine input).2 = input := by
  induction input with
  | nil => rfl
  | cons byte rest inductionHypothesis =>
      rw [cutLine]
      split
      · rfl
      · exact congrArg (byte :: ·) inductionHypothesis

/-- Reading a line uses input up. -/
theorem length_lt_of_nextLine {input rest : Bytes} {text : String}
    (read : nextLine input = .line text rest) : rest.length < input.length := by
  rw [nextLine] at read
  split at read
  · cases read
  · next nonempty =>
      split at read
      · cases read
      · obtain ⟨_, rfl⟩ := NextLine.line.inj read
        have whole := congrArg List.length (append_cutLine input)
        have taken := List.length_pos_iff.mpr nonempty
        rw [List.length_append] at whole
        omega

end Chomsky
