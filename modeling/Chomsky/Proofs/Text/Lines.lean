import Chomsky.Proofs.Text.Encoding
import Chomsky.Text.Reader

/-!
# Lines of a text

Lines are made of bytes, and a text has lines of its own, made of characters. They
are the same: the bytes that encode a text are read as the text's own lines
(`lines_encode`). Nor does it matter whether a line is decoded with its end or
without it, so that a reader who takes one line after the other meets the lines of
the whole input (`lines_eq_nextLine`).
-/

namespace Chomsky

/-- The lines of a text: what stands in front of each line feed, less a carriage
return at its end, and what stands behind the last one unless it is empty. -/
def textLines (text : String) : List String :=
  let cuts := pieces '\n' text.toList
  (cuts.dropLast.map dropReturn ++ cuts.getLast?.toList.filter (· ≠ [])).map String.ofList

variable {text : String} {line rest input : Bytes} {character : Char} {byte : UInt8}

/-- A line is decoded as the text that it encodes. -/
theorem decode?_eq_some_iff : decode? line = some text ↔ encode text = line := by
  constructor
  · exact encode_of_decode?
  · rintro rfl
    exact decode?_encode text

/-- A character below 128 is encoded as its number. -/
theorem encode_singleton (number : character.toNat = byte.toNat) (ascii : byte.toNat < 128) :
    encode (String.singleton character) = [byte] := by
  have same : character.val.toNat = byte.toNat := number
  have short : byte.toNat ≤ 127 := by omega
  rw [encode_eq_flatMap, String.toList_singleton, List.flatMap_singleton]
  simp only [String.utf8EncodeChar, same, if_pos short, UInt8.ofNat_toNat]

/-- A character below 128 is decoded by itself. -/
theorem decode?_append_singleton (number : character.toNat = byte.toNat)
    (ascii : byte.toNat < 128) :
    decode? (line ++ [byte]) = (decode? line).map (· ++ String.singleton character) := by
  apply Option.ext
  intro text
  rw [decode?_eq_some_iff, Option.map_eq_some_iff]
  simp only [decode?_eq_some_iff]
  constructor
  · intro whole
    have last : (encode text).getLast? = some byte := by rw [whole, List.getLast?_concat]
    obtain ⟨before, shape⟩ :=
      List.getLast?_eq_some_iff.mp (getLast?_of_getLast?_encode number ascii last)
    have split : text = String.ofList before ++ String.singleton character := by
      apply String.toList_injective
      simp [shape]
    refine ⟨String.ofList before, ?_, split.symm⟩
    rw [split, encode_append, encode_singleton number ascii] at whole
    exact List.append_cancel_right whole
  · rintro ⟨before, rfl, rfl⟩
    rw [encode_append, encode_singleton number ascii]

/-- Encoding loses nothing, so that no two texts are encoded alike. -/
theorem encode_injective : Function.Injective encode := by
  intro first second same
  have decoded := decode?_encode first
  rw [same, decode?_encode] at decoded
  exact (Option.some.inj decoded).symm

/-- Only the empty text is encoded by nothing. -/
theorem encode_eq_nil_iff : encode text = [] ↔ text = "" :=
  encode_injective.eq_iff' rfl

/-- The encoding of a text loses a carriage return at its end when the text does. -/
theorem dropCarriageReturn_encode (text : String) :
    dropCarriageReturn (encode text) = encode (String.ofList (dropReturn text.toList)) := by
  rw [dropCarriageReturn, dropReturn]
  by_cases last : text.toList.getLast? = some '\r'
  · obtain ⟨before, shape⟩ := List.getLast?_eq_some_iff.mp last
    have split : text = String.ofList before ++ String.singleton '\r' := by
      apply String.toList_injective
      simp [shape]
    have number : '\r'.toNat = carriageReturn.toNat := rfl
    have encoded : encode text = encode (String.ofList before) ++ [carriageReturn] := by
      rw [split, encode_append, encode_singleton number (by decide)]
    rw [encoded, if_pos List.getLast?_concat, List.dropLast_concat, if_pos last, shape,
      List.dropLast_concat]
  · rw [if_neg (getLast?_encode_ne last), if_neg last, String.ofList_toList]

/-- Whether a carriage return is dropped before a line is decoded or after that makes
no difference. -/
theorem decode?_dropCarriageReturn (line : Bytes) :
    decode? (dropCarriageReturn line) =
      (decode? line).map fun text => String.ofList (dropReturn text.toList) := by
  cases decoded : decode? line with
  | some text =>
      rw [← encode_of_decode? decoded, dropCarriageReturn_encode, decode?_encode, Option.map_some]
  | none =>
      rw [dropCarriageReturn]
      split
      · next last =>
          obtain ⟨before, rfl⟩ := List.getLast?_eq_some_iff.mp last
          have number : '\r'.toNat = carriageReturn.toNat := rfl
          rw [decode?_append_singleton number (by decide), Option.map_eq_none_iff] at decoded
          rw [List.dropLast_concat, decoded, Option.map_none]
      · rw [decoded, Option.map_none]

/-- The pieces between line feeds are the same for a text and its encoding. -/
theorem pieces_lineFeed_encode (text : String) :
    pieces lineFeed (encode text) =
      (pieces '\n' text.toList).map fun piece => encode (String.ofList piece) := by
  simp only [encode_eq_flatMap, String.toList_ofList]
  induction text.toList with
  | nil => rfl
  | cons character rest inductionHypothesis =>
      have nonempty : pieces '\n' rest ≠ [] := pieces_ne_nil rest
      obtain ⟨first, others, cut⟩ := List.exists_cons_of_ne_nil nonempty
      rw [List.flatMap_cons]
      by_cases newline : character = '\n'
      · subst newline
        rw [pieces_separator_cons, List.map_cons, ← inductionHypothesis]
        exact pieces_separator_cons _
      · -- The bytes of a longer encoding are all above 127.
        have absent : lineFeed ∉ String.utf8EncodeChar character := by
          intro member
          have number := toNat_eq_of_mem_utf8EncodeChar member (by decide)
          exact newline (Char.toNat_inj.mp number)
        rw [cut, List.map_cons] at inductionHypothesis
        rw [pieces_append_of_notMem absent inductionHypothesis, pieces, if_neg newline, cut,
          List.map_cons, List.flatMap_cons]

/-- Every piece but the last is a line, and the last one if it is not empty. -/
theorem linesOfPieces_eq (cuts : List Bytes) :
    linesOfPieces cuts =
      cuts.dropLast.map dropCarriageReturn ++ cuts.getLast?.toList.filter (· ≠ []) := by
  induction cuts with
  | nil => rfl
  | cons piece others inductionHypothesis =>
      cases others with
      | nil => by_cases empty : piece = [] <;> simp [linesOfPieces, empty]
      | cons next others =>
          rw [linesOfPieces, inductionHypothesis, List.dropLast_cons_cons, List.map_cons,
            List.cons_append, List.getLast?_cons_cons]
          exact List.cons_ne_nil next others

/-- Pieces that others follow are lines, whatever follows them. -/
theorem linesOfPieces_append (cuts : List Bytes) {others : List Bytes} (nonempty : others ≠ []) :
    linesOfPieces (cuts ++ others) = cuts.map dropCarriageReturn ++ linesOfPieces others := by
  rw [linesOfPieces_eq, linesOfPieces_eq, List.dropLast_append_of_ne_nil nonempty,
    List.getLast?_append_of_ne_nil _ nonempty, List.map_append, List.append_assoc]

/-- What stands behind a line feed has lines of its own. -/
theorem lines_append_lineFeed (input later : Bytes) :
    lines (input ++ lineFeed :: later) = lines (input ++ [lineFeed]) ++ lines later := by
  have cut : ∀ rest, byteLines (input ++ lineFeed :: rest) =
      (pieces lineFeed input).map dropCarriageReturn ++ byteLines rest := by
    intro rest
    rw [byteLines, pieces_append, linesOfPieces_append _ (pieces_ne_nil rest), byteLines]
  have nothing : byteLines [] = [] := rfl
  rw [lines, lines, lines, cut later, cut [], nothing, List.append_nil, List.map_append]

/-- The encoding of a text is read as the text's own lines. -/
theorem lines_encode (text : String) : lines (encode text) = (textLines text).map some := by
  have terminated : ∀ piece : List Char,
      decode? (dropCarriageReturn (encode (String.ofList piece))) =
        some (String.ofList (dropReturn piece)) := by
    intro piece
    rw [dropCarriageReturn_encode, decode?_encode, String.toList_ofList]
  have nonempty : ∀ piece : List Char, encode (String.ofList piece) ≠ [] ↔ piece ≠ [] := by
    intro piece
    rw [ne_eq, encode_eq_nil_iff, ← String.toList_eq_nil_iff, String.toList_ofList]
  rw [lines, byteLines, pieces_lineFeed_encode, linesOfPieces_eq, textLines]
  simp only [List.map_append, List.map_map, ← List.map_dropLast, List.getLast?_map,
    Option.toList_map, List.filter_map, Function.comp_def, terminated, nonempty, decode?_encode]

/-- A line that does not end is cut nowhere. -/
theorem cutLine_of_notMem (unbroken : lineFeed ∉ line) : cutLine line = (line, []) := by
  induction line with
  | nil => rfl
  | cons byte rest inductionHypothesis =>
      rw [List.mem_cons, not_or] at unbroken
      rw [cutLine, if_neg (Ne.symm unbroken.1), inductionHypothesis unbroken.2]

/-- An input is cut behind its first line feed. -/
theorem cutLine_append (unbroken : lineFeed ∉ line) (rest : Bytes) :
    cutLine (line ++ lineFeed :: rest) = (line ++ [lineFeed], rest) := by
  induction line with
  | nil => rfl
  | cons byte line inductionHypothesis =>
      rw [List.mem_cons, not_or] at unbroken
      rw [List.cons_append, cutLine, if_neg (Ne.symm unbroken.1), inductionHypothesis unbroken.2,
        List.cons_append]

/-- A line that does not end is the only one, unless it is empty. -/
theorem byteLines_of_notMem (unbroken : lineFeed ∉ line) (nonempty : line ≠ []) :
    byteLines line = [line] := by
  rw [byteLines, pieces_of_notMem unbroken, linesOfPieces, if_neg nonempty]

/-- A terminated line is read without its end. -/
theorem nextLine_append (unbroken : lineFeed ∉ line) (rest : Bytes) :
    nextLine (line ++ lineFeed :: rest) =
      match decode? (dropCarriageReturn line) with
      | none => .unreadable
      | some text => .line text rest := by
  have number : '\n'.toNat = lineFeed.toNat := rfl
  have nonempty : line ++ [lineFeed] ≠ [] := by simp
  have ended : ∀ text : String, dropLineEnd (text ++ String.singleton '\n').toList =
      dropReturn text.toList := by
    intro text
    simp [dropLineEnd]
  rw [nextLine, cutLine_append unbroken, if_neg nonempty, decode?_dropCarriageReturn,
    decode?_append_singleton number (by decide)]
  cases decode? line with
  | none => rfl
  | some text => simp only [Option.map_some, ended]

/-- What is left of an input without line feeds is read as it is. -/
theorem nextLine_of_notMem (unbroken : lineFeed ∉ line) (nonempty : line ≠ []) :
    nextLine line =
      match decode? line with
      | none => .unreadable
      | some text => .line text [] := by
  rw [nextLine, cutLine_of_notMem unbroken, if_neg nonempty]
  cases decoded : decode? line with
  | none => rfl
  | some text =>
      have kept : dropLineEnd text.toList = text.toList := by
        rw [dropLineEnd, if_neg]
        intro last
        apply unbroken
        rw [← encode_of_decode? decoded, encode_eq_flatMap, List.mem_flatMap]
        exact ⟨'\n', List.mem_of_getLast? last, by decide⟩
      simp only [kept, String.ofList_toList]

/-- A reader meets the lines of its input one after the other. -/
theorem lines_eq_nextLine (input : Bytes) :
    lines input =
      match nextLine input with
      | .ended => []
      | .unreadable => none :: lines (cutLine input).2
      | .line text rest => some text :: lines rest := by
  by_cases broken : lineFeed ∈ input
  · obtain ⟨line, rest, rfl, unbroken⟩ := List.eq_append_cons_of_mem broken
    rw [lines, byteLines_append unbroken, nextLine_append unbroken, List.map_cons,
      cutLine_append unbroken]
    cases decode? (dropCarriageReturn line) <;> rfl
  · by_cases empty : input = []
    · subst empty
      rfl
    · rw [lines, byteLines_of_notMem broken empty, nextLine_of_notMem broken empty,
        List.map_singleton, cutLine_of_notMem broken]
      cases decode? input <;> rfl

end Chomsky
