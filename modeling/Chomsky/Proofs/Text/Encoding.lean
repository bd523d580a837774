import Chomsky.Proofs.Text.Pieces
import Chomsky.Text.Lines

/-!
# Lines and their encoding

In UTF-8 a byte below 128 only ever stands for the character with that number,
so a text is cut into lines at its line feeds and nowhere else. A text made of
terminated lines is read as these lines (`lines_encode_join`), and no line that
is read holds a line feed (`newline_notMem_of_mem_lines`).
-/

namespace Chomsky

variable {text : String} {line rest source : Bytes}

/-- A text is encoded character by character. -/
theorem encode_eq_flatMap (text : String) :
    encode text = text.toList.flatMap String.utf8EncodeChar := by
  have whole : text.toByteArray = text.toList.utf8Encode := String.utf8Encode_toList.symm
  rw [encode, String.toUTF8_eq_toByteArray, whole, List.utf8Encode, List.data_toByteArray]

/-- The texts of two encodings may be joined first. -/
theorem encode_append (first second : String) :
    encode (first ++ second) = encode first ++ encode second := by
  simp [encode_eq_flatMap]

/-- A byte below 128 is the number of the character that it helps to encode. -/
theorem toNat_eq_of_mem_utf8EncodeChar {character : Char} {byte : UInt8}
    (member : byte ∈ String.utf8EncodeChar character) (ascii : byte.toNat < 128) :
    character.toNat = byte.toNat := by
  have number : character.toNat = character.val.toNat := rfl
  -- Every byte of a longer encoding has a summand of 128 at least.
  have high : ∀ value, 128 ≤ value → value < 256 → byte ≠ UInt8.ofNat value := by
    rintro value least most rfl
    rw [UInt8.toNat_ofNat'] at ascii
    omega
  simp only [String.utf8EncodeChar] at member
  split at member
  · obtain rfl := List.mem_singleton.mp member
    rw [number, UInt8.toNat_ofNat']
    omega
  split at member
  · simp only [List.mem_cons, List.not_mem_nil, or_false] at member
    rcases member with same | same <;> exact absurd same (high _ (by omega) (by omega))
  split at member
  · simp only [List.mem_cons, List.not_mem_nil, or_false] at member
    rcases member with same | same | same <;>
      exact absurd same (high _ (by omega) (by omega))
  · simp only [List.mem_cons, List.not_mem_nil, or_false] at member
    rcases member with same | same | same | same <;>
      exact absurd same (high _ (by omega) (by omega))

/-- A byte below 128 stands in an encoding only for its own character. -/
theorem mem_of_mem_encode {character : Char} {byte : UInt8} (number : character.toNat = byte.toNat)
    (ascii : byte.toNat < 128) (member : byte ∈ encode text) : character ∈ text.toList := by
  rw [encode_eq_flatMap, List.mem_flatMap] at member
  obtain ⟨own, inText, byteMember⟩ := member
  have same : own = character :=
    Char.toNat_inj.mp ((toNat_eq_of_mem_utf8EncodeChar byteMember ascii).trans number.symm)
  exact same ▸ inText

/-- What is decoded is encoded as it was. -/
theorem encode_of_decode? (decoded : decode? line = some text) : encode text = line := by
  rw [decode?, String.fromUTF8?] at decoded
  split at decoded
  · obtain rfl := Option.some.inj decoded
    rfl
  · cases decoded

/-- A byte below 128 ends an encoding only where its own character ends the text. -/
theorem getLast?_of_getLast?_encode {character : Char} {byte : UInt8}
    (number : character.toNat = byte.toNat) (ascii : byte.toNat < 128)
    (last : (encode text).getLast? = some byte) : text.toList.getLast? = some character := by
  rw [encode_eq_flatMap] at last
  cases shape : text.toList.getLast? with
  | none =>
      rw [List.getLast?_eq_none_iff] at shape
      simp [shape] at last
  | some own =>
      obtain ⟨before, whole⟩ := List.getLast?_eq_some_iff.mp shape
      have inside : (String.utf8EncodeChar own).getLast? = some byte := by
        rwa [whole, List.flatMap_append, List.flatMap_singleton, List.getLast?_append,
          Option.or_of_isSome (by simp)] at last
      have ownNumber := toNat_eq_of_mem_utf8EncodeChar (List.mem_of_getLast? inside) ascii
      rw [Char.toNat_inj.mp (ownNumber.trans number.symm)]

/-- The encoding of a text ends in a carriage return only if the text does. -/
theorem getLast?_encode_ne (kept : text.toList.getLast? ≠ some '\r') :
    (encode text).getLast? ≠ some carriageReturn :=
  fun last => kept (getLast?_of_getLast?_encode rfl (by decide) last)

/-- A terminated line is the first one. -/
theorem byteLines_append (unbroken : lineFeed ∉ line) (rest : Bytes) :
    byteLines (line ++ lineFeed :: rest) = dropCarriageReturn line :: byteLines rest := by
  rw [byteLines, byteLines, pieces_append_separator unbroken]
  have nonempty : pieces lineFeed rest ≠ [] := pieces_ne_nil rest
  obtain ⟨next, others, shape⟩ := List.exists_cons_of_ne_nil nonempty
  rw [shape, linesOfPieces]
  exact List.cons_ne_nil next others

/-- A terminated text without line feeds is read as a line, and the lines after it
as before. -/
theorem lines_append (unbroken : '\n' ∉ text.toList) (kept : text.toList.getLast? ≠ some '\r')
    (rest : Bytes) : lines (encode (text ++ "\n") ++ rest) = some text :: lines rest := by
  have unbrokenBytes : lineFeed ∉ encode text :=
    fun member => unbroken (mem_of_mem_encode rfl (by decide) member)
  have terminated : encode (text ++ "\n") ++ rest = encode text ++ lineFeed :: rest := by
    rw [encode_append, List.append_assoc]
    rfl
  rw [terminated, lines, byteLines_append unbrokenBytes, dropCarriageReturn,
    if_neg (getLast?_encode_ne kept), List.map_cons, decode?_encode, lines]

/-- Texts that are terminated one after the other are read as the lines of the
whole. -/
theorem lines_encode_join (texts : List String) (unbroken : ∀ text ∈ texts, '\n' ∉ text.toList)
    (kept : ∀ text ∈ texts, text.toList.getLast? ≠ some '\r') :
    lines (encode (String.join (texts.map (· ++ "\n")))) = texts.map some := by
  induction texts with
  | nil => rfl
  | cons text others inductionHypothesis =>
      rw [List.forall_mem_cons] at unbroken kept
      rw [List.map_cons, String.join_cons, encode_append, lines_append unbroken.1 kept.1,
        inductionHypothesis unbroken.2 kept.2, List.map_cons]

/-- Pieces without line feeds make lines without them. -/
theorem lineFeed_notMem_of_mem_linesOfPieces {cuts : List Bytes}
    (unbroken : ∀ piece ∈ cuts, lineFeed ∉ piece) (member : line ∈ linesOfPieces cuts) :
    lineFeed ∉ line := by
  induction cuts with
  | nil => cases member
  | cons piece others inductionHypothesis =>
      rw [List.forall_mem_cons] at unbroken
      cases others with
      | nil =>
          rw [linesOfPieces] at member
          split at member
          · cases member
          · obtain rfl := List.mem_singleton.mp member
            exact unbroken.1
      | cons next others =>
          rw [linesOfPieces, List.mem_cons] at member
          · rcases member with rfl | later
            · rw [dropCarriageReturn]
              split
              · exact fun inside => unbroken.1 (List.dropLast_subset piece inside)
              · exact unbroken.1
            · exact inductionHypothesis unbroken.2 later
          · exact List.cons_ne_nil next others

/-- No line that is read holds a line feed. -/
theorem newline_notMem_of_mem_lines (member : some text ∈ lines source) :
    '\n' ∉ text.toList := by
  obtain ⟨line, lineMember, decoded⟩ := List.mem_map.mp member
  intro newline
  apply lineFeed_notMem_of_mem_linesOfPieces (fun _ => separator_notMem_of_mem_pieces) lineMember
  rw [← encode_of_decode? decoded, encode_eq_flatMap, List.mem_flatMap]
  exact ⟨'\n', newline, by decide⟩

end Chomsky
