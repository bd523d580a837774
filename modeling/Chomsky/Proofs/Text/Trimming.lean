import Mathlib.Data.List.DropRight
import Chomsky.Text.Blank

/-!
# Trimming

A trimmed text neither starts nor ends with a blank. Trimming makes a text so
(`isTrimmed_trim`), leaves one alone that is so already (`IsTrimmed.trim_eq`),
and does not see blanks that are put in front of a text or behind it.
-/

namespace Chomsky

/-- There is no blank at either end. -/
structure IsTrimmed (text : List Char) : Prop where
  first : ∀ character, text.head? = some character → isBlank character = false
  last : ∀ character, text.getLast? = some character → isBlank character = false

variable {text blanks : List Char}

theorem trimRight_eq_rdropWhile (text : List Char) : trimRight text = text.rdropWhile isBlank :=
  rfl

/-- Trimming on the right keeps the text up to where the blanks begin. -/
theorem isPrefix_trimRight (text : List Char) : trimRight text <+: text :=
  List.rdropWhile_prefix isBlank text

/-- Trimming keeps a part of the text. -/
theorem isInfix_trim (text : List Char) : trim text <:+: text :=
  (isPrefix_trimRight (trimLeft text)).isInfix.trans (List.dropWhile_suffix isBlank).isInfix

/-- What is trimmed on the right starts as before, if anything is left. -/
theorem head?_trimRight {character : Char} (here : (trimRight text).head? = some character) :
    text.head? = some character := by
  obtain ⟨rest, whole⟩ := isPrefix_trimRight text
  rw [← whole, List.head?_append, here, Option.some_or]

/-- A trimmed text has no blank at either end. -/
theorem isTrimmed_trim (text : List Char) : IsTrimmed (trim text) where
  first := by
    intro character here
    have kept := List.head?_dropWhile_not isBlank text
    have inside := head?_trimRight here
    rw [trimLeft] at inside
    simpa [inside] using kept
  last := by
    intro character here
    rw [trim, trimRight, List.getLast?_reverse] at here
    have kept := List.head?_dropWhile_not isBlank (trimLeft text).reverse
    simpa [here] using kept

/-- Trimming leaves a text alone that has no blank at either end. -/
theorem IsTrimmed.trim_eq (trimmed : IsTrimmed text) : trim text = text := by
  have left : trimLeft text = text := by
    rw [trimLeft, List.dropWhile_eq_self_iff]
    intro nonempty
    simp [trimmed.first text[0] (by simp [List.head?_eq_getElem?])]
  have right : trimRight text = text := by
    rw [trimRight_eq_rdropWhile, List.rdropWhile_eq_self_iff]
    intro nonempty
    simp [trimmed.last _ (List.getLast?_eq_some_getLast nonempty)]
  rw [trim, left, right]

/-- Blanks in front of a text do not matter. -/
theorem trimLeft_append_of_blank (blank : ∀ character ∈ blanks, isBlank character = true) :
    trimLeft (blanks ++ text) = trimLeft text :=
  List.dropWhile_append_of_pos blank

/-- Blanks behind a text do not matter. -/
theorem trimRight_append_of_blank (blank : ∀ character ∈ blanks, isBlank character = true) :
    trimRight (text ++ blanks) = trimRight text := by
  rw [trimRight, trimRight, List.reverse_append, List.dropWhile_append_of_pos]
  simpa using blank

/-- Trimming does not see blanks in front of a text. -/
theorem trim_blank_append (blank : ∀ character ∈ blanks, isBlank character = true) :
    trim (blanks ++ text) = trim text := by
  rw [trim, trim, trimLeft_append_of_blank blank]

/-- Trimming does not see blanks behind a text. -/
theorem trim_append_blank (blank : ∀ character ∈ blanks, isBlank character = true) :
    trim (text ++ blanks) = trim text := by
  rw [trim, trim, trimLeft, List.dropWhile_append]
  split
  · next allBlank =>
      rw [List.isEmpty_iff] at allBlank
      rw [trimLeft, allBlank, List.dropWhile_eq_nil_iff.mpr blank]
  · rw [trimRight_append_of_blank blank, trimLeft]

/-- Trimming leaves nothing exactly when there are only blanks. -/
theorem trim_eq_nil_iff : trim text = [] ↔ ∀ character ∈ text, isBlank character = true := by
  constructor
  · intro nothing
    rw [trim, trimRight_eq_rdropWhile, List.rdropWhile_eq_nil_iff] at nothing
    rw [← List.takeWhile_append_dropWhile (p := isBlank) (l := text), List.forall_mem_append]
    exact ⟨fun character => List.mem_takeWhile_imp, nothing⟩
  · intro blank
    have behindNothing : trim ([] ++ text) = trim [] := trim_append_blank blank
    exact behindNothing

end Chomsky
