import Chomsky.Proofs.Source.Splitting

/-!
# Scanning cut by cut

A line can also be scanned without remembering what has been read since the last cut: each turn
takes a delimiter off the front of the line, or else the text up to the next delimiter, which is not
empty then, so that every turn leaves less to scan (`Token.length_lt_of_turn?`). This finds the same
tokens (`Token.cutTokens_eq_scanFrom`). What they are follows from two facts: a line is cut at every
delimiter, whatever stands around it, and text without a delimiter is not cut.
-/

namespace Chomsky

namespace Token

variable {text before after rest : List Char} {found : List Token} {delimiter : Token}

/-- What one turn scans at the front of a text, and the text behind it, unless nothing is left. -/
def turn? (text : List Char) : Option (List Token × List Char) :=
  if text = [] then none
  else if ['-', '>'].isPrefixOf text then some ([arrow], text.drop 2)
  else if ['|'].isPrefixOf text then some ([bar], text.drop 1)
  else some (ofText (text.take (firstDelimiter text)), text.drop (firstDelimiter text))

/-- The first delimiter stands at the front of a text that starts with one, and of no other text
but the empty one. -/
theorem firstDelimiter_eq_zero_iff :
    firstDelimiter text = 0 ↔ text = [] ∨ startsWithDelimiter text = true := by
  cases text with
  | nil => simp [firstDelimiter]
  | cons character rest => simp [firstDelimiter]

/-- One turn on text that does not start with a delimiter scans it up to the first one. -/
theorem turn?_eq_of_goesOn (nonempty : text ≠ []) (goesOn : startsWithDelimiter text = false) :
    turn? text =
      some (ofText (text.take (firstDelimiter text)), text.drop (firstDelimiter text)) := by
  rw [startsWithDelimiter, Bool.or_eq_false_iff] at goesOn
  simp [turn?, nonempty, goesOn.1, goesOn.2]

/-- A text that starts with a delimiter goes on behind it. -/
theorem exists_of_startsWithDelimiter (starts : startsWithDelimiter text = true) :
    ∃ delimiter after, IsDelimiter delimiter ∧ text = delimiter.spelling ++ after := by
  rw [startsWithDelimiter, Bool.or_eq_true, List.isPrefixOf_iff_prefix,
    List.isPrefixOf_iff_prefix] at starts
  rcases starts with ⟨after, rfl⟩ | ⟨after, rfl⟩
  · exact ⟨arrow, after, isDelimiter_arrow, rfl⟩
  · exact ⟨bar, after, isDelimiter_bar, rfl⟩

theorem length_spelling_pos (isDelimiter : IsDelimiter delimiter) :
    0 < delimiter.spelling.length := by
  cases delimiter with
  | arrow => decide
  | bar => decide
  | text content => cases isDelimiter

/-- A delimiter at the front of a text takes a turn. -/
theorem turn?_delimiter (isDelimiter : IsDelimiter delimiter) (after : List Char) :
    turn? (delimiter.spelling ++ after) = some ([delimiter], after) := by
  cases delimiter with
  | arrow => simp [turn?, spelling]
  | bar => simp [turn?, spelling]
  | text content => cases isDelimiter

/-- Every turn leaves less to scan. -/
theorem length_lt_of_turn? (turned : turn? text = some (found, rest)) :
    rest.length < text.length := by
  have nonempty : text ≠ [] := by
    rintro rfl
    cases turned
  cases starts : startsWithDelimiter text with
  | true =>
      obtain ⟨delimiter, after, isDelimiter, rfl⟩ := exists_of_startsWithDelimiter starts
      rw [turn?_delimiter isDelimiter] at turned
      cases turned
      rw [List.length_append]
      exact Nat.lt_add_of_pos_left (length_spelling_pos isDelimiter)
  | false =>
      have positive := List.length_pos_iff.mpr nonempty
      have progress : firstDelimiter text ≠ 0 := by
        simp [firstDelimiter_eq_zero_iff, nonempty, starts]
      rw [turn?_eq_of_goesOn nonempty starts] at turned
      cases turned
      rw [List.length_drop]
      omega

/-- The tokens of a text, turn by turn. -/
def cutTokens (text : List Char) : List Token :=
  match _ : turn? text with
  | none => []
  | some (found, rest) => found ++ cutTokens rest
termination_by text.length
decreasing_by exact length_lt_of_turn? ‹_›

theorem cutTokens_nil : cutTokens [] = [] := by
  rw [cutTokens]
  rfl

theorem cutTokens_of_turn? (turned : turn? text = some (found, rest)) :
    cutTokens text = found ++ cutTokens rest := by
  rw [cutTokens]
  split
  · next stopped => simp [stopped] at turned
  · next here => simp_all

/-- The text in front of the first delimiter takes a turn. -/
theorem turn?_of_firstDelimiter (nonempty : before ≠ [])
    (first : firstDelimiter (before ++ rest) = before.length) :
    turn? (before ++ rest) = some (ofText before, rest) := by
  have positive := List.length_pos_iff.mpr nonempty
  have notFirst : firstDelimiter (before ++ rest) ≠ 0 := by omega
  rw [Ne, firstDelimiter_eq_zero_iff, not_or, Bool.not_eq_true] at notFirst
  rw [turn?_eq_of_goesOn notFirst.1 notFirst.2, first, List.take_left, List.drop_left]

/-- Turn by turn the same tokens are found. -/
theorem cutTokens_eq_scanFrom (text : List Char) : cutTokens text = scanFrom [] text := by
  have front : ∀ before rest, firstDelimiter (before ++ rest) = before.length →
      cutTokens (before ++ rest) = ofText before ++ cutTokens rest := by
    intro before rest first
    by_cases empty : before = []
    · subst empty
      rfl
    · exact cutTokens_of_turn? (turn?_of_firstDelimiter empty first)
  induction text using cutInduction with
  | plain text plain =>
      have all : firstDelimiter (text ++ []) = text.length := by
        rw [List.append_nil, firstDelimiter_of_plain plain]
      have scanned := front text [] all
      rwa [cutTokens_nil, List.append_nil, List.append_nil,
        ← scanFrom_nil_of_plain plain] at scanned
  | cut before delimiter after plain isDelimiter inductionHypothesis =>
      rw [front before _ (firstDelimiter_append plain isDelimiter),
        cutTokens_of_turn? (turn?_delimiter isDelimiter after), inductionHypothesis,
        scanFrom_nil_append_delimiter plain isDelimiter, List.singleton_append]

end Token

/-- A line is cut into tokens at every arrow and every bar, whatever stands in front of it or behind
it, and nowhere else: text with neither in it is one token, trimmed, unless it is blank. The tokens
can be cut off turn by turn, which comes to an end on every line. -/
theorem scan_splits_at_delimiters :
    (∀ before after : String,
      Token.scan (before ++ "->" ++ after) = Token.scan before ++ [.arrow] ++ Token.scan after) ∧
    (∀ before after : String,
      Token.scan (before ++ "|" ++ after) = Token.scan before ++ [.bar] ++ Token.scan after) ∧
    (∀ text : String, Token.IsPlain text.toList →
      Token.scan text =
        if text.toList.all isBlank then [] else [.text (String.ofList (trim text.toList))]) ∧
    ∀ line : String, Token.cutTokens line.toList = Token.scan line := by
  refine ⟨fun before after => ?arrow, fun before after => ?bar, fun text plain => ?text,
    fun line => Token.cutTokens_eq_scanFrom line.toList⟩
  case arrow =>
    have cut :=
      Token.scanFrom_append_delimiter Token.isDelimiter_arrow [] before.toList after.toList
    simpa [Token.scan, Token.spelling] using cut
  case bar =>
    have cut := Token.scanFrom_append_delimiter Token.isDelimiter_bar [] before.toList after.toList
    simpa [Token.scan, Token.spelling] using cut
  case text =>
    have blank : text.toList.all isBlank = true ↔ trim text.toList = [] := by
      rw [trim_eq_nil_iff, List.all_eq_true]
    rw [Token.scan, Token.scanFrom_nil_of_plain plain]
    split
    · next allBlank => exact ofText_of_trim_eq_nil (blank.mp allBlank)
    · next visible => exact ofText_of_trim_ne_nil (mt blank.mpr visible)

/-- A dash and an arrow's head apart from each other are text, and so are those next to an arrow. -/
theorem scan_splits_at_delimiters_near_arrows :
    Token.IsPlain " - > ".toList ∧ Token.scan " - > " = [.text "- >"] ∧
    Token.scan ("a-" ++ "->" ++ ">b") = [.text "a-", .arrow, .text ">b"] := by
  obtain ⟨arrow, _, text, _⟩ := scan_splits_at_delimiters
  have apart : Token.IsPlain " - > ".toList := ⟨by decide, by decide⟩
  have spaced : Token.scan " - > " = [.text "- >"] :=
    (text " - > " apart).trans (if_neg (by decide))
  have dash : Token.scan "a-" = [.text "a-"] :=
    (text "a-" ⟨by decide, by decide⟩).trans (if_neg (by decide))
  have head : Token.scan ">b" = [.text ">b"] :=
    (text ">b" ⟨by decide, by decide⟩).trans (if_neg (by decide))
  refine ⟨apart, spaced, ?_⟩
  rw [arrow, dash, head]
  rfl

end Chomsky
