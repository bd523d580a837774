import Mathlib.Data.List.Infix
import Chomsky.Proofs.Text.Trimming
import Chomsky.Source.Token

/-!
# Cutting a line into tokens

A line is cut at every arrow and every bar and nowhere else. What scanning does
is therefore settled by plain text, which has neither in it, and by the equation
`scanFrom_append_delimiter`; `cutInduction` argues from cut to cut. The text of
a token is never empty, has no blank at either end and is plain
(`isContent_of_mem_scanFrom`), and text like this is scanned as the one token
(`IsContent.scanFrom_eq`).
-/

namespace Chomsky

namespace Token

/-- The characters that are scanned as a token. -/
def spelling : Token → List Char
  | arrow => ['-', '>']
  | bar => ['|']
  | text content => content.toList

/-- A token at which a line is cut. -/
def IsDelimiter : Token → Prop
  | text _ => False
  | _ => True

/-- There is neither a bar nor an arrow in the text. -/
structure IsPlain (text : List Char) : Prop where
  bar : '|' ∉ text
  arrow : ¬ ['-', '>'] <:+: text

/-- What the text of a token may be. -/
structure IsContent (content : String) : Prop where
  nonempty : content.toList ≠ []
  trimmed : IsTrimmed content.toList
  plain : IsPlain content.toList

variable {text part blanks : List Char} {content : String} {delimiter : Token}

theorem isDelimiter_arrow : IsDelimiter arrow :=
  trivial

theorem isDelimiter_bar : IsDelimiter bar :=
  trivial

theorem isPlain_nil : IsPlain [] :=
  ⟨List.not_mem_nil, by simp⟩

/-- Text is plain that neither starts with a bar or an arrow nor holds one later. -/
theorem isPlain_cons_iff {character : Char} {rest : List Char} :
    IsPlain (character :: rest) ↔
      character ≠ '|' ∧ ¬ (character = '-' ∧ rest.head? = some '>') ∧ IsPlain rest := by
  have startsWithArrow :
      ['-', '>'] <+: character :: rest ↔ character = '-' ∧ rest.head? = some '>' := by
    cases rest <;> simp [List.cons_prefix_cons, eq_comm]
  constructor
  · rintro ⟨bar, arrow⟩
    rw [List.mem_cons, not_or] at bar
    rw [List.infix_cons_iff, not_or, startsWithArrow] at arrow
    exact ⟨Ne.symm bar.1, arrow.1, bar.2, arrow.2⟩
  · rintro ⟨notBar, notArrow, bar, arrow⟩
    constructor
    · rw [List.mem_cons, not_or]
      exact ⟨Ne.symm notBar, bar⟩
    · rw [List.infix_cons_iff, not_or, startsWithArrow]
      exact ⟨notArrow, arrow⟩

/-- Joined text is plain unless one part is not, or an arrow is made at the joint. -/
theorem isPlain_append_iff {before after : List Char} :
    IsPlain (before ++ after) ↔
      IsPlain before ∧ IsPlain after ∧
        ¬ (before.getLast? = some '-' ∧ after.head? = some '>') := by
  induction before with
  | nil => simp [isPlain_nil]
  | cons character rest inductionHypothesis =>
      rw [List.cons_append, isPlain_cons_iff, isPlain_cons_iff, inductionHypothesis]
      cases rest with
      | nil => simp [isPlain_nil]; tauto
      | cons next others => simp; tauto

/-- Part of a plain text is plain. -/
theorem IsPlain.of_infix (plain : IsPlain text) (inside : part <:+: text) : IsPlain part where
  bar := fun member => plain.bar (inside.subset member)
  arrow := fun arrow => plain.arrow (arrow.trans inside)

/-- Blanks are plain. -/
theorem isPlain_of_blank (blank : ∀ character ∈ blanks, isBlank character = true) :
    IsPlain blanks where
  bar := fun member => absurd (blank '|' member) (by decide)
  arrow := fun arrow => absurd (blank '-' (arrow.subset (by simp))) (by decide)

/-- Blanks at the start leave a plain text plain. -/
theorem IsPlain.blank_append (plain : IsPlain text)
    (blank : ∀ character ∈ blanks, isBlank character = true) : IsPlain (blanks ++ text) := by
  rw [isPlain_append_iff]
  refine ⟨isPlain_of_blank blank, plain, ?_⟩
  rintro ⟨last, _⟩
  exact absurd (blank '-' (List.mem_of_getLast? last)) (by decide)

/-- Blanks at the end leave a plain text plain. -/
theorem IsPlain.append_blank (plain : IsPlain text)
    (blank : ∀ character ∈ blanks, isBlank character = true) : IsPlain (text ++ blanks) := by
  rw [isPlain_append_iff]
  refine ⟨plain, isPlain_of_blank blank, ?_⟩
  rintro ⟨_, first⟩
  exact absurd (blank '>' (List.mem_of_head? first)) (by decide)

/-- A text is plain, or it goes on after a first arrow or bar. -/
theorem exists_cut (text : List Char) :
    IsPlain text ∨ ∃ before delimiter after, IsPlain before ∧ IsDelimiter delimiter ∧
      text = before ++ (delimiter.spelling ++ after) := by
  induction text with
  | nil => exact .inl isPlain_nil
  | cons character rest inductionHypothesis =>
      by_cases isBar : character = '|'
      · exact .inr ⟨[], bar, rest, isPlain_nil, isDelimiter_bar, by rw [isBar]; rfl⟩
      by_cases isArrow : character = '-' ∧ rest.head? = some '>'
      · obtain ⟨after, shape⟩ := List.head?_eq_some_iff.mp isArrow.2
        refine .inr ⟨[], arrow, after, isPlain_nil, isDelimiter_arrow, ?_⟩
        rw [isArrow.1, shape]
        rfl
      rcases inductionHypothesis with plain | ⟨before, delimiter, after, plain, isDelimiter, rfl⟩
      · exact .inl (isPlain_cons_iff.mpr ⟨isBar, isArrow, plain⟩)
      · refine .inr ⟨character :: before, delimiter, after, ?_, isDelimiter, rfl⟩
        refine isPlain_cons_iff.mpr ⟨isBar, ?_, plain⟩
        -- An arrow across the first character would start the rest as well.
        rintro ⟨dash, first⟩
        exact isArrow ⟨dash, by rw [List.head?_append, first, Option.some_or]⟩

/-- What holds of plain text, and of text that goes on after a delimiter once it
holds from there, holds of every text. -/
@[elab_as_elim] theorem cutInduction {motive : List Char → Prop}
    (plain : ∀ text, IsPlain text → motive text)
    (cut : ∀ before delimiter after, IsPlain before → IsDelimiter delimiter → motive after →
      motive (before ++ (delimiter.spelling ++ after)))
    (text : List Char) : motive text := by
  induction size : text.length using Nat.strongRecOn generalizing text with
  | ind size inductionHypothesis =>
      subst size
      rcases exists_cut text with whole | ⟨before, delimiter, after, first, isDelimiter, rfl⟩
      · exact plain text whole
      · apply cut before delimiter after first isDelimiter
        refine inductionHypothesis after.length ?_ after rfl
        cases delimiter with
        | arrow => simp [spelling]; omega
        | bar => simp [spelling]; omega
        | text content => cases isDelimiter

/-- Plain text is not cut. -/
theorem scanFrom_of_plain (plain : IsPlain text) (pending : List Char) :
    scanFrom pending text = ofText (pending.reverse ++ text) := by
  fun_induction scanFrom pending text with
  | case1 pending => rw [List.append_nil]
  | case2 pending rest => exact absurd (isPlain_cons_iff.mp plain).2.1 (by simp)
  | case3 pending rest => exact absurd (isPlain_cons_iff.mp plain).1 (by simp)
  | case4 pending character rest _ _ inductionHypothesis =>
      rw [inductionHypothesis (isPlain_cons_iff.mp plain).2.2, List.reverse_cons,
        List.append_assoc, List.singleton_append]

/-- A line is cut at every arrow and every bar, whatever stands before it. -/
theorem scanFrom_append_delimiter (isDelimiter : IsDelimiter delimiter)
    (pending before after : List Char) :
    scanFrom pending (before ++ (delimiter.spelling ++ after)) =
      scanFrom pending before ++ delimiter :: scanFrom [] after := by
  fun_induction scanFrom pending before with
  | case1 pending =>
      cases delimiter with
      | arrow => rfl
      | bar => rfl
      | text content => cases isDelimiter
  | case2 pending rest inductionHypothesis => simp [scanFrom, inductionHypothesis]
  | case3 pending rest inductionHypothesis => simp [scanFrom, inductionHypothesis]
  | case4 pending character rest notArrow notBar inductionHypothesis =>
      rw [List.cons_append, scanFrom, inductionHypothesis]
      · -- No delimiter starts with the character that completes an arrow.
        intro others dash first
        cases rest with
        | nil => cases delimiter <;> simp [spelling, IsDelimiter] at first isDelimiter
        | cons next later =>
            obtain ⟨rfl, _⟩ := List.cons.inj first
            exact notArrow later dash rfl
      · exact notBar

/-- A plain line is scanned as its text. -/
theorem scanFrom_nil_of_plain (plain : IsPlain text) : scanFrom [] text = ofText text := by
  rw [scanFrom_of_plain plain, List.reverse_nil, List.nil_append]

/-- A line is scanned as the text in front of its first delimiter, the delimiter and
what follows. -/
theorem scanFrom_nil_append_delimiter (plain : IsPlain text) (isDelimiter : IsDelimiter delimiter)
    (after : List Char) :
    scanFrom [] (text ++ (delimiter.spelling ++ after)) =
      ofText text ++ delimiter :: scanFrom [] after := by
  rw [scanFrom_append_delimiter isDelimiter, scanFrom_nil_of_plain plain]

/-- Text is a token if something is left of it when it is trimmed. -/
theorem mem_ofText_iff {token : Token} :
    token ∈ ofText text ↔ trim text ≠ [] ∧ token = .text (String.ofList (trim text)) := by
  rw [ofText]
  cases trim text <;> simp

/-- Only what is left of a text when it is trimmed matters. -/
theorem ofText_congr {other : List Char} (same : trim text = trim other) :
    ofText text = ofText other := by
  rw [ofText, ofText, same]

/-- Blanks at the start of a line do not matter. -/
theorem scanFrom_blank_append (blank : ∀ character ∈ blanks, isBlank character = true)
    (text : List Char) : scanFrom [] (blanks ++ text) = scanFrom [] text := by
  have untilCut : ∀ part, IsPlain part → scanFrom [] (blanks ++ part) = scanFrom [] part := by
    intro part plain
    rw [scanFrom_nil_of_plain (plain.blank_append blank), scanFrom_nil_of_plain plain]
    exact ofText_congr (trim_blank_append blank)
  rcases exists_cut text with plain | ⟨before, delimiter, after, plain, isDelimiter, rfl⟩
  · exact untilCut text plain
  · rw [← List.append_assoc, scanFrom_append_delimiter isDelimiter,
      scanFrom_append_delimiter isDelimiter, untilCut before plain]

/-- Blanks at the end of a line do not matter. -/
theorem scanFrom_append_blank (blank : ∀ character ∈ blanks, isBlank character = true)
    (text : List Char) : scanFrom [] (text ++ blanks) = scanFrom [] text := by
  induction text using cutInduction with
  | plain text plain =>
      rw [scanFrom_nil_of_plain (plain.append_blank blank), scanFrom_nil_of_plain plain]
      exact ofText_congr (trim_append_blank blank)
  | cut before delimiter after _ isDelimiter inductionHypothesis =>
      rw [List.append_assoc, List.append_assoc, scanFrom_append_delimiter isDelimiter,
        scanFrom_append_delimiter isDelimiter, inductionHypothesis]

/-- What is left of a plain text when it is trimmed may be the text of a token. -/
theorem isContent_of_mem_ofText (plain : IsPlain text) (member : .text content ∈ ofText text) :
    IsContent content ∧ content.toList <:+: text := by
  obtain ⟨nonempty, same⟩ := mem_ofText_iff.mp member
  have contents : content.toList = trim text := by
    rw [Token.text.inj same, String.toList_ofList]
  refine ⟨⟨?_, ?_, ?_⟩, ?_⟩
  · rwa [contents]
  · rw [contents]
    exact isTrimmed_trim text
  · rw [contents]
    exact plain.of_infix (isInfix_trim text)
  · rw [contents]
    exact isInfix_trim text

/-- The text of a token is as it may be, and stands in the line. -/
theorem isContent_of_mem_scanFrom (member : .text content ∈ scanFrom [] text) :
    IsContent content ∧ content.toList <:+: text := by
  induction text using cutInduction with
  | plain text plain =>
      rw [scanFrom_nil_of_plain plain] at member
      exact isContent_of_mem_ofText plain member
  | cut before delimiter after plain isDelimiter inductionHypothesis =>
      rw [scanFrom_nil_append_delimiter plain isDelimiter, List.mem_append, List.mem_cons]
        at member
      rcases member with inFirst | rfl | later
      · obtain ⟨isContent, inside⟩ := isContent_of_mem_ofText plain inFirst
        exact ⟨isContent, inside.trans (List.prefix_append before _).isInfix⟩
      · cases isDelimiter
      · obtain ⟨isContent, inside⟩ := inductionHypothesis later
        rw [← List.append_assoc]
        exact ⟨isContent, inside.trans (List.suffix_append _ after).isInfix⟩

/-- Text as in a token is scanned as that token. -/
theorem IsContent.scanFrom_eq (isContent : IsContent content) :
    scanFrom [] content.toList = [.text content] := by
  rw [scanFrom_nil_of_plain isContent.plain, ofText, isContent.trimmed.trim_eq]
  split
  · next empty => exact absurd empty isContent.nonempty
  · rw [String.ofList_toList]

/-- Trimmed text starts where the blanks before it end, whatever follows it. -/
theorem head?_of_mem_ofText (member : .text content ∈ ofText text) (after : List Char) :
    content.toList.head? = (trimLeft (text ++ after)).head? := by
  obtain ⟨nonempty, same⟩ := mem_ofText_iff.mp member
  obtain ⟨first, others, shape⟩ := List.exists_cons_of_ne_nil nonempty
  have start : (trimLeft text).head? = some first :=
    head?_trimRight (by rw [← trim, shape, List.head?_cons])
  have kept : (trimLeft text).isEmpty = false := by
    rw [List.isEmpty_eq_false_iff]
    exact List.ne_nil_of_mem (List.mem_of_head? start)
  rw [Token.text.inj same, String.toList_ofList, shape, List.head?_cons, trimLeft,
    List.dropWhile_append, ← trimLeft, kept, if_neg Bool.false_ne_true, List.head?_append, start,
    Option.some_or]

/-- A line whose first token is text begins with that text, blanks left aside. -/
theorem head?_of_scanFrom_eq {tokens : List Token}
    (scanned : scanFrom [] text = .text content :: tokens) :
    content.toList.head? = (trimLeft text).head? := by
  rcases exists_cut text with plain | ⟨before, delimiter, after, plain, isDelimiter, rfl⟩
  · rw [scanFrom_nil_of_plain plain] at scanned
    have member : .text content ∈ ofText text := scanned ▸ List.mem_cons_self
    simpa using head?_of_mem_ofText member []
  · rw [scanFrom_nil_append_delimiter plain isDelimiter] at scanned
    apply head?_of_mem_ofText
    cases shape : ofText before with
    | nil =>
        rw [shape, List.nil_append] at scanned
        obtain ⟨rfl, _⟩ := List.cons.inj scanned
        cases isDelimiter
    | cons token others =>
        rw [shape, List.cons_append] at scanned
        obtain ⟨rfl, _⟩ := List.cons.inj scanned
        exact List.mem_cons_self

end Token

end Chomsky
