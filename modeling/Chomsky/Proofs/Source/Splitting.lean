import Chomsky.Proofs.Source.Token
import Chomsky.Proofs.Text.Pieces
import Chomsky.Source.RuleLine

/-!
# Rule lines without tokens

A rule line can be read as a text, with no tokens in between: it is cut once at
its first arrow or bar and what follows is cut at every bar. The tokens of a line
are cut at bars where the line is (`pieces_bar_scanFrom`), and every piece without
a bar is judged alike in both forms (`ofTokens_scanFrom`), so both readings of a
line are the same, faults included (`ofLine_eq_spelledBy`).
-/

namespace Chomsky

universe u v w

/-- Whether a text starts with an arrow or a bar. -/
def startsWithDelimiter (text : List Char) : Bool :=
  ['-', '>'].isPrefixOf text || ['|'].isPrefixOf text

/-- Where the first arrow or bar of a text starts; the length of the text when it
has neither. -/
def firstDelimiter : List Char → Nat
  | [] => 0
  | character :: rest =>
      if startsWithDelimiter (character :: rest) then 0 else firstDelimiter rest + 1

/-- A value, unless there is a fault. -/
def unlessFault {ε : Type u} {α : Type v} (fault? : Option ε) (value : α) : Except ε α :=
  match fault? with
  | some fault => .error fault
  | none => .ok value

/-- What is wrong with the text of an alternative, if anything is. -/
def segmentFault? (segment : List Char) : Option LineFault :=
  if segment.all isBlank then some .emptyAlternative
  else if ['-', '>'] <:+: segment then some .unexpectedArrow
  else none

/-- The rule that a line spells, read off the line as a text. -/
def Rule.spelledBy (line : List Char) : Except LineFault Rule :=
  let head := trim (line.take (firstDelimiter line))
  if head = [] then .error .missingNonterminal
  else
    match line.drop (firstDelimiter line) with
    | '-' :: '>' :: body =>
        let segments := pieces '|' body
        unlessFault (segments.findSome? segmentFault?)
          ⟨String.ofList head, segments.map fun segment => .ofText (String.ofList (trim segment))⟩
    | _ => .error .missingArrow

variable {text before after : List Char} {delimiter : Token}

/-- A text starts with a delimiter when its first character is a bar or goes on to
an arrow. -/
theorem startsWithDelimiter_cons {character : Char} {rest : List Char} :
    startsWithDelimiter (character :: rest) = true ↔
      character = '|' ∨ character = '-' ∧ rest.head? = some '>' := by
  rw [startsWithDelimiter, Bool.or_eq_true, or_comm]
  cases rest <;> simp [@eq_comm _ '|', @eq_comm _ '-', @eq_comm _ '>']

/-- Plain text has no first delimiter. -/
theorem firstDelimiter_of_plain (plain : Token.IsPlain text) :
    firstDelimiter text = text.length := by
  induction text with
  | nil => rfl
  | cons character rest inductionHypothesis =>
      obtain ⟨notBar, notArrow, later⟩ := Token.isPlain_cons_iff.mp plain
      have goesOn : ¬ startsWithDelimiter (character :: rest) = true := by
        rw [startsWithDelimiter_cons, not_or]
        exact ⟨notBar, notArrow⟩
      rw [firstDelimiter, if_neg goesOn, inductionHypothesis later, List.length_cons]

/-- The first delimiter stands behind the plain text in front of it. -/
theorem firstDelimiter_append (plain : Token.IsPlain before)
    (isDelimiter : Token.IsDelimiter delimiter) :
    firstDelimiter (before ++ (delimiter.spelling ++ after)) = before.length := by
  induction before with
  | nil =>
      cases delimiter with
      | arrow => simp [Token.spelling, firstDelimiter, startsWithDelimiter]
      | bar => simp [Token.spelling, firstDelimiter, startsWithDelimiter]
      | text content => cases isDelimiter
  | cons character rest inductionHypothesis =>
      obtain ⟨notBar, notArrow, later⟩ := Token.isPlain_cons_iff.mp plain
      have goesOn :
          ¬ startsWithDelimiter (character :: (rest ++ (delimiter.spelling ++ after))) = true := by
        rw [startsWithDelimiter_cons, not_or]
        refine ⟨notBar, ?_⟩
        -- No delimiter starts with the character that completes an arrow.
        rintro ⟨dash, head⟩
        cases rest with
        | nil => cases delimiter <;> simp [Token.spelling, Token.IsDelimiter] at head isDelimiter
        | cons next others => exact notArrow ⟨dash, head⟩
      rw [List.cons_append, firstDelimiter, if_neg goesOn, inductionHypothesis later,
        List.length_cons]

/-- The tokens of a line are cut at bars where the line is. -/
theorem pieces_bar_scanFrom (text : List Char) :
    pieces Token.bar (Token.scanFrom [] text) = (pieces '|' text).map (Token.scanFrom []) := by
  have noBar : ∀ part : List Char, Token.bar ∉ Token.ofText part := by
    intro part member
    cases (Token.mem_ofText_iff.mp member).2
  induction text using Token.cutInduction with
  | plain text plain =>
      rw [pieces_of_notMem plain.bar, List.map_singleton, Token.scanFrom_nil_of_plain plain,
        pieces_of_notMem (noBar text)]
  | cut before delimiter after plain isDelimiter inductionHypothesis =>
      rw [Token.scanFrom_nil_append_delimiter plain isDelimiter]
      cases delimiter with
      | text content => cases isDelimiter
      | bar =>
          rw [pieces_append_separator (noBar before), inductionHypothesis, Token.spelling,
            List.singleton_append, pieces_append_separator plain.bar, List.map_cons,
            Token.scanFrom_nil_of_plain plain]
      | arrow =>
          have nonempty : pieces '|' after ≠ [] := pieces_ne_nil after
          obtain ⟨piece, others, cut⟩ := List.exists_cons_of_ne_nil nonempty
          rw [cut, List.map_cons] at inductionHypothesis
          have noBarBefore : Token.bar ∉ Token.ofText before ++ [Token.arrow] := by
            simp [noBar before]
          have noBarSpelled : '|' ∉ before ++ Token.arrow.spelling := by
            simp [plain.bar, Token.spelling]
          rw [← List.append_assoc, pieces_append_of_notMem noBarSpelled cut, List.map_cons,
            List.append_assoc, Token.scanFrom_nil_append_delimiter plain isDelimiter,
            List.append_cons, pieces_append_of_notMem noBarBefore inductionHypothesis,
            ← List.append_cons]

/-- The values of a list are collected unless there is a fault in it, and then the
first one is reported. -/
theorem mapM_eq_unlessFault {ε : Type u} {α : Type v} {β : Type w} {f : α → Except ε β}
    {fault? : α → Option ε} {value : α → β} {list : List α}
    (each : ∀ entry ∈ list, f entry = unlessFault (fault? entry) (value entry)) :
    list.mapM f = unlessFault (list.findSome? fault?) (list.map value) := by
  induction list with
  | nil => rfl
  | cons entry rest inductionHypothesis =>
      rw [List.forall_mem_cons] at each
      rw [List.mapM_cons, each.1, inductionHypothesis each.2, List.findSome?_cons, List.map_cons]
      cases fault? entry with
      | some fault => rfl
      | none => cases rest.findSome? fault? <;> rfl

/-- Text between two delimiters makes no token when it is blank. -/
theorem ofText_of_trim_eq_nil (blank : trim text = []) : Token.ofText text = [] := by
  rw [Token.ofText, blank]

/-- Text between two delimiters makes one token when it is not blank. -/
theorem ofText_of_trim_ne_nil (visible : trim text ≠ []) :
    Token.ofText text = [.text (String.ofList (trim text))] := by
  rw [Token.ofText]
  split
  · next blank => exact absurd blank visible
  · rfl

/-- The text of an alternative is judged alike by its tokens and by itself. -/
theorem ofTokens_scanFrom {segment : List Char} (noBar : '|' ∉ segment) :
    Alternative.ofTokens (Token.scanFrom [] segment) =
      unlessFault (segmentFault? segment) (.ofText (String.ofList (trim segment))) := by
  rcases Token.exists_cut segment with plain | ⟨before, delimiter, after, plain, isDelimiter, rfl⟩
  · have allBlank : segment.all isBlank = true ↔ trim segment = [] :=
      List.all_eq_true.trans trim_eq_nil_iff.symm
    rw [Token.scanFrom_nil_of_plain plain, segmentFault?]
    by_cases blank : trim segment = []
    · rw [if_pos (allBlank.mpr blank), ofText_of_trim_eq_nil blank]
      rfl
    · rw [if_neg (mt allBlank.mp blank), if_neg plain.arrow, ofText_of_trim_ne_nil blank]
      rfl
  · cases delimiter with
    | text content => cases isDelimiter
    | bar => simp [Token.spelling] at noBar
    | arrow =>
        have visible : ¬ (before ++ (Token.arrow.spelling ++ after)).all isBlank = true := by
          intro blank
          exact absurd (List.all_eq_true.mp blank '-' (by simp [Token.spelling])) (by decide)
        have arrow : ['-', '>'] <:+: before ++ (Token.arrow.spelling ++ after) :=
          ⟨before, after, List.append_assoc _ _ _⟩
        rw [segmentFault?, if_neg visible, if_pos arrow,
          Token.scanFrom_nil_append_delimiter plain isDelimiter]
        by_cases blank : trim before = []
        · rw [ofText_of_trim_eq_nil blank]
          rfl
        · rw [ofText_of_trim_ne_nil blank]
          rfl

/-- The tokens behind the arrow of a rule line spell alternatives unless there is a
fault in the text, and then the first one is reported. -/
theorem mapM_ofTokens_pieces (body : List Char) :
    (pieces Token.bar (Token.scanFrom [] body)).mapM Alternative.ofTokens =
      unlessFault ((pieces '|' body).findSome? segmentFault?)
        ((pieces '|' body).map fun segment => .ofText (String.ofList (trim segment))) := by
  rw [pieces_bar_scanFrom, List.mapM_map]
  apply mapM_eq_unlessFault
  intro segment member
  exact ofTokens_scanFrom (separator_notMem_of_mem_pieces member)

/-- Tokens and text of a line spell the same rule or have the same fault. -/
theorem ofTokens_scanFrom_eq_spelledBy (text : List Char) :
    Rule.ofTokens (Token.scanFrom [] text) = Rule.spelledBy text := by
  rcases Token.exists_cut text with plain | ⟨before, delimiter, after, plain, isDelimiter, rfl⟩
  · rw [Token.scanFrom_nil_of_plain plain, Rule.spelledBy, firstDelimiter_of_plain plain,
      List.take_length, List.drop_length]
    by_cases blank : trim text = []
    · rw [ofText_of_trim_eq_nil blank, if_pos blank]
      rfl
    · rw [ofText_of_trim_ne_nil blank, if_neg blank]
      rfl
  · rw [Token.scanFrom_nil_append_delimiter plain isDelimiter, Rule.spelledBy,
      firstDelimiter_append plain isDelimiter, List.take_left, List.drop_left]
    by_cases blank : trim before = []
    · rw [ofText_of_trim_eq_nil blank, if_pos blank]
      cases delimiter with
      | text content => cases isDelimiter
      | arrow => rfl
      | bar => rfl
    · rw [ofText_of_trim_ne_nil blank, if_neg blank]
      cases delimiter with
      | text content => cases isDelimiter
      | bar => rfl
      | arrow =>
          rw [List.singleton_append, Rule.ofTokens, mapM_ofTokens_pieces]
          simp only [Token.spelling, List.cons_append, List.nil_append]
          cases (pieces '|' after).findSome? segmentFault? <;> rfl

/-- The fault of something is reported if it has one. -/
theorem unlessFault_eq_error_iff {ε : Type u} {α : Type v} {fault? : Option ε} {value : α}
    {fault : ε} : unlessFault fault? value = .error fault ↔ fault? = some fault := by
  cases fault? <;> simp [unlessFault]

/-- An arrow is unexpected in the text of an alternative only where there is one. -/
theorem isInfix_of_segmentFault? {segment : List Char}
    (judged : segmentFault? segment = some .unexpectedArrow) : ['-', '>'] <:+: segment := by
  rw [segmentFault?] at judged
  split at judged
  · cases judged
  split at judged
  · assumption
  · cases judged

/-- A line on which an arrow is unexpected has two of them. -/
theorem exists_arrows_of_spelledBy (reported : Rule.spelledBy text = .error .unexpectedArrow) :
    ∃ before between after,
      text = before ++ ['-', '>'] ++ between ++ ['-', '>'] ++ after := by
  rw [Rule.spelledBy] at reported
  split at reported
  · cases reported
  split at reported
  · next body tail =>
      have whole : text = text.take (firstDelimiter text) ++ ['-', '>'] ++ body := by
        rw [List.append_assoc, List.cons_append, List.cons_append, List.nil_append, ← tail,
          List.take_append_drop]
      have found := unlessFault_eq_error_iff.mp reported
      obtain ⟨segment, member, judged⟩ := List.exists_of_findSome?_eq_some found
      have inside := (isInfix_of_segmentFault? judged).trans (isInfix_of_mem_pieces member)
      obtain ⟨between, after, shape⟩ := inside
      refine ⟨text.take (firstDelimiter text), between, after, ?_⟩
      rw [← shape] at whole
      simpa only [List.append_assoc] using whole
  · cases reported

/-- A line spells the rule that can be read off it as a text, and is refused for the
fault that is found in the text; an arrow is unexpected only on a line that has
another one before it. -/
theorem ofLine_eq_spelledBy (line : String) :
    Rule.ofLine line = Rule.spelledBy line.toList ∧
      (Rule.ofLine line = .error .unexpectedArrow →
        ∃ before between after,
          line.toList = before ++ ['-', '>'] ++ between ++ ['-', '>'] ++ after) := by
  have same : Rule.ofLine line = Rule.spelledBy line.toList :=
    ofTokens_scanFrom_eq_spelledBy line.toList
  refine ⟨same, ?_⟩
  rw [same]
  exact exists_arrows_of_spelledBy

/-- A blank alternative in front of a second arrow is reported instead of it, and one
behind it is not. -/
theorem ofLine_eq_spelledBy_crowded :
    Rule.ofLine "S-->| ->a" = .error .emptyAlternative ∧
      Rule.ofLine "X- -> a->>b| |c" = .error .unexpectedArrow ∧
      ∃ before between after,
        "X- -> a->>b| |c".toList = before ++ ['-', '>'] ++ between ++ ['-', '>'] ++ after := by
  have reported : Rule.ofLine "X- -> a->>b| |c" = .error .unexpectedArrow := by decide
  exact ⟨by decide, reported, (ofLine_eq_spelledBy "X- -> a->>b| |c").2 reported⟩

end Chomsky
