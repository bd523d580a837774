import Mathlib.Logic.Relation
import Chomsky.Proofs.Source.Contribution

/-!
# Blanks that make no difference

Blanks may be put at either end of a line and on either side of a bar or an arrow. The line is
then scanned as the same tokens (`IsSeam.scanFrom_insert`), because a delimiter is recognised
whatever stands around it and the text between two delimiters is trimmed. Since blanks other than
line feeds do not break a line, every line keeps its number, and the source is read with the same
result, be it a grammar or a list of errors (`padding_makes_no_difference`).
-/

namespace Chomsky

open Relation (ReflTransGen)

/-- A place in a text where blanks may be put: at the start of a line, at the end of a line, in
front of its carriage return if it ends with one and a line feed, or on either side of a
delimiter. -/
inductive IsGap : (before after : List Char) → Prop where
  | textStart (after : List Char) : IsGap [] after
  | lineStart (before after : List Char) : IsGap (before ++ ['\n']) after
  | textEnd (before : List Char) : IsGap before []
  | lineEnd (before after : List Char) : IsGap before ('\n' :: after)
  | returnEnd (before after : List Char) : IsGap before ('\r' :: '\n' :: after)
  | beforeDelimiter {delimiter : Token} (isDelimiter : delimiter.IsDelimiter)
      (before after : List Char) : IsGap before (delimiter.spelling ++ after)
  | afterDelimiter {delimiter : Token} (isDelimiter : delimiter.IsDelimiter)
      (before after : List Char) : IsGap (before ++ delimiter.spelling) after

/-- A text with blanks other than line feeds put into one of its gaps. -/
inductive Pads : (text padded : List Char) → Prop where
  | insert {before after blanks : List Char} (gap : IsGap before after)
      (blank : ∀ character ∈ blanks, isBlank character = true) (unbroken : '\n' ∉ blanks) :
      Pads (before ++ after) (before ++ (blanks ++ after))

/-- A text with a carriage return in front of every line feed, whether or not there is one
already. -/
def withReturns (text : List Char) : List Char :=
  text.flatMap fun character => if character = '\n' then ['\r', '\n'] else [character]

/-- A gap within one line. -/
inductive IsSeam : (front back : List Char) → Prop where
  | start (back : List Char) : IsSeam [] back
  | stop {back : List Char} (blank : ∀ character ∈ back, isBlank character = true)
      (front : List Char) : IsSeam front back
  | beforeDelimiter {delimiter : Token} (isDelimiter : delimiter.IsDelimiter)
      (front rest : List Char) : IsSeam front (delimiter.spelling ++ rest)
  | afterDelimiter {delimiter : Token} (isDelimiter : delimiter.IsDelimiter)
      (rest back : List Char) : IsSeam (rest ++ delimiter.spelling) back

variable {before after front back blanks text padded : List Char} {path : String}
  {earlier later : List (List Char)}

/-- Blanks at a seam do not change the tokens of a line. -/
theorem IsSeam.scanFrom_insert (seam : IsSeam front back)
    (blank : ∀ character ∈ blanks, isBlank character = true) :
    Token.scanFrom [] (front ++ (blanks ++ back)) = Token.scanFrom [] (front ++ back) := by
  cases seam with
  | start => exact Token.scanFrom_blank_append blank back
  | stop backBlank =>
      have together : ∀ character ∈ blanks ++ back, isBlank character = true :=
        List.forall_mem_append.mpr ⟨blank, backBlank⟩
      rw [Token.scanFrom_append_blank together, Token.scanFrom_append_blank backBlank]
  | beforeDelimiter isDelimiter =>
      rw [← List.append_assoc, Token.scanFrom_append_delimiter isDelimiter,
        Token.scanFrom_append_blank blank, Token.scanFrom_append_delimiter isDelimiter]
  | afterDelimiter isDelimiter =>
      rw [List.append_assoc, List.append_assoc, Token.scanFrom_append_delimiter isDelimiter,
        Token.scanFrom_blank_append blank, Token.scanFrom_append_delimiter isDelimiter]

/-- Blanks at a seam do not change what a line contributes. -/
theorem IsSeam.readLine_insert (seam : IsSeam front back)
    (blank : ∀ character ∈ blanks, isBlank character = true) (path : String) (number : Nat) :
    readLine path (some (String.ofList (front ++ (blanks ++ back)))) number =
      readLine path (some (String.ofList (front ++ back))) number := by
  apply readLine_congr
  · simp only [Token.scan, String.toList_ofList, seam.scanFrom_insert blank]
  · exact isRuleLine_insert_blank blank

/-- There is no line feed in a delimiter. -/
theorem newline_notMem_spelling {delimiter : Token} (isDelimiter : delimiter.IsDelimiter) :
    '\n' ∉ delimiter.spelling := by
  cases delimiter with
  | arrow => decide
  | bar => decide
  | text content => cases isDelimiter

/-- A gap of a text is a seam of the line that it is in, which is made of the last piece in front
of the gap and the first piece behind it. -/
theorem IsGap.isSeam (gap : IsGap before after)
    (cutBefore : pieces '\n' before = earlier ++ [front])
    (cutAfter : pieces '\n' after = back :: later) : IsSeam front back := by
  have last := congrArg List.getLast? cutBefore
  have first := congrArg List.head? cutAfter
  rw [List.getLast?_concat] at last
  rw [List.head?_cons] at first
  cases gap with
  | textStart =>
      obtain rfl : [] = front := Option.some.inj last
      exact .start back
  | lineStart before =>
      rw [pieces_append, pieces_nil, List.getLast?_concat] at last
      obtain rfl : [] = front := Option.some.inj last
      exact .start back
  | textEnd =>
      obtain rfl : [] = back := Option.some.inj first
      exact .stop (List.forall_mem_nil _) front
  | lineEnd =>
      rw [pieces_separator_cons] at first
      obtain rfl : [] = back := Option.some.inj first
      exact .stop (List.forall_mem_nil _) front
  | returnEnd before after =>
      have unbroken : '\n' ∉ ['\r'] := by decide
      have cut := pieces_append_separator unbroken after
      rw [List.singleton_append] at cut
      rw [cut] at first
      obtain rfl : ['\r'] = back := Option.some.inj first
      exact .stop (List.forall_mem_singleton.mpr rfl) front
  | beforeDelimiter isDelimiter before after =>
      have nonempty : pieces '\n' after ≠ [] := pieces_ne_nil after
      obtain ⟨rest, others, cut⟩ := List.exists_cons_of_ne_nil nonempty
      rw [pieces_append_of_notMem (newline_notMem_spelling isDelimiter) cut] at first
      obtain rfl := Option.some.inj first
      exact .beforeDelimiter isDelimiter front rest
  | afterDelimiter isDelimiter before =>
      obtain ⟨others, rest, _, joint⟩ := exists_pieces_append '\n' before
      rw [joint (pieces_of_notMem (newline_notMem_spelling isDelimiter)),
        List.getLast?_concat] at last
      obtain rfl := Option.some.inj last
      exact .afterDelimiter isDelimiter rest back

/-- The raw lines of an encoded text are its pieces between line feeds. -/
theorem rawLines_encode (text : List Char) :
    rawLines (encode (String.ofList text)) =
      (pieces '\n' text).map fun piece => some (String.ofList piece) := by
  simp only [rawLines, pieces_lineFeed_encode, String.toList_ofList, List.map_map,
    Function.comp_def, decode?_encode]

/-- Blanks in a gap do not change what a source is read as. -/
theorem Pads.readGrammar_eq (pads : Pads text padded) (path : String) :
    readGrammar path (encode (String.ofList padded)) =
      readGrammar path (encode (String.ofList text)) := by
  obtain @⟨before, after, blanks, gap, blank, unbroken⟩ := pads
  obtain ⟨earlier, front, cutBefore, joint⟩ := exists_pieces_append '\n' before
  have nonempty : pieces '\n' after ≠ [] := pieces_ne_nil after
  obtain ⟨back, later, cutAfter⟩ := List.exists_cons_of_ne_nil nonempty
  apply readGrammar_congr
  rw [rawLines_encode, rawLines_encode, joint cutAfter,
    joint (pieces_append_of_notMem unbroken cutAfter), List.map_append, List.map_append,
    List.map_cons, List.map_cons]
  apply readLines_replace
  exact (gap.isSeam cutBefore cutAfter).readLine_insert blank path

/-- A carriage return in front of every line feed is put there by and by. -/
theorem pads_withReturns (before text : List Char) :
    ReflTransGen Pads (before ++ text) (before ++ withReturns text) := by
  induction text generalizing before with
  | nil => exact .refl
  | cons character rest inductionHypothesis =>
      by_cases newline : character = '\n'
      · subst newline
        have put : Pads (before ++ '\n' :: rest) (before ++ (['\r'] ++ '\n' :: rest)) :=
          .insert (.lineEnd before rest) (List.forall_mem_singleton.mpr rfl) (by decide)
        have onward := inductionHypothesis (before ++ ['\r', '\n'])
        rw [List.append_assoc, List.append_assoc] at onward
        exact .head put onward
      · have kept : withReturns (character :: rest) = character :: withReturns rest := by
          simp [withReturns, newline]
        have onward := inductionHypothesis (before ++ [character])
        rwa [List.append_assoc, List.append_assoc, List.singleton_append, List.singleton_append,
          ← kept] at onward

/-- Whatever blanks other than line feeds are put at the ends of the lines of a source and around
its bars and arrows, it is read as the same grammar, symbols and alternatives in their order, or
refused with the same errors on the same lines. So it is if every line feed gets a carriage return
in front of it, also where there is one already. -/
theorem padding_makes_no_difference {text padded : String}
    (pads : ReflTransGen Pads text.toList padded.toList) (path : String) :
    readGrammar path (encode padded) = readGrammar path (encode text) ∧
      readGrammar path (encode (String.ofList (withReturns text.toList))) =
        readGrammar path (encode text) := by
  have readsAlike : ∀ {first second : List Char}, ReflTransGen Pads first second →
      readGrammar path (encode (String.ofList second)) =
        readGrammar path (encode (String.ofList first)) := by
    intro first second pads
    induction pads with
    | refl => rfl
    | tail _ last inductionHypothesis => exact (last.readGrammar_eq path).trans inductionHypothesis
  have padding := readsAlike pads
  have returns := readsAlike (pads_withReturns [] text.toList)
  rw [List.nil_append, List.nil_append] at returns
  simp only [String.ofList_toList] at padding returns
  exact ⟨padding, returns⟩

/-- A tab sets a dash off from the arrow behind it, and a wide space an arrow from an arrow's head
behind it; neither the dash nor the head was part of an arrow before. -/
theorem padding_makes_no_difference_near_arrows :
    let read := Grammar.ofRules [⟨"X-", [.terminal '>', .pair 'a' 'b']⟩]
    readGrammar "padded" (encode "X-->>|ab\n") = .ok read ∧
      readGrammar "padded" (encode "X-\t->\u3000>|ab\r\r\n") = .ok read ∧
      readGrammar "padded" (encode (String.ofList (withReturns "X-->>|ab\n".toList))) =
        .ok read := by
  intro read
  have original : readGrammar "padded" (encode "X-->>|ab\n") = .ok read := rfl
  have inFront : Pads "X-->>|ab\n".toList "X-\t->>|ab\n".toList :=
    .insert (.beforeDelimiter Token.isDelimiter_arrow "X-".toList ">|ab\n".toList)
      (List.forall_mem_singleton.mpr rfl) (by decide)
  have behind : Pads "X-\t->>|ab\n".toList "X-\t->\u3000>|ab\n".toList :=
    .insert (.afterDelimiter Token.isDelimiter_arrow "X-\t".toList ">|ab\n".toList)
      (List.forall_mem_singleton.mpr rfl) (by decide)
  have atEnd : Pads "X-\t->\u3000>|ab\n".toList "X-\t->\u3000>|ab\r\r\n".toList :=
    .insert (.lineEnd "X-\t->\u3000>|ab".toList [])
      (List.forall_mem_cons.mpr ⟨rfl, List.forall_mem_singleton.mpr rfl⟩) (by decide)
  have padded := padding_makes_no_difference (.head inFront (.head behind (.single atEnd))) "padded"
  exact ⟨original, padded.1.trans original, padded.2.trans original⟩

end Chomsky
