import Chomsky.Proofs.Source.Faults
import Chomsky.Proofs.Source.Listing
import Chomsky.Proofs.Text.Lines

/-!
# What a line contributes

What reading makes of a line depends on its tokens and its first visible character alone
(`readLine_congr`). Blanks at the end of a line therefore make no difference, nor does a carriage
return that is left there, and an empty line contributes nothing. So a source may be read as it
is cut at its line feeds, with nothing dropped from the pieces (`readLines_lines`). If it is
accepted, its grammar depends on what its lines contribute in their order, and neither on their
numbers nor on the path (`readGrammar_eq_ok_iff_contributions`).
-/

namespace Chomsky

variable {path : String} {line other : String} {source : Bytes} {number : Nat}
  {front blanks back text : List Char}

/-- Lines with the same tokens contribute the same, if both are rule lines or neither is. -/
theorem readLine_congr (sameTokens : Token.scan line = Token.scan other)
    (sameKind : isRuleLine line = isRuleLine other) (path : String) (number : Nat) :
    readLine path (some line) number = readLine path (some other) number := by
  simp only [readLine, Rule.ofLine, sameTokens, sameKind]

/-- Blanks anywhere in a line do not change what it is meant to be. -/
theorem isRuleLine_insert_blank (blank : ∀ character ∈ blanks, isBlank character = true) :
    isRuleLine (String.ofList (front ++ (blanks ++ back))) =
      isRuleLine (String.ofList (front ++ back)) := by
  have invisible : (blanks.find? fun character => !isBlank character) = none := by
    rw [List.find?_eq_none]
    intro character member
    simp [blank character member]
  simp only [isRuleLine_eq_any, String.toList_ofList, List.find?_append, invisible,
    Option.none_or]

/-- Blanks at the end of a line do not change what it contributes. -/
theorem readLine_append_blank (blank : ∀ character ∈ blanks, isBlank character = true)
    (path : String) (number : Nat) :
    readLine path (some (String.ofList (text ++ blanks))) number =
      readLine path (some (String.ofList text)) number := by
  apply readLine_congr
  · simp only [Token.scan, String.toList_ofList, Token.scanFrom_append_blank blank]
  · have inserted : isRuleLine (String.ofList (text ++ (blanks ++ []))) =
        isRuleLine (String.ofList (text ++ [])) := isRuleLine_insert_blank blank
    simpa only [List.append_nil] using inserted

/-- A line contributes the same with the carriage return at its end and without it. -/
theorem readLine_dropCarriageReturn (path : String) (piece : Bytes) (number : Nat) :
    readLine path (decode? (dropCarriageReturn piece)) number =
      readLine path (decode? piece) number := by
  have blank : ∀ character ∈ ['\r'], isBlank character = true :=
    List.forall_mem_singleton.mpr rfl
  rw [decode?_dropCarriageReturn]
  cases decode? piece with
  | none => rfl
  | some text =>
      rw [Option.map_some, dropReturn]
      split
      · next last =>
          obtain ⟨before, shape⟩ := List.getLast?_eq_some_iff.mp last
          rw [shape, List.dropLast_concat, ← readLine_append_blank blank, ← shape,
            String.ofList_toList]
      · rw [String.ofList_toList]

/-- The results of a source do not change with a line for which there is another one that
contributes the same there. -/
theorem readLines_replace {line other : Option String}
    (same : ∀ number, readLine path line number = readLine path other number)
    (earlier later : List (Option String)) (start : Nat) :
    readLines path ((earlier ++ line :: later).zipIdx start) =
      readLines path ((earlier ++ other :: later).zipIdx start) := by
  simp only [List.zipIdx_append, List.zipIdx_cons, readLines, List.filterMap_append,
    List.filterMap_cons, same]

/-- The pieces of a source between its line feeds, decoded as they are. -/
def rawLines (source : Bytes) : List (Option String) :=
  (pieces lineFeed source).map decode?

/-- Pieces are read alike with carriage returns dropped and without an empty one at the end. -/
theorem readLines_linesOfPieces (path : String) (cuts : List Bytes) (start : Nat) :
    readLines path (((linesOfPieces cuts).map decode?).zipIdx start) =
      readLines path ((cuts.map decode?).zipIdx start) := by
  induction cuts generalizing start with
  | nil => rfl
  | cons piece others inductionHypothesis =>
      cases others with
      | nil =>
          rw [linesOfPieces]
          split
          · next empty =>
              subst empty
              rfl
          · rfl
      | cons next others =>
          have later := inductionHypothesis (start + 1)
          simp only [readLines] at later
          rw [linesOfPieces]
          · simp only [List.map_cons, List.zipIdx_cons, readLines, List.filterMap_cons,
              readLine_dropCarriageReturn, later]
          · exact List.cons_ne_nil next others

/-- A source is read as if its lines were the pieces between its line feeds. -/
theorem readLines_lines (path : String) (source : Bytes) (start : Nat) :
    readLines path ((lines source).zipIdx start) =
      readLines path ((rawLines source).zipIdx start) :=
  readLines_linesOfPieces path (pieces lineFeed source) start

/-- Sources with the same results from their raw lines are read alike. -/
theorem readGrammar_congr {first second : Bytes}
    (same : readLines path ((rawLines first).zipIdx 1) =
      readLines path ((rawLines second).zipIdx 1)) :
    readGrammar path first = readGrammar path second := by
  rw [readGrammar, readGrammar, readLines_lines, readLines_lines, same]

/-- What a line contributes to a grammar wherever it stands: nothing, or the rule that it spells,
or else `none` in place of a fault. -/
def contribution : Option String → List (Option Rule)
  | none => [none]
  | some text => if isRuleLine text then [(Rule.ofLine text).toOption] else []

/-- What a line is read as is what it contributes and where its fault is. -/
theorem toOption_readLine (path : String) (line : Option String) (number : Nat) :
    ((readLine path line number).map Except.toOption).toList = contribution line := by
  cases line with
  | none => rfl
  | some text =>
      rw [readLine, contribution]
      split
      · cases Rule.ofLine text <;> rfl
      · rfl

/-- Numbered lines contribute what each of them does. -/
theorem map_toOption_readLines (path : String) (lines : List (Option String)) (start : Nat) :
    (readLines path (lines.zipIdx start)).map Except.toOption = lines.flatMap contribution := by
  induction lines generalizing start with
  | nil => rfl
  | cons line rest inductionHypothesis =>
      rw [List.zipIdx_cons, readLines, List.filterMap_cons, List.flatMap_cons,
        ← toOption_readLine path line start, ← inductionHypothesis (start + 1), readLines]
      cases readLine path line start <;> rfl

/-- The contributions of the lines of a source, in order. -/
def contributions (source : Bytes) : List (Option Rule) :=
  (lines source).flatMap contribution

/-- They are those of its raw lines. -/
theorem contributions_eq_rawLines (source : Bytes) :
    contributions source = (rawLines source).flatMap contribution := by
  rw [contributions, ← map_toOption_readLines "" (lines source) 1, readLines_lines,
    map_toOption_readLines]

/-- Results are values exactly when they still are with their errors forgotten. -/
theorem eq_map_ok_iff {ε α : Type} {results : List (Except ε α)} {values : List α} :
    results = values.map .ok ↔ results.map Except.toOption = values.map some := by
  induction results generalizing values with
  | nil => cases values <;> simp
  | cons result rest inductionHypothesis =>
      cases values with
      | nil => simp
      | cons value others => cases result <;> simp [inductionHypothesis, Except.toOption]

/-- A source is accepted as the grammar that its contributions build up, if none of them is
missing. -/
theorem readGrammar_eq_ok_iff_contributions {grammar : Grammar} :
    readGrammar path source = .ok grammar ↔
      ∃ rules, contributions source = rules.map some ∧ grammar = .ofRules rules := by
  simp only [readGrammar_eq_ok_iff, eq_map_ok_iff, map_toOption_readLines, contributions]

/-- A source is cut behind any of its line feeds. -/
theorem contributions_append_lineFeed (first second : Bytes) :
    contributions (first ++ lineFeed :: second) = contributions first ++ contributions second := by
  simp only [contributions_eq_rawLines, rawLines, pieces_append, List.map_append,
    List.flatMap_append]

end Chomsky
