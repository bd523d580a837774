import Mathlib.Data.List.Forall2
import Mathlib.Data.List.TakeWhile
import Chomsky.Source.Reading

/-!
# Faults of a source

Reading a source does not stop at its first fault. A line is faulty when it
cannot be decoded, or when it is meant to spell a rule and does not. If there are
such lines the result is one error for each of them, in their order, and otherwise
it is a grammar (`readGrammar_reports_faulty_lines`).
-/

namespace Chomsky

universe u v

/-- Whether a line is faulty: it cannot be decoded, or its first visible character
is not a semicolon and it does not spell a rule. -/
def isFaulty : Option String → Bool
  | none => true
  | some text =>
      (text.toList.find? fun character => !isBlank character).any (· ≠ ';') &&
        !(Rule.ofLine text).isOk

/-- The error that a faulty line accounts for, given its number. What cannot be
decoded is a fault of the file, whichever line it stands on. -/
inductive AccountsFor (path : String) : Option String × Nat → SourceError → Prop where
  | undecoded (number : Nat) : AccountsFor path (none, number) ⟨⟨path, 0⟩, .file .notUtf8⟩
  | malformed {text : String} {fault : LineFault} (number : Nat)
      (refused : Rule.ofLine text = .error fault) :
      AccountsFor path (some text, number) ⟨⟨path, number⟩, .line fault⟩

variable {path : String} {source : Bytes}

/-- A rule line is one whose first visible character is not a semicolon. -/
theorem isRuleLine_eq_any (text : String) :
    isRuleLine text =
      (text.toList.find? fun character => !isBlank character).any (· ≠ ';') := by
  rw [isRuleLine, trimLeft, List.find?_not_eq_head?_dropWhile]
  cases text.toList.dropWhile isBlank with
  | nil => rfl
  | cons first rest => simp [bne, beq_eq_decide]

/-- A faulty line contributes the one error that it accounts for. -/
theorem exists_errorsOf_readLine {line : Option String} (faulty : isFaulty line = true)
    (path : String) (number : Nat) :
    ∃ error, errorsOf (readLine path line number).toList = [error] ∧
      ∀ other, AccountsFor path (line, number) other ↔ other = error := by
  cases line with
  | none =>
      refine ⟨_, rfl, fun other => ⟨?_, ?_⟩⟩
      · rintro ⟨⟩
        rfl
      · rintro rfl
        exact .undecoded number
  | some text =>
      rw [isFaulty, ← isRuleLine_eq_any, Bool.and_eq_true] at faulty
      obtain ⟨isRule, notOk⟩ := faulty
      cases spelled : Rule.ofLine text with
      | ok rule => simp [spelled, Except.isOk, Except.toBool] at notOk
      | error fault =>
          refine ⟨⟨⟨path, number⟩, .line fault⟩, ?_, fun other => ⟨?_, ?_⟩⟩
          · simp [readLine, isRule, spelled, errorsOf]
          · rintro (_ | ⟨_, refused⟩)
            rw [Except.error.inj (spelled.symm.trans refused)]
          · rintro rfl
            exact .malformed number spelled

/-- A line that is not faulty contributes no error. -/
theorem errorsOf_readLine_of_not_isFaulty {line : Option String} (sound : isFaulty line = false)
    (path : String) (number : Nat) : errorsOf (readLine path line number).toList = [] := by
  cases line with
  | none => cases sound
  | some text =>
      rw [isFaulty, ← isRuleLine_eq_any] at sound
      rw [readLine]
      cases isRule : isRuleLine text with
      | false => rfl
      | true =>
          cases spelled : Rule.ofLine text with
          | ok rule => rfl
          | error fault => simp [isRule, spelled, Except.isOk, Except.toBool] at sound

/-- Numbered lines contribute their errors one after the other. -/
theorem errorsOf_readLines_cons (path : String) (line : Option String) (number : Nat)
    (rest : List (Option String × Nat)) :
    errorsOf (readLines path ((line, number) :: rest)) =
      errorsOf (readLine path line number).toList ++ errorsOf (readLines path rest) := by
  rw [readLines, List.filterMap_cons]
  cases readLine path line number with
  | none => rfl
  | some result => cases result <;> rfl

/-- The errors of numbered lines are those that the faulty ones account for. -/
theorem errorsOf_readLines_eq_iff {numbered : List (Option String × Nat)}
    {errors : List SourceError} :
    errorsOf (readLines path numbered) = errors ↔
      List.Forall₂ (AccountsFor path) (numbered.filter fun entry => isFaulty entry.1) errors := by
  induction numbered generalizing errors with
  | nil =>
      rw [List.filter_nil, List.forall₂_nil_left_iff]
      exact eq_comm
  | cons entry rest inductionHypothesis =>
      obtain ⟨line, number⟩ := entry
      rw [errorsOf_readLines_cons, List.filter_cons]
      cases faulty : isFaulty line with
      | false =>
          rw [errorsOf_readLine_of_not_isFaulty faulty, List.nil_append, inductionHypothesis,
            if_neg Bool.false_ne_true]
      | true =>
          obtain ⟨error, contributed, accounts⟩ := exists_errorsOf_readLine faulty path number
          rw [contributed, if_pos rfl, List.singleton_append, List.forall₂_cons_left_iff]
          simp only [accounts, ← inductionHypothesis]
          constructor
          · rintro rfl
            exact ⟨error, _, rfl, rfl, rfl⟩
          · rintro ⟨_, _, rfl, rfl, rfl⟩
            rfl

/-- A source is refused with the errors of its lines if there are any. -/
theorem readGrammar_eq_error_iff {errors : List SourceError} :
    readGrammar path source = .error errors ↔
      errorsOf (readLines path ((lines source).zipIdx 1)) = errors ∧ errors ≠ [] := by
  rw [← collect_eq_error_iff, readGrammar]
  cases collect (readLines path ((lines source).zipIdx 1)) <;> simp

/-- A source is accepted if its lines have no errors. -/
theorem exists_readGrammar_eq_ok_iff :
    (∃ grammar, readGrammar path source = .ok grammar) ↔
      errorsOf (readLines path ((lines source).zipIdx 1)) = [] := by
  rw [readGrammar, collect]
  cases errorsOf (readLines path ((lines source).zipIdx 1)) <;> simp

/-- Whatever the source, it is accepted exactly when none of its lines is faulty, and
otherwise every faulty line, counted from one among all lines, is reported, each once
and in order. -/
theorem readGrammar_reports_faulty_lines (path : String) (source : Bytes) :
    ((∃ grammar, readGrammar path source = .ok grammar) ↔
        ∀ line ∈ lines source, isFaulty line = false) ∧
      ∀ errors, readGrammar path source = .error errors ↔
        errors ≠ [] ∧
          List.Forall₂ (AccountsFor path)
            (((lines source).zipIdx 1).filter fun entry => isFaulty entry.1) errors := by
  constructor
  · rw [exists_readGrammar_eq_ok_iff, errorsOf_readLines_eq_iff, List.forall₂_nil_right_iff,
      List.filter_eq_nil_iff]
    constructor
    · intro sound line member
      rw [← List.zipIdx_map_fst 1 (lines source)] at member
      obtain ⟨entry, inNumbered, rfl⟩ := List.mem_map.mp member
      exact Bool.eq_false_iff.mpr (sound entry inNumbered)
    · intro sound entry inNumbered
      exact Bool.eq_false_iff.mp (sound entry.1 (List.fst_mem_of_mem_zipIdx inNumbered))
  · intro errors
    rw [readGrammar_eq_error_iff, errorsOf_readLines_eq_iff, and_comm]

/-- A comment and a blank line are counted but not reported, and what cannot be decoded
does not hide the line behind it. -/
example :
    readGrammar "mixed" (encode "; S
S

" ++ [0xFF, lineFeed] ++ encode "S -> a|") =
      .error
        [⟨⟨"mixed", 2⟩, .line .missingArrow⟩, ⟨⟨"mixed", 0⟩, .file .notUtf8⟩,
          ⟨⟨"mixed", 5⟩, .line .emptyAlternative⟩] := by
  rfl

end Chomsky
