import Chomsky.Report.Location
import Chomsky.Source.RuleLine
import Chomsky.Text.Lines

/-!
# Reading a grammar

A source is read line by line to its end. If any line is faulty the result is
every fault in the order of the lines; otherwise it is the grammar that the
rules build up. Every line counts when lines are numbered, but a line that
cannot be decoded is a fault of the file as a whole.
-/

namespace Chomsky

universe u v

/-- What can be wrong with the file that holds a grammar. -/
inductive FileFault where
  /-- A line is not valid UTF-8. -/
  | notUtf8
  /-- There is no such file. -/
  | notFound
  /-- The path goes on below a file. -/
  | notADirectory
deriving DecidableEq, Repr

namespace FileFault

/-- The wording of a fault. -/
def message : FileFault → String
  | notUtf8 => "stream did not contain valid UTF-8"
  | notFound => "No such file or directory (os error 2)"
  | notADirectory => "Not a directory (os error 20)"

end FileFault

/-- What can be wrong with a grammar source. -/
inductive SourceFault where
  /-- A rule line is malformed. -/
  | line (fault : LineFault)
  /-- The file cannot be read. -/
  | file (fault : FileFault)
deriving DecidableEq, Repr

namespace SourceFault

/-- The wording of a fault. -/
def message : SourceFault → String
  | line fault => fault.message
  | file fault => "File error: " ++ fault.message

end SourceFault

/-- A fault of a grammar source and where it was found. -/
abbrev SourceError := Located SourceFault

/-- The errors among results, in order. -/
def errorsOf {ε : Type u} {α : Type v} (results : List (Except ε α)) : List ε :=
  results.filterMap fun result =>
    match result with
    | .ok _ => none
    | .error error => some error

/-- The values among results, in order. -/
def valuesOf {ε : Type u} {α : Type v} (results : List (Except ε α)) : List α :=
  results.filterMap Except.toOption

/-- The errors of some results are the errors among them. -/
theorem mem_errorsOf_iff {ε : Type u} {α : Type v} {results : List (Except ε α)} {error : ε} :
    error ∈ errorsOf results ↔ .error error ∈ results := by
  rw [errorsOf, List.mem_filterMap]
  constructor
  · rintro ⟨_ | _, member, ⟨⟩⟩
    exact member
  · intro member
    exact ⟨_, member, rfl⟩

/-- The values of some results are the values among them. -/
theorem mem_valuesOf_iff {ε : Type u} {α : Type v} {results : List (Except ε α)} {value : α} :
    value ∈ valuesOf results ↔ .ok value ∈ results := by
  rw [valuesOf, List.mem_filterMap]
  constructor
  · rintro ⟨_ | _, member, ⟨⟩⟩
    exact member
  · intro member
    exact ⟨_, member, rfl⟩

/-- Results have no errors when none of them is one. -/
theorem errorsOf_eq_nil_iff {ε : Type u} {α : Type v} {results : List (Except ε α)} :
    errorsOf results = [] ↔ ∀ error, .error error ∉ results := by
  simp only [List.eq_nil_iff_forall_not_mem, mem_errorsOf_iff]

/-- All values when there is no error among the results, and otherwise all
errors. -/
def collect {ε : Type u} {α : Type v} (results : List (Except ε α)) :
    Except (List ε) (List α) :=
  match errorsOf results with
  | [] => .ok (valuesOf results)
  | errors => .error errors

/-- Results are collected into values exactly when none of them is an error. -/
theorem collect_eq_ok_iff {ε : Type u} {α : Type v} {results : List (Except ε α)}
    {values : List α} :
    collect results = .ok values ↔ errorsOf results = [] ∧ valuesOf results = values := by
  unfold collect
  cases errorsOf results <;> simp

/-- Results are collected into errors exactly when there are any. -/
theorem collect_eq_error_iff {ε : Type u} {α : Type v} {results : List (Except ε α)}
    {errors : List ε} :
    collect results = .error errors ↔ errorsOf results = errors ∧ errors ≠ [] := by
  unfold collect
  cases errorsOf results with
  | nil =>
      constructor
      · rintro ⟨⟩
      · rintro ⟨rfl, nonempty⟩
        exact absurd rfl nonempty
  | cons error others =>
      constructor
      · rintro ⟨⟩
        exact ⟨rfl, List.cons_ne_nil error others⟩
      · rintro ⟨rfl, _⟩
        rfl

/-- What the line of that number contributes; a blank line or a comment
contributes nothing. -/
def readLine (path : String) (line : Option String) (number : Nat) :
    Option (Except SourceError Rule) :=
  match line with
  | none => some (.error ⟨.whole path, .file .notUtf8⟩)
  | some text =>
      if isRuleLine text then
        match Rule.ofLine text with
        | .ok rule => some (.ok rule)
        | .error fault => some (.error ⟨⟨path, number⟩, .line fault⟩)
      else
        none

/-- The contributions of numbered lines. -/
def readLines (path : String) (numbered : List (Option String × Nat)) :
    List (Except SourceError Rule) :=
  numbered.filterMap fun entry => readLine path entry.1 entry.2

/-- The grammar that a source spells. The path only serves to locate faults. -/
def readGrammar (path : String) (source : Bytes) : Except (List SourceError) Grammar :=
  match collect (readLines path ((lines source).zipIdx 1)) with
  | .ok rules => .ok (.ofRules rules)
  | .error errors => .error errors

/-- The grammar in a file, given what it holds or why it cannot be opened. -/
def readGrammarFrom (path : String) (contents : Except FileFault Bytes) :
    Except (List SourceError) Grammar :=
  match contents with
  | .ok source => readGrammar path source
  | .error fault => .error [⟨.whole path, .file fault⟩]

/-- Whether two readings give equivalent grammars, or the same faults at the
same locations. -/
def sameReading (first second : Except (List SourceError) Grammar) : Bool :=
  match first, second with
  | .ok first, .ok second => first.agrees second
  | .error first, .error second =>
      first.length = second.length &&
        (first.zip second).all fun errors => errors.1.agrees errors.2
  | _, _ => false

end Chomsky
