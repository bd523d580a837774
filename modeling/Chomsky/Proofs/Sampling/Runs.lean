import Mathlib.Data.List.Basic
import Chomsky.Proofs.Sampling.Choice
import Chomsky.Sampling.Expansion

/-!
# Runs of an expansion

The relations here say what an expansion does, step by step, and the function
`expand` is shown to do nothing else. `Expands` is a run that ends well; it keeps
the tree of the alternatives that were picked, of which the word is only the
leaves. `Faults` is a run that ends early, at the symbol that could not be
expanded.
-/

namespace Chomsky

/-- With so many levels of rules left, a symbol is expanded along a tree, which
takes the supply to the one after it. -/
inductive Expands (grammar : Grammar) (heights : Heights) :
    (levels : Nat) → (symbol : String) → Supply → ParseTree → Supply → Prop where
  | terminal {levels symbol alternatives supply character after}
      (rule : grammar.alternatives? symbol = some alternatives)
      (choice : supply.choose (candidates heights (maxDepth - levels) alternatives) =
        (some (.terminal character), after)) :
      Expands grammar heights (levels + 1) symbol supply
        (.unary symbol (.terminal character)) after
  | pair {levels symbol alternatives supply left right chosen leftTree between rightTree after}
      (rule : grammar.alternatives? symbol = some alternatives)
      (choice : supply.choose (candidates heights (maxDepth - levels) alternatives) =
        (some (.pair left right), chosen))
      (leftRun : Expands grammar heights levels (String.singleton left) chosen leftTree between)
      (rightRun : Expands grammar heights levels (String.singleton right) between rightTree
        after) :
      Expands grammar heights (levels + 1) symbol supply (.binary symbol leftTree rightTree)
        after

/-- With so many levels of rules left, the expansion of a symbol ends early with
a fault. -/
inductive Faults (grammar : Grammar) (heights : Heights) :
    (levels : Nat) → (symbol : String) → Supply → ExpansionFault → Supply → Prop where
  | depthExceeded (symbol : String) (supply : Supply) :
      Faults grammar heights 0 symbol supply (.depthExceeded symbol) supply
  | undefined {levels : Nat} {symbol : String} {supply : Supply}
      (rule : grammar.alternatives? symbol = none) :
      Faults grammar heights (levels + 1) symbol supply (.undefined symbol) supply
  | noAlternatives {levels : Nat} {symbol : String} {alternatives : List Alternative}
      {supply : Supply}
      (rule : grammar.alternatives? symbol = some alternatives)
      (nothing : candidates heights (maxDepth - levels) alternatives = []) :
      Faults grammar heights (levels + 1) symbol supply (.noAlternatives symbol) supply
  | undecided {levels symbol alternatives supply after}
      (rule : grammar.alternatives? symbol = some alternatives)
      (something : candidates heights (maxDepth - levels) alternatives ≠ [])
      (choice : supply.choose (candidates heights (maxDepth - levels) alternatives) =
        (none, after)) :
      Faults grammar heights (levels + 1) symbol supply (.undecided symbol) after
  | left {levels symbol alternatives supply left right chosen fault after}
      (rule : grammar.alternatives? symbol = some alternatives)
      (choice : supply.choose (candidates heights (maxDepth - levels) alternatives) =
        (some (.pair left right), chosen))
      (leftFault : Faults grammar heights levels (String.singleton left) chosen fault after) :
      Faults grammar heights (levels + 1) symbol supply fault after
  | right {levels symbol alternatives supply left right chosen leftTree between fault after}
      (rule : grammar.alternatives? symbol = some alternatives)
      (choice : supply.choose (candidates heights (maxDepth - levels) alternatives) =
        (some (.pair left right), chosen))
      (leftRun : Expands grammar heights levels (String.singleton left) chosen leftTree between)
      (rightFault : Faults grammar heights levels (String.singleton right) between fault
        after) :
      Faults grammar heights (levels + 1) symbol supply fault after

variable {grammar : Grammar} {heights : Heights} {levels : Nat} {symbol : String}
  {supply after : Supply}

/-- Candidates are alternatives in normal form. -/
theorem mem_of_mem_candidates {depth : Nat} {alternatives : List Alternative}
    {alternative : Alternative} (member : alternative ∈ candidates heights depth alternatives) :
    alternative ∈ alternatives ∧ alternative.isNormal = true := by
  rw [← List.mem_filter]
  simp only [candidates] at member
  split at member
  · split at member
    · exact (List.mem_filter.mp member).1
    · exact member
  · exact member

/-- A candidate that is chosen for a symbol is one of its alternatives. -/
theorem mem_alternatives_of_choose {alternatives : List Alternative} {depth : Nat}
    {alternative : Alternative} (rule : grammar.alternatives? symbol = some alternatives)
    (choice : supply.choose (candidates heights depth alternatives) = (some alternative, after)) :
    alternative ∈ grammar.alternatives symbol := by
  rw [Grammar.alternatives, rule, Option.getD_some]
  exact (mem_of_mem_candidates (Supply.mem_of_choose choice)).1

/-- Every expansion runs to its end or to a fault. -/
theorem expands_or_faults (grammar : Grammar) (heights : Heights) (levels : Nat)
    (symbol : String) (supply : Supply) :
    (∃ tree after, Expands grammar heights levels symbol supply tree after) ∨
      ∃ fault after, Faults grammar heights levels symbol supply fault after := by
  induction levels generalizing symbol supply with
  | zero => exact .inr ⟨_, _, .depthExceeded symbol supply⟩
  | succ levels inductionHypothesis =>
      cases rule : grammar.alternatives? symbol with
      | none => exact .inr ⟨_, _, .undefined rule⟩
      | some alternatives =>
          by_cases nothing : candidates heights (maxDepth - levels) alternatives = []
          · exact .inr ⟨_, _, .noAlternatives rule nothing⟩
          cases choice : supply.choose (candidates heights (maxDepth - levels) alternatives) with
          | mk picked chosen =>
              cases picked with
              | none => exact .inr ⟨_, _, .undecided rule nothing choice⟩
              | some alternative =>
                  cases alternative with
                  | terminal character => exact .inl ⟨_, _, .terminal rule choice⟩
                  | pair left right =>
                      obtain ⟨leftTree, between, leftRun⟩ | ⟨fault, last, leftFault⟩ :=
                        inductionHypothesis (String.singleton left) chosen
                      · obtain ⟨rightTree, last, rightRun⟩ | ⟨fault, last, rightFault⟩ :=
                          inductionHypothesis (String.singleton right) between
                        · exact .inl ⟨_, _, .pair rule choice leftRun rightRun⟩
                        · exact .inr ⟨_, _, .right rule choice leftRun rightFault⟩
                      · exact .inr ⟨_, _, .left rule choice leftFault⟩
                  | unsupported text =>
                      have normal := (mem_of_mem_candidates (Supply.mem_of_choose choice)).2
                      exact absurd normal Bool.false_ne_true

/-- What an expansion does once a choice has been made. -/
theorem expand_of_choose {alternatives : List Alternative} {picked : Option Alternative}
    {chosen : Supply} (rule : grammar.alternatives? symbol = some alternatives)
    (something : candidates heights (maxDepth - levels) alternatives ≠ [])
    (choice : supply.choose (candidates heights (maxDepth - levels) alternatives) =
      (picked, chosen)) :
    expand grammar heights (levels + 1) symbol supply =
      match picked with
      | some (.terminal character) => (.ok [character], chosen)
      | some (.pair left right) =>
          match expand grammar heights levels (String.singleton left) chosen with
          | (.ok leftWord, between) =>
              match expand grammar heights levels (String.singleton right) between with
              | (.ok rightWord, last) => (.ok (leftWord ++ rightWord), last)
              | (.error fault, last) => (.error fault, last)
          | (.error fault, last) => (.error fault, last)
      | _ => (.error (.undecided symbol), chosen) := by
  obtain ⟨first, others, shape⟩ := List.exists_cons_of_ne_nil something
  rw [shape] at choice
  simp only [expand, rule, shape, choice]
  rcases picked with _ | ⟨_ | _ | _⟩ <;> rfl

/-- A choice is only made where there are candidates. -/
theorem candidates_ne_nil_of_choose {depth : Nat} {alternatives : List Alternative}
    {alternative : Alternative}
    (choice : supply.choose (candidates heights depth alternatives) = (some alternative, after)) :
    candidates heights depth alternatives ≠ [] :=
  List.ne_nil_of_mem (Supply.mem_of_choose choice)

/-- A run that ends well gives the leaves of its tree. -/
theorem Expands.expand_eq {tree : ParseTree}
    (run : Expands grammar heights levels symbol supply tree after) :
    expand grammar heights levels symbol supply = (.ok tree.leaves, after) := by
  induction run with
  | terminal rule choice =>
      rw [expand_of_choose rule (candidates_ne_nil_of_choose choice) choice]
      rfl
  | pair rule choice _ _ leftHypothesis rightHypothesis =>
      rw [expand_of_choose rule (candidates_ne_nil_of_choose choice) choice]
      simp only [leftHypothesis, rightHypothesis, ParseTree.leaves]

/-- A run that ends early gives its fault. -/
theorem Faults.expand_eq {fault : ExpansionFault}
    (run : Faults grammar heights levels symbol supply fault after) :
    expand grammar heights levels symbol supply = (.error fault, after) := by
  induction run with
  | depthExceeded symbol supply => rfl
  | undefined rule => rw [expand, rule]
  | noAlternatives rule nothing => simp only [expand, rule, nothing]
  | undecided rule something choice => rw [expand_of_choose rule something choice]
  | left rule choice _ leftHypothesis =>
      rw [expand_of_choose rule (candidates_ne_nil_of_choose choice) choice]
      simp only [leftHypothesis]
  | right rule choice leftRun _ rightHypothesis =>
      rw [expand_of_choose rule (candidates_ne_nil_of_choose choice) choice]
      simp only [leftRun.expand_eq, rightHypothesis]

/-- An expansion gives a word exactly when a run along a tree with these leaves
ends well. -/
theorem expand_eq_ok_iff {word : Word} :
    expand grammar heights levels symbol supply = (.ok word, after) ↔
      ∃ tree, Expands grammar heights levels symbol supply tree after ∧ tree.leaves = word := by
  constructor
  · intro expanded
    obtain ⟨tree, last, run⟩ | ⟨fault, last, run⟩ :=
      expands_or_faults grammar heights levels symbol supply
    · rw [run.expand_eq] at expanded
      cases expanded
      exact ⟨tree, run, rfl⟩
    · rw [run.expand_eq] at expanded
      cases expanded
  · rintro ⟨tree, run, rfl⟩
    exact run.expand_eq

/-- An expansion ends early exactly when a run ends with that fault. -/
theorem expand_eq_error_iff {fault : ExpansionFault} :
    expand grammar heights levels symbol supply = (.error fault, after) ↔
      Faults grammar heights levels symbol supply fault after := by
  constructor
  · intro expanded
    obtain ⟨tree, last, run⟩ | ⟨other, last, run⟩ :=
      expands_or_faults grammar heights levels symbol supply
    · rw [run.expand_eq] at expanded
      cases expanded
    · rw [run.expand_eq] at expanded
      cases expanded
      exact run
  · exact Faults.expand_eq

/-- Sampling is an expansion with all levels left whose faults are located in
the file as a whole. -/
theorem Grammar.sampleFrom_eq (grammar : Grammar) (symbol path : String) (supply : Supply) :
    grammar.sampleFrom symbol path supply =
      ((expand grammar grammar.leastHeights (maxDepth + 1) symbol supply).1.mapError
          (Located.mk (.whole path)),
        (expand grammar grammar.leastHeights (maxDepth + 1) symbol supply).2) := by
  rw [sampleFrom]
  split
  · next expanded =>
      rw [expanded]
      rfl
  · next expanded =>
      rw [expanded]
      rfl

/-- A sampled word spells the tree of a run. -/
theorem Grammar.sampleFrom_eq_ok_iff {path : String} {word : Word} :
    grammar.sampleFrom symbol path supply = (.ok word, after) ↔
      ∃ tree, Expands grammar grammar.leastHeights (maxDepth + 1) symbol supply tree after ∧
        tree.leaves = word := by
  rw [← expand_eq_ok_iff, sampleFrom_eq]
  rcases expand grammar grammar.leastHeights (maxDepth + 1) symbol supply with
    ⟨_ | _, _⟩ <;> simp [Except.mapError]

/-- Sampling ends early where a run does. -/
theorem Grammar.sampleFrom_eq_error_iff {path : String} {error : ExpansionError} :
    grammar.sampleFrom symbol path supply = (.error error, after) ↔
      ∃ fault, Faults grammar grammar.leastHeights (maxDepth + 1) symbol supply fault after ∧
        error = ⟨.whole path, fault⟩ := by
  simp only [← expand_eq_error_iff, sampleFrom_eq]
  rcases expand grammar grammar.leastHeights (maxDepth + 1) symbol supply with
    ⟨_ | _, _⟩ <;> simp [Except.mapError, eq_comm, and_comm]

/-- A run leaves a supply of the source that it started with. -/
theorem Expands.source_eq {tree : ParseTree}
    (run : Expands grammar heights levels symbol supply tree after) :
    after.source = supply.source := by
  induction run with
  | terminal rule choice => exact Supply.source_of_choose choice
  | pair rule choice _ _ leftHypothesis rightHypothesis =>
      rw [rightHypothesis, leftHypothesis, Supply.source_of_choose choice]

/-- The tree of a run is a parse tree of the symbol. -/
theorem Expands.valid {tree : ParseTree}
    (run : Expands grammar heights levels symbol supply tree after) :
    tree.ValidFor grammar symbol := by
  induction run with
  | terminal rule choice => exact .unary (mem_alternatives_of_choose rule choice)
  | pair rule choice _ _ leftHypothesis rightHypothesis =>
      exact .binary (mem_alternatives_of_choose rule choice) leftHypothesis rightHypothesis

end Chomsky
