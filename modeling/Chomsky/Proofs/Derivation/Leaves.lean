import Chomsky.Derivation.LeafCursor

/-!
# Walks over leaves

`LeafCursor.Walk` says which leaves come out when a cursor is moved until it
stops. A walk exists from every place and yields what `LeafCursor.remaining`
says, so the leaves of a tree come out from left to right.
-/

namespace Chomsky

namespace LeafCursor

/-- Moving on from a place yields these characters and then stops. -/
inductive Walk : LeafCursor → Word → Prop where
  | done {cursor} (stopped : cursor.next? = none) : Walk cursor []
  | step {cursor after character word} (stepped : cursor.next? = some (character, after))
      (walk : Walk after word) : Walk cursor (character :: word)

/-- Every walk ends after the leaves that are still to come. -/
theorem walk_remaining (cursor : LeafCursor) : cursor.Walk cursor.remaining := by
  induction remaining : cursor.remaining generalizing cursor with
  | nil => exact .done (next?_eq_none_iff.mpr remaining)
  | cons character rest inductionHypothesis =>
      cases stepped : cursor.next? with
      | none =>
          rw [next?_eq_none_iff, remaining] at stepped
          exact absurd stepped (List.cons_ne_nil _ _)
      | some found =>
          obtain ⟨foundCharacter, after⟩ := found
          have split := remaining_of_next? stepped
          rw [remaining] at split
          injection split with sameCharacter sameRest
          subst sameCharacter
          exact .step stepped (inductionHypothesis after sameRest.symm)

end LeafCursor

/-- Walking over a tree yields its leaves. -/
theorem ParseTree.walk_leaves (tree : ParseTree) : tree.leafCursor.Walk tree.leaves := by
  have walk := tree.leafCursor.walk_remaining
  rwa [LeafCursor.remaining_leafCursor] at walk

end Chomsky
