import Chomsky.Derivation.Tree

/-!
# Walking the leaves

A leaf cursor holds the subtrees whose leaves are still to come, the next one
first. Each step goes down to the leftmost leaf of the first subtree and leaves
behind what it passed on the right.
-/

namespace Chomsky

/-- A place between two leaves of a tree. -/
structure LeafCursor where
  /-- The subtrees whose leaves are still to come, in order. -/
  pending : List ParseTree
deriving DecidableEq, Repr

namespace ParseTree

/-- The leftmost leaf of a tree, and the subtrees to its right ahead of those
that were pending already. -/
def leftmost (pending : List ParseTree) : ParseTree → Char × List ParseTree
  | terminal character => (character, pending)
  | unary _ child => child.leftmost pending
  | binary _ left right => left.leftmost (right :: pending)

/-- The place before the first leaf. -/
def leafCursor (tree : ParseTree) : LeafCursor := ⟨[tree]⟩

end ParseTree

namespace LeafCursor

/-- The leaf after this place and the place after that leaf, if there is one. -/
def next? (cursor : LeafCursor) : Option (Char × LeafCursor) :=
  match cursor.pending with
  | [] => none
  | tree :: rest =>
      let found := tree.leftmost rest
      some (found.1, ⟨found.2⟩)

/-- The leaves still to come. -/
def remaining (cursor : LeafCursor) : Word :=
  cursor.pending.flatMap ParseTree.leaves

/-- Before the first leaf, all of them are still to come. -/
@[simp] theorem remaining_leafCursor (tree : ParseTree) :
    tree.leafCursor.remaining = tree.leaves := by
  simp [ParseTree.leafCursor, remaining]

/-- Going down to the leftmost leaf passes over no leaf. -/
theorem leaves_leftmost (tree : ParseTree) (pending : List ParseTree) :
    (tree.leftmost pending).1 :: (tree.leftmost pending).2.flatMap ParseTree.leaves =
      tree.leaves ++ pending.flatMap ParseTree.leaves := by
  induction tree generalizing pending with
  | terminal character => rfl
  | unary symbol child inductionHypothesis => exact inductionHypothesis pending
  | binary symbol left right leftHypothesis _ =>
      simpa [ParseTree.leftmost, ParseTree.leaves] using leftHypothesis (right :: pending)

/-- A step yields the first of the leaves still to come and keeps the others. -/
theorem remaining_of_next? {cursor after : LeafCursor} {character : Char}
    (stepped : cursor.next? = some (character, after)) :
    cursor.remaining = character :: after.remaining := by
  obtain ⟨pending⟩ := cursor
  cases pending with
  | nil => simp [next?] at stepped
  | cons tree rest =>
      simp only [next?, Option.some.injEq, Prod.mk.injEq] at stepped
      obtain ⟨rfl, rfl⟩ := stepped
      simpa [remaining] using (leaves_leftmost tree rest).symm

/-- There is no step exactly when no leaf is left. -/
theorem next?_eq_none_iff {cursor : LeafCursor} :
    cursor.next? = none ↔ cursor.remaining = [] := by
  obtain ⟨pending⟩ := cursor
  cases pending with
  | nil => simp [next?, remaining]
  | cons tree rest => simp [next?, remaining, tree.leaves_ne_nil]

end LeafCursor

end Chomsky
