import Mathlib.Algebra.Ring.Nat
import Mathlib.Logic.Function.Iterate
import Chomsky.Derivation.LeafCursor

/-!
# Going over leaves one by one

The subtrees that a leaf cursor holds are a stack, and the next leaf can be found on it without any
recursion into a tree: nodes are taken off the top, and the children of each are pushed in its
place, until a node is a leaf (`LeafCursor.advance`). However many nodes that takes, the leaves that
the whole stack stands for lose their first one and nothing else (`LeafCursor.remaining_advance`).
One call after the other therefore yields the leaves from left to right, and then nothing
(`ParseTree.leaves_come_in_order`).
-/

namespace Chomsky

namespace LeafCursor

/-- The number of nodes that are still to be taken off the stack. -/
def nodesLeft (cursor : LeafCursor) : Nat :=
  (cursor.pending.map ParseTree.size).sum

/-- The leaf that a call yields, if there is one, and the stack that it leaves behind. A node that
is no leaf is replaced by its children, the right one below the left one. -/
def advance (cursor : LeafCursor) : Option Char × LeafCursor :=
  match cursor with
  | ⟨[]⟩ => (none, ⟨[]⟩)
  | ⟨.terminal character :: stack⟩ => (some character, ⟨stack⟩)
  | ⟨.unary _ child :: stack⟩ => advance ⟨child :: stack⟩
  | ⟨.binary _ left right :: stack⟩ => advance ⟨left :: right :: stack⟩
termination_by cursor.nodesLeft
decreasing_by
  -- Two nodes are pushed for one, but the one counts for more than both.
  all_goals
    simp only [nodesLeft, List.map_cons, List.sum_cons, ParseTree.size]
    omega

variable {cursor : LeafCursor}

/-- A call goes down to the leftmost leaf of the topmost subtree. -/
theorem advance_cons (tree : ParseTree) (stack : List ParseTree) :
    advance ⟨tree :: stack⟩ = (some (tree.leftmost stack).1, ⟨(tree.leftmost stack).2⟩) := by
  induction tree generalizing stack with
  | terminal character =>
      rw [advance]
      rfl
  | unary symbol child inductionHypothesis =>
      rw [advance, inductionHypothesis]
      rfl
  | binary symbol left right leftHypothesis _ =>
      rw [advance, leftHypothesis]
      rfl

/-- A call takes the step of the cursor, or leaves it where it is when there is none. -/
theorem advance_eq (cursor : LeafCursor) :
    cursor.advance = match cursor.next? with
      | none => (none, cursor)
      | some (character, after) => (some character, after) := by
  obtain ⟨_ | ⟨tree, stack⟩⟩ := cursor
  · rw [advance]
    rfl
  · rw [advance_cons]
    rfl

/-- A call yields the first of the leaves that the stack stands for. -/
theorem advance_fst (cursor : LeafCursor) : cursor.advance.1 = cursor.remaining.head? := by
  rw [advance_eq]
  cases stepped : cursor.next? with
  | none => simp [next?_eq_none_iff.mp stepped]
  | some found => simp [remaining_of_next? stepped]

/-- A call keeps all leaves that the stack stands for but the first one. -/
theorem remaining_advance (cursor : LeafCursor) :
    cursor.advance.2.remaining = cursor.remaining.tail := by
  rw [advance_eq]
  cases stepped : cursor.next? with
  | none => simp [next?_eq_none_iff.mp stepped]
  | some found => simp [remaining_of_next? stepped]

/-- The cursor after so many calls. -/
def after (cursor : LeafCursor) (calls : Nat) : LeafCursor :=
  (fun cursor => cursor.advance.2)^[calls] cursor

/-- So many calls drop as many leaves. -/
theorem remaining_after (cursor : LeafCursor) (calls : Nat) :
    (cursor.after calls).remaining = cursor.remaining.drop calls := by
  induction calls with
  | zero => rfl
  | succ calls inductionHypothesis =>
      rw [after, Function.iterate_succ_apply', ← after, remaining_advance, inductionHypothesis,
        List.tail_drop]

/-- A call yields the leaf whose place is the number of calls before it. -/
theorem advance_after (cursor : LeafCursor) (calls : Nat) :
    (cursor.after calls).advance.1 = cursor.remaining[calls]? := by
  rw [advance_fst, remaining_after, List.head?_drop]

/-- What a call yields stood in front of what it keeps. -/
theorem remaining_of_advance {character : Char} (yields : cursor.advance.1 = some character) :
    cursor.remaining = character :: cursor.advance.2.remaining := by
  rw [advance_fst] at yields
  obtain ⟨rest, split⟩ := List.head?_eq_some_iff.mp yields
  rw [remaining_advance, split, List.tail_cons]

/-- A call that yields a leaf leaves fewer to come. -/
theorem length_remaining_advance_lt {character : Char}
    (yields : cursor.advance.1 = some character) :
    cursor.advance.2.remaining.length < cursor.remaining.length := by
  rw [remaining_of_advance yields, List.length_cons]
  exact Nat.lt_succ_self _

/-- The leaves that are yielded by call after call until there is none. -/
def toList (cursor : LeafCursor) : Word :=
  match _ : cursor.advance.1 with
  | none => []
  | some character => character :: cursor.advance.2.toList
termination_by cursor.remaining.length
decreasing_by exact length_remaining_advance_lt ‹_›

/-- Calls yield the leaves that the stack stands for. -/
theorem toList_eq_remaining (cursor : LeafCursor) : cursor.toList = cursor.remaining := by
  fun_induction toList cursor with
  | case1 cursor stopped =>
      rw [advance_fst] at stopped
      exact (List.head?_eq_none_iff.mp stopped).symm
  | case2 cursor character yields inductionHypothesis =>
      rw [inductionHypothesis, remaining_of_advance yields]

end LeafCursor

namespace ParseTree

/-- The characters of a word, put together, are the word's text. -/
theorem join_map_singleton (word : Word) :
    String.join (word.map String.singleton) = String.ofList word := by
  induction word with
  | nil => rfl
  | cons character rest inductionHypothesis =>
      rw [List.map_cons, String.join_cons, inductionHypothesis, String.ofList_cons]

/-- Going over the leaves of a tree, whatever its shape, comes to an end and yields the characters
at its terminals from left to right: the characters of a node's children one child after the other.
A call finds the same leaf as the step of the cursor; the call after so many others yields the leaf
that has as many to its left, and none once all leaves have been yielded. What a tree spells is
these characters put together, and so two subtrees spell their texts one behind the other. -/
theorem leaves_come_in_order (tree : ParseTree) :
    (∀ node : ParseTree, node.leaves = match node with
      | terminal character => [character]
      | _ => node.children.flatMap leaves) ∧
    (∀ cursor : LeafCursor, cursor.advance = match cursor.next? with
      | none => (none, cursor)
      | some (character, after) => (some character, after)) ∧
    tree.leafCursor.toList = tree.leaves ∧
    (∀ calls, (tree.leafCursor.after calls).advance.1 = tree.leaves[calls]?) ∧
    tree.spelled = String.join (tree.leafCursor.toList.map String.singleton) ∧
    ∀ symbol left right, (binary symbol left right).spelled = left.spelled ++ right.spelled := by
  have yielded : tree.leafCursor.toList = tree.leaves := by
    rw [LeafCursor.toList_eq_remaining, LeafCursor.remaining_leafCursor]
  refine ⟨fun node => ?inorder, LeafCursor.advance_eq, yielded, fun calls => ?call, ?spelled,
    fun symbol left right => String.ofList_append⟩
  case inorder => cases node <;> simp [leaves, children]
  case call => rw [LeafCursor.advance_after, LeafCursor.remaining_leafCursor]
  case spelled => rw [yielded, join_map_singleton, spelled]

end ParseTree

end Chomsky
