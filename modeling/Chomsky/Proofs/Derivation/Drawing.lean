import Mathlib.Data.List.Basic
import Chomsky.Derivation.Drawing
import Chomsky.Proofs.Derivation.Nodes
import Chomsky.Proofs.Text.Pieces

/-!
# Drawings are faithful

The lines of a drawing give the tree back (`drawing_determines_tree`). Rails and
branches are four characters long and no two of them are alike, so a line shows where
its node hangs before the label starts, whatever the label is. Where a subtree's lines
are over is seen from the next line, which leaves off the rails of the subtree
(`LeavesOff`). The induction is therefore on trees in front of further lines
(`eq_of_draw_append_eq`).
-/

namespace Chomsky

/-- Texts of one length can be told apart in front of anything. -/
theorem eq_of_append_eq {first second before after : String}
    (length : first.length = second.length) (same : first ++ before = second ++ after) :
    first = second ∧ before = after := by
  have lists : first.toList ++ before.toList = second.toList ++ after.toList := by
    rw [← String.toList_append, same, String.toList_append]
  have lengths : first.toList.length = second.toList.length := by
    rw [String.length_toList, length, String.length_toList]
  obtain ⟨firsts, seconds⟩ := List.append_inj lists lengths
  exact ⟨String.toList_injective firsts, String.toList_injective seconds⟩

/-- All branches and rails are as long as each other. -/
theorem length_branch_eq_length_rail (isLast other : Bool) :
    (branch isLast).length = (rail other).length := by
  cases isLast <;> cases other <;> decide

/-- A branch is not taken for a rail. -/
theorem branch_ne_rail (isLast other : Bool) : branch isLast ≠ rail other := by
  cases isLast <;> cases other <;> decide

/-- A branch shows whether a child is the last one, and where the label starts. -/
theorem eq_of_branch_append_eq {isLast other : Bool} {label otherLabel : String}
    (same : branch isLast ++ label = branch other ++ otherLabel) :
    isLast = other ∧ label = otherLabel := by
  have lengths : (branch isLast).length = (branch other).length := by
    rw [length_branch_eq_length_rail isLast true, length_branch_eq_length_rail other true]
  obtain ⟨branches, labels⟩ := eq_of_append_eq lengths same
  refine ⟨?_, labels⟩
  revert branches
  cases isLast <;> cases other <;> decide

namespace ParseTree

variable {tree other first second : ParseTree} {rails : String}

/-- What holds of a tree whenever it holds of all subtrees just below the root holds of
every tree. -/
theorem childrenInduction {holds : ParseTree → Prop}
    (step : ∀ tree : ParseTree, (∀ child ∈ tree.children, holds child) → holds tree)
    (tree : ParseTree) : holds tree := by
  apply step
  induction tree with
  | terminal character =>
      intro child member
      cases member
  | unary symbol child inductionHypothesis =>
      rw [children, List.forall_mem_singleton]
      exact step child inductionHypothesis
  | binary symbol left right leftHypothesis rightHypothesis =>
      rw [children, List.forall_mem_cons, List.forall_mem_singleton]
      exact ⟨step left leftHypothesis, step right rightHypothesis⟩

/-- A node is known by its label and its children: the number of children tells what
kind of node it is. -/
theorem eq_of_label_of_children (label : tree.label = other.label)
    (children : tree.children = other.children) : tree = other := by
  cases tree <;> cases other <;> simp_all [ParseTree.label, ParseTree.children]

/-- The lines of siblings below the given rails. -/
def drawSiblings (rails : String) : List ParseTree → List String
  | [] => []
  | tree :: others => tree.draw rails others.isEmpty ++ drawSiblings rails others

/-- A tree is drawn as a line for the root and the lines of the children. -/
theorem draw_eq_cons (tree : ParseTree) (rails : String) (isLast : Bool) :
    tree.draw rails isLast =
      (rails ++ (branch isLast ++ tree.label)) ::
        drawSiblings (rails ++ rail isLast) tree.children := by
  cases tree <;>
    simp only [draw, drawSiblings, children, label, String.append_assoc, List.append_nil,
      List.isEmpty_nil, List.isEmpty_cons]

/-- The first of the lines, if there is any, does not start with these rails. -/
def LeavesOff (rails : String) (lines : List String) : Prop :=
  ∀ line ∈ lines.head?, ∀ rest, line ≠ rails ++ rest

/-- The lines of siblings start with their rails. -/
theorem not_leavesOff_drawSiblings (tree : ParseTree) (others : List ParseTree)
    (rest : List String) : ¬ LeavesOff rails (drawSiblings rails (tree :: others) ++ rest) := by
  intro leaves
  rw [drawSiblings, draw_eq_cons, List.cons_append, List.cons_append] at leaves
  exact leaves _ rfl _ rfl

/-- Lines that leave off some rails leave off any that go on from there. -/
theorem LeavesOff.append {rest : List String} (leaves : LeavesOff rails rest) (more : String) :
    LeavesOff (rails ++ more) rest := by
  intro line first tail same
  rw [String.append_assoc] at same
  exact leaves line first (more ++ tail) same

/-- Behind a sibling's lines come those of the next one, or else lines that leave off
the rails of all siblings. -/
theorem LeavesOff.drawSiblings {rest : List String} (leaves : LeavesOff rails rest)
    (isLast : Bool) (trees : List ParseTree) :
    LeavesOff (rails ++ rail isLast) (drawSiblings rails trees ++ rest) := by
  cases trees with
  | nil => exact leaves.append (rail isLast)
  | cons tree others =>
      rw [ParseTree.drawSiblings, draw_eq_cons, List.cons_append, List.cons_append]
      intro line first tail same
      obtain rfl := Option.some.inj first
      rw [String.append_assoc, String.append_right_inj] at same
      exact branch_ne_rail _ _ (eq_of_append_eq (length_branch_eq_length_rail _ _) same).1

/-- A tree is known from its lines in front of others that leave off its rails. -/
def KnownFromLines (tree : ParseTree) : Prop :=
  ∀ {other : ParseTree} {rails : String} {isLast otherIsLast : Bool} {rest otherRest : List String},
    LeavesOff (rails ++ rail isLast) rest → LeavesOff (rails ++ rail otherIsLast) otherRest →
      tree.draw rails isLast ++ rest = other.draw rails otherIsLast ++ otherRest →
        tree = other ∧ rest = otherRest

/-- Siblings are known from their lines when each of them is. -/
theorem eq_of_drawSiblings_append_eq {trees others : List ParseTree} {rest otherRest : List String}
    (known : ∀ tree ∈ trees, tree.KnownFromLines)
    (leaves : LeavesOff rails rest) (otherLeaves : LeavesOff rails otherRest)
    (same : drawSiblings rails trees ++ rest = drawSiblings rails others ++ otherRest) :
    trees = others ∧ rest = otherRest := by
  induction trees generalizing others with
  | nil =>
      cases others with
      | nil => exact ⟨rfl, same⟩
      | cons other others =>
          rw [drawSiblings, List.nil_append] at same
          exact absurd (same ▸ leaves) (not_leavesOff_drawSiblings other others otherRest)
  | cons tree trees inductionHypothesis =>
      cases others with
      | nil =>
          have same := same.symm
          rw [drawSiblings, List.nil_append] at same
          exact absurd (same ▸ otherLeaves) (not_leavesOff_drawSiblings tree trees rest)
      | cons other others =>
          rw [List.forall_mem_cons] at known
          rw [drawSiblings, drawSiblings, List.append_assoc, List.append_assoc] at same
          obtain ⟨rfl, later⟩ := known.1 (leaves.drawSiblings _ trees)
            (otherLeaves.drawSiblings _ others) same
          obtain ⟨rfl, rests⟩ := inductionHypothesis known.2 later
          exact ⟨rfl, rests⟩

/-- Every tree is known from its lines. -/
theorem knownFromLines (tree : ParseTree) : tree.KnownFromLines := by
  induction tree using childrenInduction with
  | step tree inductionHypothesis =>
      intro other rails isLast otherIsLast rest otherRest leaves otherLeaves same
      rw [draw_eq_cons, draw_eq_cons, List.cons_append, List.cons_append] at same
      obtain ⟨sameLine, below⟩ := List.cons.inj same
      rw [String.append_right_inj] at sameLine
      obtain ⟨rfl, sameLabel⟩ := eq_of_branch_append_eq sameLine
      -- Both trees hang from the same kind of branch, so their children have the same rails.
      obtain ⟨sameChildren, rests⟩ :=
        eq_of_drawSiblings_append_eq inductionHypothesis leaves otherLeaves below
      exact ⟨eq_of_label_of_children sameLabel sameChildren, rests⟩

/-- No two trees have the same lines. -/
theorem lines_injective : Function.Injective lines := by
  intro first second same
  have leaves : LeavesOff ("" ++ rail true) [] := by
    intro line none
    cases none
  have whole : first.draw "" true ++ [] = second.draw "" true ++ [] := congrArg (· ++ []) same
  exact (first.knownFromLines leaves leaves whole).1

/-- Neither a symbol nor a character of the tree breaks a line. -/
def IsUnbroken (tree : ParseTree) : Prop :=
  ∀ node ∈ tree.subtrees, '\n' ∉ node.label.toList

instance (tree : ParseTree) : Decidable tree.IsUnbroken :=
  inferInstanceAs (Decidable (∀ node ∈ tree.subtrees, '\n' ∉ node.label.toList))

/-- A line of an unbroken label below unbroken rails is not broken. -/
theorem newline_notMem_line {isLast : Bool} {label : String}
    (railsUnbroken : '\n' ∉ rails.toList) (labelUnbroken : '\n' ∉ label.toList) :
    '\n' ∉ (rails ++ branch isLast ++ label).toList := by
  have branchUnbroken : '\n' ∉ (branch isLast).toList := by cases isLast <;> decide
  simp [String.toList_append, railsUnbroken, branchUnbroken, labelUnbroken]

/-- The rails of a node's children are as unbroken as those of the node. -/
theorem newline_notMem_append_rail (railsUnbroken : '\n' ∉ rails.toList) (isLast : Bool) :
    '\n' ∉ (rails ++ rail isLast).toList := by
  have railUnbroken : '\n' ∉ (rail isLast).toList := by cases isLast <;> decide
  simp [String.toList_append, railsUnbroken, railUnbroken]

/-- No line of an unbroken tree is broken. -/
theorem IsUnbroken.newline_notMem {isLast : Bool} (unbroken : tree.IsUnbroken)
    (railsUnbroken : '\n' ∉ rails.toList) :
    ∀ line ∈ tree.draw rails isLast, '\n' ∉ line.toList := by
  induction tree generalizing rails isLast with
  | terminal character =>
      rw [IsUnbroken, subtrees, List.forall_mem_singleton] at unbroken
      rw [draw, List.forall_mem_singleton]
      exact newline_notMem_line railsUnbroken unbroken
  | unary symbol child inductionHypothesis =>
      rw [IsUnbroken, subtrees, List.forall_mem_cons] at unbroken
      rw [draw, List.forall_mem_cons]
      exact ⟨newline_notMem_line railsUnbroken unbroken.1,
        inductionHypothesis unbroken.2 (newline_notMem_append_rail railsUnbroken isLast)⟩
  | binary symbol left right leftHypothesis rightHypothesis =>
      rw [IsUnbroken, subtrees, List.forall_mem_cons, List.forall_mem_append] at unbroken
      rw [draw, List.forall_mem_cons, List.forall_mem_append]
      have below := newline_notMem_append_rail railsUnbroken isLast
      exact ⟨newline_notMem_line railsUnbroken unbroken.1,
        leftHypothesis unbroken.2.1 below, rightHypothesis unbroken.2.2 below⟩

/-- A drawing is cut at its line feeds into the lines of the tree. -/
theorem IsUnbroken.pieces_drawing (unbroken : tree.IsUnbroken) :
    pieces '\n' tree.drawing.toList = tree.lines.map String.toList ++ [[]] := by
  have terminated : tree.drawing.toList =
      (tree.lines.map String.toList).flatMap (· ++ ['\n']) := by
    rw [drawing]
    induction tree.lines with
    | nil => rfl
    | cons line rest inductionHypothesis =>
        rw [List.map_cons, String.join_cons, String.toList_append, inductionHypothesis,
          String.toList_append, List.map_cons, List.flatMap_cons]
        rfl
  rw [terminated]
  apply pieces_flatMap_terminated
  rw [List.forall_mem_map]
  exact unbroken.newline_notMem (by decide)

/-- Unbroken trees with the same drawing have the same lines. -/
theorem IsUnbroken.lines_eq (unbroken : first.IsUnbroken) (otherUnbroken : second.IsUnbroken)
    (same : first.drawing = second.drawing) : first.lines = second.lines := by
  have cuts := unbroken.pieces_drawing
  rw [same, otherUnbroken.pieces_drawing] at cuts
  have characters : first.lines.map String.toList = second.lines.map String.toList :=
    (List.append_cancel_right cuts).symm
  exact List.map_injective_iff.mpr (fun _ _ => String.toList_injective) characters

end ParseTree

/-- A cursor yields the lines still to come, in order and as many as asked for. -/
theorem LineCursor.take_eq (cursor : LineCursor) (count : Nat) :
    cursor.take count = cursor.remaining.take count := by
  induction count generalizing cursor with
  | zero => rfl
  | succ count inductionHypothesis =>
      rw [take]
      cases stepped : cursor.next? with
      | none => rw [next?_eq_none_iff.mp stepped, List.take_nil]
      | some found =>
          obtain ⟨line, after⟩ := found
          rw [remaining_of_next? stepped, List.take_succ_cons]
          exact congrArg (line :: ·) (inductionHypothesis after)

namespace ParseTree

/-- Cursors that yield the same, however many lines they are asked for, go over the same
lines. -/
theorem lines_eq_of_take_eq {first second : ParseTree}
    (same : ∀ count, first.lineCursor.take count = second.lineCursor.take count) :
    first.lines = second.lines := by
  have enough := same (max first.lines.length second.lines.length)
  rwa [LineCursor.take_eq, LineCursor.take_eq, LineCursor.remaining_lineCursor,
    LineCursor.remaining_lineCursor, List.take_of_length_le (Nat.le_max_left _ _),
    List.take_of_length_le (Nat.le_max_right _ _)] at enough

/-- A tree is known from the lines of its drawing, be they taken together or one after
the other from a cursor, and whatever its labels look like. It is even known from the
drawing as one text, unless a label breaks a line. -/
theorem drawing_determines_tree (first second : ParseTree) :
    (first.lines = second.lines ↔ first = second) ∧
    ((∀ count, first.lineCursor.take count = second.lineCursor.take count) ↔ first = second) ∧
    (first.IsUnbroken → second.IsUnbroken →
      (first.drawing = second.drawing ↔ first = second)) := by
  refine ⟨lines_injective.eq_iff, ⟨?yielded, ?_⟩, fun unbroken otherUnbroken => ⟨?drawn, ?_⟩⟩
  case yielded =>
    intro same
    exact lines_injective (lines_eq_of_take_eq same)
  case drawn =>
    intro same
    exact lines_injective (unbroken.lines_eq otherUnbroken same)
  · rintro rfl count
    rfl
  · rintro rfl
    rfl

/-- Labels that look like rails and branches do not make two trees look alike. -/
theorem drawing_determines_tree_mimicked :
    let first := ParseTree.unary "├── S" (.binary "" (.terminal '│') (.terminal ' '))
    let second := ParseTree.unary "" (.binary "├── S" (.terminal ' ') (.terminal '│'))
    first.IsUnbroken ∧ second.IsUnbroken ∧ first ≠ second ∧ first.drawing ≠ second.drawing := by
  intro first second
  have unbroken : first.IsUnbroken := by decide
  have otherUnbroken : second.IsUnbroken := by decide
  have different : first ≠ second := by decide
  exact ⟨unbroken, otherUnbroken, different,
    fun same => different (((drawing_determines_tree first second).2.2 unbroken
      otherUnbroken).mp same)⟩

/-- A symbol that breaks a line can pass for a child. -/
example : (ParseTree.binary "S" (.terminal 'a') (.terminal 'b')).drawing =
    (ParseTree.unary "S\n    ├── a" (.terminal 'b')).drawing := by
  decide

end ParseTree

end Chomsky
