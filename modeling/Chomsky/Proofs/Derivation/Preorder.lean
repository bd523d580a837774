import Chomsky.Proofs.Derivation.Drawing

/-!
# Going over a drawing line by line

A line cursor holds a stack of subtrees. A step takes the topmost one off, yields the line of its
root and pushes its children, the last one first (`LineCursor.next?_cons`). The lines that the whole
stack stands for thereby lose their first one and nothing else (`LineCursor.remaining_of_next?`), so
that steps come to an end, and what they yield until then is the drawing in preorder
(`ParseTree.lines_come_in_preorder`).
-/

namespace Chomsky

namespace Hanging

/-- A stack with the children of a subtree's root pushed on top of it, from the last child to the
first one. -/
def pushChildren (hanging : Hanging) (stack : List Hanging) : List Hanging :=
  let children := hanging.tree.children
  children.zipIdx.reverse.foldl
    (fun stack child =>
      ⟨child.1, hanging.rails ++ rail hanging.isLast, child.2 = children.length - 1⟩ :: stack)
    stack

/-- The first child ends up on top. -/
theorem pushChildren_eq (hanging : Hanging) (stack : List Hanging) :
    hanging.pushChildren stack = hanging.below ++ stack := by
  obtain ⟨tree, rails, isLast⟩ := hanging
  cases tree <;> rfl

end Hanging

namespace LineCursor

variable {cursor after : LineCursor} {line : String}

/-- A step takes the topmost subtree off the stack and pushes its children. -/
theorem next?_cons (hanging : Hanging) (stack : List Hanging) :
    next? ⟨hanging :: stack⟩ = some (hanging.line, ⟨hanging.pushChildren stack⟩) := by
  rw [hanging.pushChildren_eq]
  rfl

/-- A step leaves fewer lines to come. -/
theorem length_remaining_lt_of_next? (stepped : cursor.next? = some (line, after)) :
    after.remaining.length < cursor.remaining.length := by
  rw [remaining_of_next? stepped, List.length_cons]
  exact Nat.lt_succ_self _

/-- The lines that are yielded by step after step until there is none. -/
def toList (cursor : LineCursor) : List String :=
  match _ : cursor.next? with
  | none => []
  | some (line, after) => line :: after.toList
termination_by cursor.remaining.length
decreasing_by exact length_remaining_lt_of_next? ‹_›

/-- What is written when every line that a step yields is written with a line feed behind it, until
there is none. -/
def printed (cursor : LineCursor) : String :=
  match _ : cursor.next? with
  | none => ""
  | some (line, after) => line ++ "\n" ++ after.printed
termination_by cursor.remaining.length
decreasing_by exact length_remaining_lt_of_next? ‹_›

/-- Steps yield the lines that the stack stands for. -/
theorem toList_eq_remaining (cursor : LineCursor) : cursor.toList = cursor.remaining := by
  fun_induction toList cursor with
  | case1 cursor stopped => exact (next?_eq_none_iff.mp stopped).symm
  | case2 cursor line after stepped inductionHypothesis =>
      rw [inductionHypothesis, remaining_of_next? stepped]

/-- The lines that the stack stands for are written one after the other. -/
theorem printed_eq_join (cursor : LineCursor) :
    cursor.printed = String.join (cursor.remaining.map (· ++ "\n")) := by
  fun_induction printed cursor with
  | case1 cursor stopped => rw [next?_eq_none_iff.mp stopped]; rfl
  | case2 cursor line after stepped inductionHypothesis =>
      rw [inductionHypothesis, remaining_of_next? stepped, List.map_cons, String.join_cons]

end LineCursor

namespace ParseTree

/-- A subtree is drawn as the line of its root and the drawings of its children, from left to right
and below longer rails, of which the rightmost one is the last. -/
theorem draw_eq_cons_flatMap (tree : ParseTree) (rails : String) (isLast : Bool) :
    tree.draw rails isLast =
      (rails ++ branch isLast ++ tree.label) ::
        tree.children.zipIdx.flatMap fun child =>
          child.1.draw (rails ++ rail isLast) (child.2 + 1 = tree.children.length) := by
  cases tree <;> simp [draw, children, label]

/-- Going over a drawing comes to an end and yields the drawing in preorder: the line of a node,
behind which come the drawings of its children from left to right, below the rails that the node
draws past them, and of which exactly the rightmost one hangs from the last branch. A step takes a
node off a stack and pushes the children from the last one to the first. There is one line per node,
and any number of steps yields the first of these lines. What is printed is these lines with a line
feed behind each. -/
theorem lines_come_in_preorder (tree : ParseTree) :
    (∀ (node : ParseTree) (rails : String) (isLast : Bool), node.draw rails isLast =
      (rails ++ (if isLast then "└── " else "├── ") ++ node.label) ::
        node.children.zipIdx.flatMap fun child =>
          child.1.draw (rails ++ if isLast then "    " else "│   ")
            (child.2 + 1 = node.children.length)) ∧
    (∀ hanging stack, LineCursor.next? ⟨hanging :: stack⟩ =
      some (hanging.line, ⟨hanging.pushChildren stack⟩)) ∧
    tree.lineCursor.toList = tree.draw "" true ∧
    (tree.draw "" true).length = tree.size ∧
    (∀ count, tree.lineCursor.take count = (tree.draw "" true).take count) ∧
    tree.lineCursor.printed = tree.drawing ∧
    tree.drawing = String.join ((tree.draw "" true).map (· ++ "\n")) := by
  refine ⟨draw_eq_cons_flatMap, LineCursor.next?_cons, ?yielded, tree.length_draw "" true,
    fun count => ?started, ?printed, rfl⟩
  case yielded =>
    rw [LineCursor.toList_eq_remaining, LineCursor.remaining_lineCursor, lines]
  case started =>
    rw [LineCursor.take_eq, LineCursor.remaining_lineCursor, lines]
  case printed =>
    rw [LineCursor.printed_eq_join, LineCursor.remaining_lineCursor, drawing]

end ParseTree

end Chomsky
