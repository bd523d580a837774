import Chomsky.Derivation.Tree

/-!
# Drawing trees

A tree is drawn with one line per node, each node above its children. A line
starts with the rails of the node's ancestors and the branch that leads to the
node. A line cursor produces the same lines one at a time.
-/

namespace Chomsky

/-- The branch that leads to a node, which depends on whether it is the last of
its parent's children. -/
def branch (isLast : Bool) : String :=
  if isLast then "└── " else "├── "

/-- The rail that a node draws past its descendants. -/
def rail (isLast : Bool) : String :=
  if isLast then "    " else "│   "

namespace ParseTree

/-- The lines of a tree below the given rails. -/
def draw (rails : String) (isLast : Bool) : ParseTree → List String
  | terminal character =>
      [rails ++ branch isLast ++ String.singleton character]
  | unary symbol child =>
      (rails ++ branch isLast ++ symbol) :: child.draw (rails ++ rail isLast) true
  | binary symbol left right =>
      (rails ++ branch isLast ++ symbol) ::
        (left.draw (rails ++ rail isLast) false ++ right.draw (rails ++ rail isLast) true)

/-- The lines of a whole tree, whose root has no sibling. -/
def lines (tree : ParseTree) : List String :=
  tree.draw "" true

/-- The drawing of a tree as a text. -/
def drawing (tree : ParseTree) : String :=
  String.join (tree.lines.map (· ++ "\n"))

/-- There is one line per node. -/
theorem length_draw (tree : ParseTree) (rails : String) (isLast : Bool) :
    (tree.draw rails isLast).length = tree.size := by
  induction tree generalizing rails isLast with
  | terminal character => rfl
  | unary symbol child inductionHypothesis => simp [draw, size, inductionHypothesis]
  | binary symbol left right leftHypothesis rightHypothesis =>
      simp [draw, size, leftHypothesis, rightHypothesis]

end ParseTree

/-- A subtree that is still to be drawn, and where it hangs. -/
structure Hanging where
  /-- The subtree. -/
  tree : ParseTree
  /-- The rails of its ancestors. -/
  rails : String
  /-- Whether it is the last of its parent's children. -/
  isLast : Bool
deriving DecidableEq, Repr

namespace Hanging

/-- The line of the subtree's root. -/
def line (hanging : Hanging) : String :=
  hanging.rails ++ branch hanging.isLast ++ hanging.tree.label

/-- The children of the subtree's root, hung below it. -/
def below (hanging : Hanging) : List Hanging :=
  let rails := hanging.rails ++ rail hanging.isLast
  match hanging.tree with
  | .terminal _ => []
  | .unary _ child => [⟨child, rails, true⟩]
  | .binary _ left right => [⟨left, rails, false⟩, ⟨right, rails, true⟩]

/-- All lines of the subtree. -/
def lines (hanging : Hanging) : List String :=
  hanging.tree.draw hanging.rails hanging.isLast

/-- A subtree is drawn as its root's line and then its children. -/
theorem lines_eq (hanging : Hanging) :
    hanging.lines = hanging.line :: hanging.below.flatMap lines := by
  obtain ⟨tree, rails, isLast⟩ := hanging
  cases tree <;> simp [lines, line, below, ParseTree.draw, ParseTree.label]

end Hanging

/-- A place between two lines of a drawing. -/
structure LineCursor where
  /-- The subtrees still to be drawn, in order. -/
  pending : List Hanging
deriving DecidableEq, Repr

/-- The place above the first line of a tree's drawing. -/
def ParseTree.lineCursor (tree : ParseTree) : LineCursor := ⟨[⟨tree, "", true⟩]⟩

namespace LineCursor

/-- The line after this place and the place after that line, if there is one. -/
def next? (cursor : LineCursor) : Option (String × LineCursor) :=
  match cursor.pending with
  | [] => none
  | hanging :: rest => some (hanging.line, ⟨hanging.below ++ rest⟩)

/-- The first lines after this place, as many as asked for while they last. -/
def take (cursor : LineCursor) : Nat → List String
  | 0 => []
  | count + 1 =>
      match cursor.next? with
      | none => []
      | some (line, after) => line :: after.take count

/-- The lines still to come. -/
def remaining (cursor : LineCursor) : List String :=
  cursor.pending.flatMap Hanging.lines

/-- Above the first line, all of them are still to come. -/
@[simp] theorem remaining_lineCursor (tree : ParseTree) :
    tree.lineCursor.remaining = tree.lines := by
  simp [ParseTree.lineCursor, remaining, Hanging.lines, ParseTree.lines]

/-- A step yields the first of the lines still to come and keeps the others. -/
theorem remaining_of_next? {cursor after : LineCursor} {line : String}
    (stepped : cursor.next? = some (line, after)) :
    cursor.remaining = line :: after.remaining := by
  obtain ⟨pending⟩ := cursor
  cases pending with
  | nil => simp [next?] at stepped
  | cons hanging rest =>
      simp only [next?, Option.some.injEq, Prod.mk.injEq] at stepped
      obtain ⟨rfl, rfl⟩ := stepped
      simp [remaining, hanging.lines_eq]

/-- There is no step exactly when no line is left. -/
theorem next?_eq_none_iff {cursor : LineCursor} :
    cursor.next? = none ↔ cursor.remaining = [] := by
  obtain ⟨pending⟩ := cursor
  cases pending with
  | nil => simp [next?, remaining]
  | cons hanging rest => simp [next?, remaining, hanging.lines_eq]

end LineCursor

end Chomsky
