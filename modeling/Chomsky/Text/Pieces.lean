/-!
# Pieces between separators

Cutting a list at every occurrence of one element leaves one piece more than
there are occurrences, so adjacent separators and separators at the ends leave
empty pieces behind.
-/

namespace Chomsky

universe u

/-- The pieces of a list between the occurrences of `separator`, in order. -/
def pieces {α : Type u} [DecidableEq α] (separator : α) : List α → List (List α)
  | [] => [[]]
  | element :: rest =>
      if element = separator then
        [] :: pieces separator rest
      else
        match pieces separator rest with
        | [] => [[element]]
        | piece :: others => (element :: piece) :: others

section

variable {α : Type u} [DecidableEq α] {separator : α}

@[simp] theorem pieces_nil : pieces separator [] = [[]] := rfl

@[simp] theorem pieces_separator_cons (rest : List α) :
    pieces separator (separator :: rest) = [] :: pieces separator rest := by
  simp [pieces]

/-- There is always a piece, if only the empty one. -/
theorem pieces_ne_nil (list : List α) : pieces separator list ≠ [] := by
  cases list with
  | nil => simp
  | cons element rest =>
      rw [pieces]
      split
      · simp
      · split <;> simp

/-- No piece holds the separator. -/
theorem separator_notMem_of_mem_pieces {list piece : List α}
    (member : piece ∈ pieces separator list) : separator ∉ piece := by
  induction list generalizing piece with
  | nil =>
      have empty : piece = [] := by simpa using member
      simp [empty]
  | cons element rest inductionHypothesis =>
      by_cases same : element = separator
      · subst same
        rw [pieces_separator_cons] at member
        rcases List.mem_cons.mp member with rfl | later
        · simp
        · exact inductionHypothesis later
      · rw [pieces, if_neg same] at member
        cases shape : pieces separator rest with
        | nil => exact absurd shape (pieces_ne_nil rest)
        | cons first others =>
            rw [shape] at member
            have firstFree : separator ∉ first :=
              inductionHypothesis (by simp [shape])
            rcases List.mem_cons.mp member with rfl | later
            · simp [firstFree, Ne.symm same]
            · exact inductionHypothesis (by simp [shape, later])

end

end Chomsky
