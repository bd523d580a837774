import Mathlib.Data.List.Infix
import Chomsky.Text.Pieces

/-!
# What pieces are made of

Elements that are not separators belong to the piece that what follows them starts
with (`pieces_append_of_notMem`), from which a list is cut first at its first
separator. Every piece is a part of the list (`isInfix_of_mem_pieces`).
-/

namespace Chomsky

universe u

variable {α : Type u} [DecidableEq α] {separator : α} {list front piece : List α}
  {others : List (List α)}

/-- Elements other than the separator go to the first piece of what follows them. -/
theorem pieces_append_of_notMem (absent : separator ∉ front)
    (cut : pieces separator list = piece :: others) :
    pieces separator (front ++ list) = (front ++ piece) :: others := by
  induction front with
  | nil => exact cut
  | cons element front inductionHypothesis =>
      rw [List.mem_cons, not_or] at absent
      rw [List.cons_append, pieces, if_neg (Ne.symm absent.1), inductionHypothesis absent.2,
        List.cons_append]

/-- A list without separators is its only piece. -/
theorem pieces_of_notMem (absent : separator ∉ list) : pieces separator list = [list] := by
  have nothing : pieces separator [] = [[]] := rfl
  have whole := pieces_append_of_notMem absent nothing
  rwa [List.append_nil] at whole

/-- A list is cut first at the first separator. -/
theorem pieces_append_separator (absent : separator ∉ front) (after : List α) :
    pieces separator (front ++ separator :: after) = front :: pieces separator after := by
  have first := pieces_append_of_notMem absent (pieces_separator_cons after)
  rwa [List.append_nil] at first

/-- What stands in front of each separator is found again. -/
theorem pieces_flatMap_terminated {fronts : List (List α)}
    (absent : ∀ front ∈ fronts, separator ∉ front) :
    pieces separator (fronts.flatMap (· ++ [separator])) = fronts ++ [[]] := by
  induction fronts with
  | nil => rfl
  | cons front rest inductionHypothesis =>
      rw [List.forall_mem_cons] at absent
      rw [List.flatMap_cons, List.append_assoc, List.singleton_append,
        pieces_append_separator absent.1, inductionHypothesis absent.2, List.cons_append]

/-- A list may be cut at one of its separators first, and then on either side. -/
theorem pieces_append (before after : List α) :
    pieces separator (before ++ separator :: after) =
      pieces separator before ++ pieces separator after := by
  induction before with
  | nil => exact pieces_separator_cons after
  | cons element rest inductionHypothesis =>
      rw [List.cons_append, pieces, pieces, inductionHypothesis]
      split
      · rfl
      · cases shape : pieces separator rest with
        | nil => exact absurd shape (pieces_ne_nil rest)
        | cons piece others => rfl

/-- The last piece of a list is joined with the first piece of what follows it. -/
theorem exists_pieces_append (separator : α) (before : List α) :
    ∃ earlier last, pieces separator before = earlier ++ [last] ∧
      ∀ {after first later}, pieces separator after = first :: later →
        pieces separator (before ++ after) = earlier ++ (last ++ first) :: later := by
  induction before with
  | nil => exact ⟨[], [], rfl, fun cut => cut⟩
  | cons element rest inductionHypothesis =>
      obtain ⟨earlier, last, cutRest, joint⟩ := inductionHypothesis
      by_cases same : element = separator
      · subst same
        refine ⟨[] :: earlier, last, ?_, fun cut => ?_⟩
        · rw [pieces_separator_cons, cutRest, List.cons_append]
        · rw [List.cons_append, pieces_separator_cons, joint cut, List.cons_append]
      · -- The element goes to the first piece, which is also the last one if it is the only one.
        cases earlier with
        | nil =>
            refine ⟨[], element :: last, ?_, fun cut => ?_⟩
            · rw [pieces, if_neg same, cutRest]
              rfl
            · rw [List.cons_append, pieces, if_neg same, joint cut]
              rfl
        | cons piece earlier =>
            refine ⟨(element :: piece) :: earlier, last, ?_, fun cut => ?_⟩
            · rw [pieces, if_neg same, cutRest]
              rfl
            · rw [List.cons_append, pieces, if_neg same, joint cut]
              rfl

/-- The first piece of a list is what it starts with. -/
theorem isPrefix_of_pieces_eq_cons (cut : pieces separator list = piece :: others) :
    piece <+: list := by
  induction list generalizing piece others with
  | nil =>
      obtain ⟨rfl, _⟩ := List.cons.inj cut
      exact List.nil_prefix
  | cons element rest inductionHypothesis =>
      rw [pieces] at cut
      split at cut
      · obtain ⟨rfl, _⟩ := List.cons.inj cut
        exact List.nil_prefix
      · split at cut
        · next none => exact absurd none (pieces_ne_nil rest)
        · next next later shape =>
            obtain ⟨rfl, _⟩ := List.cons.inj cut
            exact (List.prefix_cons_inj element).mpr (inductionHypothesis shape)

/-- A piece after the first one is a piece of what follows the first element. -/
theorem mem_pieces_of_pieces_cons_eq_cons {element : α}
    (cut : pieces separator (element :: list) = piece :: others) {later : List α}
    (member : later ∈ others) : later ∈ pieces separator list := by
  rw [pieces] at cut
  split at cut
  · exact (List.cons.inj cut).2 ▸ member
  · split at cut
    · next none => exact absurd none (pieces_ne_nil list)
    · next first rest shape =>
        rw [shape, (List.cons.inj cut).2]
        exact List.mem_cons_of_mem first member

/-- A piece of a list is a part of it. -/
theorem isInfix_of_mem_pieces (member : piece ∈ pieces separator list) : piece <:+: list := by
  induction list with
  | nil => exact List.mem_singleton.mp member ▸ List.infix_refl []
  | cons element rest inductionHypothesis =>
      have nonempty : pieces separator (element :: rest) ≠ [] := pieces_ne_nil _
      obtain ⟨first, others, cut⟩ := List.exists_cons_of_ne_nil nonempty
      rw [cut] at member
      rcases List.mem_cons.mp member with rfl | later
      · exact (isPrefix_of_pieces_eq_cons cut).isInfix
      · have inRest := inductionHypothesis (mem_pieces_of_pieces_cons_eq_cons cut later)
        exact inRest.trans (List.suffix_cons element rest).isInfix

end Chomsky
