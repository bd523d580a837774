/-!
# Tables over spans

A span of an input is given by its start and its width. A span table holds one
value for every span with at least one element, computed in the order of width
from the values of shorter spans. The main statement is that the finished table
satisfies the equation it was filled by.
-/

namespace Chomsky

universe u

/-- One value for every span, in layers by width, of which layer zero is
empty. -/
structure SpanTable (α : Type u) where
  /-- The values of the spans of one width, by start. -/
  layers : Array (Array α)

namespace SpanTable

variable {α : Type u} [Inhabited α]

/-- The value of a span, or the default value outside the table. -/
def entry (table : SpanTable α) (start width : Nat) : α :=
  (table.layers.getD width #[]).getD start default

/-- The table of the spans of an input of `size` elements that are no wider
than the given width, where `value` computes a span's value from those of
shorter ones. -/
def upTo (size : Nat) (value : (Nat → Nat → α) → Nat → Nat → α) : Nat → SpanTable α
  | 0 => ⟨#[#[]]⟩
  | width + 1 =>
      let shorter := upTo size value width
      ⟨shorter.layers.push
        (Array.ofFn fun start : Fin (size - width) =>
          value shorter.entry start (width + 1))⟩

/-- The table of all spans of an input of `size` elements. -/
def fill (size : Nat) (value : (Nat → Nat → α) → Nat → Nat → α) : SpanTable α :=
  upTo size value size

variable {size : Nat} {value : (Nat → Nat → α) → Nat → Nat → α}

/-- There is a layer for every width so far, and one for width zero. -/
theorem size_layers_upTo (width : Nat) :
    (upTo size value width).layers.size = width + 1 := by
  induction width with
  | zero => rfl
  | succ width inductionHypothesis => simp [upTo, inductionHypothesis]

/-- Wider layers leave the narrower ones alone. -/
theorem entry_upTo_succ_of_le {start width bound : Nat} (within : width ≤ bound) :
    (upTo size value (bound + 1)).entry start width =
      (upTo size value bound).entry start width := by
  have inside : width < (upTo size value bound).layers.size := by
    rw [size_layers_upTo]
    omega
  have different : width ≠ (upTo size value bound).layers.size := Nat.ne_of_lt inside
  simp [entry, upTo, Array.getD_eq_getD_getElem?, Array.getElem?_push, different]

/-- A layer stays as it is once it has been filled. -/
theorem entry_upTo_of_le {start width bound : Nat} (within : width ≤ bound) :
    (upTo size value bound).entry start width =
      (upTo size value width).entry start width := by
  induction bound with
  | zero =>
      have zero : width = 0 := by omega
      rw [zero]
  | succ bound inductionHypothesis =>
      by_cases last : width = bound + 1
      · rw [last]
      · have earlier : width ≤ bound := by omega
        rw [entry_upTo_succ_of_le earlier, inductionHypothesis earlier]

/-- The last layer holds what `value` computes from the narrower ones. -/
theorem entry_upTo_succ_self {start width : Nat} (within : start + width < size) :
    (upTo size value (width + 1)).entry start (width + 1) =
      value (upTo size value width).entry start (width + 1) := by
  have inside : start < size - width := by omega
  have last : width + 1 = (upTo size value width).layers.size := by
    rw [size_layers_upTo]
  simp [entry, upTo, Array.getD_eq_getD_getElem?, last, inside]

/-- A span without elements has no value of its own. -/
theorem entry_upTo_zero (start bound : Nat) :
    (upTo size value bound).entry start 0 = default := by
  rw [entry_upTo_of_le (Nat.zero_le bound)]
  simp [entry, upTo]

/-- When `value` looks at nothing but shorter spans, the finished table
satisfies its equation at every span of the input. -/
theorem entry_fill
    (local_value : ∀ {first second : Nat → Nat → α} {start width : Nat},
      (∀ {otherStart otherWidth : Nat}, otherWidth < width →
        first otherStart otherWidth = second otherStart otherWidth) →
      value first start width = value second start width)
    {start width : Nat} (positive : 0 < width) (within : start + width ≤ size) :
    (fill size value).entry start width = value (fill size value).entry start width := by
  obtain ⟨narrower, rfl⟩ : ∃ narrower, width = narrower + 1 :=
    ⟨width - 1, by omega⟩
  have widthBound : narrower + 1 ≤ size := by omega
  unfold fill
  rw [entry_upTo_of_le widthBound, entry_upTo_succ_self (by omega)]
  refine local_value fun {otherStart otherWidth} shorter => ?_
  have otherBound : otherWidth ≤ size := by omega
  rw [entry_upTo_of_le otherBound, entry_upTo_of_le (Nat.lt_succ_iff.mp shorter)]

end SpanTable

end Chomsky
