import Mathlib.Data.List.Basic
import Mathlib.Logic.Function.Iterate
import Chomsky.Proofs.Derivation.Height
import Chomsky.Sampling.Heights

/-!
# The passes find all least heights

After some number of passes the heights up to that number are known, and they
are right (`Heights.exactUpTo_iterate`). Since no least height is greater than
the number of rules, the passes of `Grammar.leastHeights` find them all.
-/

namespace Chomsky

/-- Looking a symbol up in what its rule contributes is looking its rule up. -/
theorem lookup_filterMap_rules {β : Type} (value? : List Alternative → Option β)
    (symbol : String) {rules : List Rule} (distinct : (rules.map Rule.symbol).Nodup) :
    (rules.filterMap fun rule =>
        (value? rule.alternatives).map fun value => (rule.symbol, value)).lookup symbol =
      ((rules.find? (·.symbol = symbol)).map Rule.alternatives).bind value? := by
  induction rules with
  | nil => rfl
  | cons rule rest inductionHypothesis =>
      rw [List.map_cons, List.nodup_cons] at distinct
      have later := inductionHypothesis distinct.2
      by_cases here : rule.symbol = symbol
      · rw [find?_rules_eq_none (here ▸ distinct.1)] at later
        cases value : value? rule.alternatives with
        | none => simpa [here, value] using later
        | some found => simp [here, value]
      · have different : (symbol == rule.symbol) = false := by
          simpa using Ne.symm here
        cases value : value? rule.alternatives with
        | none => simpa [here, value] using later
        | some found => simpa [here, value, List.lookup_cons, different] using later

namespace Heights

variable {grammar : Grammar} {known : Heights} {bound height : Nat} {symbol : String}
  {alternative : Alternative} {alternatives : List Alternative}

/-- The known heights are the least heights of symbols that are no greater than
the bound. -/
def ExactUpTo (grammar : Grammar) (bound : Nat) (known : Heights) : Prop :=
  ∀ symbol height, known.lookup symbol = some height ↔
    grammar.LeastHeight symbol height ∧ height ≤ bound

/-- An alternative has the height that it offers as soon as the heights below it
are known. -/
theorem ofAlternative?_eq_some_iff (exact : known.ExactUpTo grammar bound) :
    known.ofAlternative? alternative = some height ↔
      grammar.Offers alternative height ∧ height ≤ bound + 1 := by
  constructor
  · intro offered
    cases alternative with
    | terminal character =>
        cases offered
        exact ⟨.terminal character, Nat.le_add_left 1 bound⟩
    | pair left right =>
        simp only [ofAlternative?] at offered
        split at offered
        · next leftHeight rightHeight leftFound rightFound =>
            obtain ⟨leftLeast, leftBound⟩ := (exact _ _).mp leftFound
            obtain ⟨rightLeast, rightBound⟩ := (exact _ _).mp rightFound
            cases offered
            exact ⟨.pair leftLeast rightLeast, by omega⟩
        · cases offered
    | unsupported text => cases offered
  · rintro ⟨offer, within⟩
    cases offer with
    | terminal character => rfl
    | pair leftLeast rightLeast =>
        simp only [ofAlternative?, (exact _ _).mpr ⟨leftLeast, by omega⟩,
          (exact _ _).mpr ⟨rightLeast, by omega⟩]

/-- The least height of alternatives is had by one of them and exceeded by none. -/
theorem least?_eq_some_iff :
    known.least? alternatives = some height ↔
      (∃ alternative ∈ alternatives, known.ofAlternative? alternative = some height) ∧
        ∀ alternative ∈ alternatives, ∀ other,
          known.ofAlternative? alternative = some other → height ≤ other := by
  rw [least?, List.min?_eq_some_iff, List.mem_filterMap]
  apply and_congr_right
  intro _
  constructor
  · intro least alternative member other otherEq
    exact least other (List.mem_filterMap.mpr ⟨alternative, member, otherEq⟩)
  · intro least other otherMember
    obtain ⟨alternative, member, otherEq⟩ := List.mem_filterMap.mp otherMember
    exact least alternative member other otherEq

/-- A pass finds for a symbol the least height of its alternatives. -/
theorem lookup_pass (grammar : Grammar) (known : Heights) (symbol : String) :
    (pass grammar known).lookup symbol =
      (grammar.alternatives? symbol).bind known.least? :=
  lookup_filterMap_rules known.least? symbol grammar.distinct

/-- A pass finds a height for a symbol exactly when its alternatives have one. -/
theorem lookup_pass_eq_some_iff :
    (pass grammar known).lookup symbol = some height ↔
      known.least? (grammar.alternatives symbol) = some height := by
  rw [lookup_pass, Grammar.alternatives]
  cases grammar.alternatives? symbol with
  | none => simp [least?]
  | some alternatives => rfl

/-- Nothing is known at first, and no least height is zero. -/
theorem exactUpTo_nil (grammar : Grammar) : ExactUpTo grammar 0 [] := by
  intro symbol height
  constructor
  · rintro ⟨⟩
  · rintro ⟨least, zero⟩
    exact absurd least.pos (Nat.not_lt_of_le zero)

/-- A pass moves the bound up by one. -/
theorem ExactUpTo.pass (exact : known.ExactUpTo grammar bound) :
    (pass grammar known).ExactUpTo grammar (bound + 1) := by
  intro symbol height
  rw [lookup_pass_eq_some_iff, least?_eq_some_iff, Grammar.leastHeight_iff]
  simp only [ofAlternative?_eq_some_iff exact]
  constructor
  · rintro ⟨⟨alternative, member, offer, within⟩, least⟩
    refine ⟨⟨⟨alternative, member, offer⟩, ?_⟩, within⟩
    intro other otherMember offered otherOffer
    by_cases otherWithin : offered ≤ bound + 1
    · exact least other otherMember offered ⟨otherOffer, otherWithin⟩
    · omega
  · rintro ⟨⟨⟨alternative, member, offer⟩, least⟩, within⟩
    exact ⟨⟨alternative, member, offer, within⟩,
      fun other otherMember offered otherOffer =>
        least other otherMember offered otherOffer.1⟩

/-- So many passes know the heights up to their number. -/
theorem exactUpTo_iterate (grammar : Grammar) (passes : Nat) :
    ExactUpTo grammar passes ((Heights.pass grammar)^[passes] []) := by
  induction passes with
  | zero => exact exactUpTo_nil grammar
  | succ passes inductionHypothesis =>
      rw [Function.iterate_succ_apply']
      exact inductionHypothesis.pass

/-- Stopping at a pass that finds nothing new leaves out nothing. -/
theorem settle_eq_iterate (grammar : Grammar) (passes : Nat) (known : Heights) :
    settle grammar passes known = (Heights.pass grammar)^[passes] known := by
  induction passes generalizing known with
  | zero => rfl
  | succ passes inductionHypothesis =>
      rw [settle]
      split
      · next settled => rw [Function.iterate_fixed settled]
      · rw [inductionHypothesis, Function.iterate_succ_apply]

end Heights

namespace Grammar

variable {grammar : Grammar} {symbol : String} {alternative : Alternative} {height : Nat}

/-- All passes together find the least heights that there are. -/
theorem lookup_leastHeights_iff :
    grammar.leastHeights.lookup symbol = some height ↔ grammar.LeastHeight symbol height := by
  rw [leastHeights, Heights.settle_eq_iterate, Heights.exactUpTo_iterate]
  exact ⟨And.left, fun least => ⟨least, least.le_length⟩⟩

/-- The least heights are exact up to any bound that no rule exceeds. -/
theorem exactUpTo_leastHeights {bound : Nat} (enough : grammar.rules.length ≤ bound) :
    grammar.leastHeights.ExactUpTo grammar bound := by
  intro symbol height
  rw [lookup_leastHeights_iff]
  exact ⟨fun least => ⟨least, Nat.le_trans least.le_length enough⟩, And.left⟩

/-- The heights of alternatives are what they offer. -/
theorem ofAlternative?_leastHeights_iff :
    grammar.leastHeights.ofAlternative? alternative = some height ↔
      grammar.Offers alternative height := by
  rw [Heights.ofAlternative?_eq_some_iff
    (exactUpTo_leastHeights (Nat.le_max_left grammar.rules.length height))]
  have within : height ≤ max grammar.rules.length height + 1 := by omega
  exact and_iff_left within

/-- The least height of a symbol's alternatives is the symbol's own. -/
theorem least?_leastHeights_iff :
    grammar.leastHeights.least? (grammar.alternatives symbol) = some height ↔
      grammar.LeastHeight symbol height := by
  rw [Heights.least?_eq_some_iff, leastHeight_iff]
  simp only [ofAlternative?_leastHeights_iff]

end Grammar

end Chomsky
