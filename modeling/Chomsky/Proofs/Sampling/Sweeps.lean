import Mathlib.Data.DFinsupp.WellFounded
import Mathlib.Data.ENat.Basic
import Chomsky.Proofs.Grammar.Agreement
import Chomsky.Proofs.Sampling.Heights

/-!
# Finding heights in place

Least heights can also be found by sweeps over the rules that put each height to use
as soon as it is found, until a sweep changes nothing. On the way a symbol may be
given a height that is too great and is lowered by a later sweep, and which ones are
depends on the order of the rules. Three facts settle where this leads: a sweep that
changes anything lowers some height and raises none (`sweep_lowers`), so there is a
last one; every height that is found is that of a tree (`Attained`); and nothing is
left to lower only when every tree is at least as high as is known of its symbol
(`Settled.bound_le_height`). Sweeps and passes therefore find the same heights
(`Grammar.lookup_sweptHeights`).
-/

namespace Chomsky

namespace Heights

/-- What is known after a rule was looked at, if this lowers the height of its symbol
or gives it one. The new entry stands in front of an older one and hides it. -/
def improve? (known : Heights) (rule : Rule) : Option Heights :=
  match known.least? rule.alternatives with
  | none => none
  | some height =>
      if (known.lookup rule.symbol).all (height < ·) then some ((rule.symbol, height) :: known)
      else none

/-- What is known after a look at each of the rules in turn, and whether that is
anything new. -/
def sweep : List Rule → Heights → Heights × Bool
  | [], known => (known, false)
  | rule :: rest, known =>
      match known.improve? rule with
      | none => sweep rest known
      | some improved => ((sweep rest improved).1, true)

/-- The height known of a symbol; without one, the symbol might have no tree. -/
def bound (known : Heights) (symbol : String) : ℕ∞ :=
  match known.lookup symbol with
  | none => ⊤
  | some height => height

/-- A symbol has a known height when it has a finite bound. -/
theorem bound_le_iff {known : Heights} {symbol : String} {limit : Nat} :
    known.bound symbol ≤ limit ↔ ∃ height, known.lookup symbol = some height ∧ height ≤ limit := by
  rw [bound]
  cases known.lookup symbol <;> simp

variable {grammar : Grammar} {known improved after : Heights} {rules : List Rule} {rule : Rule}
  {symbol : String} {height : Nat}

/-- A rule makes a difference with a height that its alternatives offer and that is
lower than what is known. -/
theorem improve?_eq_some_iff :
    known.improve? rule = some improved ↔
      ∃ height, known.least? rule.alternatives = some height ∧
        height < known.bound rule.symbol ∧ improved = (rule.symbol, height) :: known := by
  rw [improve?, bound]
  cases known.least? rule.alternatives with
  | none => simp
  | some height => cases known.lookup rule.symbol <;> simp [eq_comm]

/-- A rule makes no difference when what is known of its symbol is no greater than what
any of its alternatives offers. -/
theorem bound_le_of_improve?_eq_none (unimproved : known.improve? rule = none)
    (least : known.least? rule.alternatives = some height) : known.bound rule.symbol ≤ height := by
  by_contra greater
  have improves := improve?_eq_some_iff.mpr ⟨height, least, not_le.mp greater, rfl⟩
  rw [unimproved] at improves
  cases improves

/-- Then none of its alternatives offers less than is known of its symbol. -/
theorem bound_le_offered_of_improve?_eq_none {alternative : Alternative}
    (unimproved : known.improve? rule = none) (inside : alternative ∈ rule.alternatives)
    (offered : known.ofAlternative? alternative = some height) :
    known.bound rule.symbol ≤ height := by
  cases least : known.least? rule.alternatives with
  | none =>
      rw [least?, List.min?_eq_none_iff, List.filterMap_eq_nil_iff] at least
      rw [least alternative inside] at offered
      cases offered
  | some lowest =>
      have lower := (least?_eq_some_iff.mp least).2 alternative inside height offered
      exact (bound_le_of_improve?_eq_none unimproved least).trans (Nat.cast_le.mpr lower)

/-- The bound of a symbol is that of a new entry if it is an entry of the symbol. -/
theorem bound_cons (known : Heights) (entry : String × Nat) (symbol : String) :
    bound (entry :: known) symbol =
      if symbol = entry.1 then (entry.2 : ℕ∞) else known.bound symbol := by
  rw [bound, List.lookup_cons]
  by_cases same : symbol = entry.1
  · simp [same]
  · simp [same, bound, beq_false_of_ne same]

/-- When a rule makes a difference, none of its alternatives offered less than is known
of its symbol then. -/
theorem bound_le_offered_of_improve? {alternative : Alternative}
    (improves : known.improve? rule = some improved) (inside : alternative ∈ rule.alternatives)
    (offered : known.ofAlternative? alternative = some height) :
    improved.bound rule.symbol ≤ height := by
  obtain ⟨lowest, least, _, rfl⟩ := improve?_eq_some_iff.mp improves
  simpa [bound_cons] using (least?_eq_some_iff.mp least).2 alternative inside height offered

/-- A rule raises no height. -/
theorem bound_improve?_le (improves : known.improve? rule = some improved) (symbol : String) :
    improved.bound symbol ≤ known.bound symbol := by
  obtain ⟨height, _, lower, rfl⟩ := improve?_eq_some_iff.mp improves
  rw [bound_cons]
  split
  · next same => exact same ▸ lower.le
  · exact le_rfl

/-- No sweep raises a height. -/
theorem bound_sweep_le (rules : List Rule) (known : Heights) (symbol : String) :
    (sweep rules known).1.bound symbol ≤ known.bound symbol := by
  induction rules generalizing known with
  | nil => exact le_rfl
  | cons rule rest inductionHypothesis =>
      rw [sweep]
      cases improves : known.improve? rule with
      | none => exact inductionHypothesis known
      | some improved =>
          exact (inductionHypothesis improved).trans (bound_improve?_le improves symbol)

/-- A sweep that changes anything lowers the height of some rule's symbol. -/
theorem sweep_lowers (changed : sweep rules known = (after, true)) :
    ∃ rule ∈ rules, after.bound rule.symbol < known.bound rule.symbol := by
  induction rules with
  | nil => cases changed
  | cons rule rest inductionHypothesis =>
      rw [sweep] at changed
      cases improves : known.improve? rule with
      | none =>
          rw [improves] at changed
          obtain ⟨other, member, lower⟩ := inductionHypothesis changed
          exact ⟨other, List.mem_cons_of_mem rule member, lower⟩
      | some improved =>
          rw [improves] at changed
          obtain ⟨rfl, _⟩ := Prod.mk.inj changed
          refine ⟨rule, List.mem_cons_self, (bound_sweep_le rest improved rule.symbol).trans_lt ?_⟩
          obtain ⟨height, _, lower, rfl⟩ := improve?_eq_some_iff.mp improves
          rw [bound_cons, if_pos rfl]
          exact lower

/-- The heights known of the symbols of all rules. -/
def bounds (grammar : Grammar) (known : Heights) (index : Fin grammar.rules.length) : ℕ∞ :=
  known.bound grammar.rules[index].symbol

/-- All heights together get lower with a sweep that changes anything. -/
theorem bounds_lt_of_sweep (changed : sweep grammar.rules known = (after, true)) :
    bounds grammar after < bounds grammar known := by
  rw [Pi.lt_def]
  constructor
  · intro index
    have lower := bound_sweep_le grammar.rules known grammar.rules[index].symbol
    rwa [changed] at lower
  · obtain ⟨rule, member, lower⟩ := sweep_lowers changed
    obtain ⟨index, inside, rfl⟩ := List.mem_iff_getElem.mp member
    exact ⟨⟨index, inside⟩, lower⟩

/-- Sweeps until one of them changes nothing. -/
def settleInPlace (grammar : Grammar) (known : Heights) : Heights :=
  match _ : sweep grammar.rules known with
  | (after, true) => settleInPlace grammar after
  | (after, false) => after
-- One number is no measure: a symbol without a height counts more than any height.
termination_by wellFounded_lt.wrap (bounds grammar known)
decreasing_by exact bounds_lt_of_sweep ‹_›

/-- Every known height is that of a tree. -/
def Attained (grammar : Grammar) (known : Heights) : Prop :=
  ∀ symbol height, known.lookup symbol = some height →
    ∃ tree : ParseTree, tree.ValidFor grammar symbol ∧ tree.height = height

/-- No rule makes a difference any more. -/
def Settled (grammar : Grammar) (known : Heights) : Prop :=
  ∀ rule ∈ grammar.rules, known.improve? rule = none

/-- What an alternative offers is the height of a tree when known heights are. -/
theorem Attained.exists_tree {alternative : Alternative} (attained : known.Attained grammar)
    (member : alternative ∈ grammar.alternatives symbol)
    (offered : known.ofAlternative? alternative = some height) :
    ∃ tree : ParseTree, tree.ValidFor grammar symbol ∧ tree.height = height := by
  cases alternative with
  | terminal character =>
      cases offered
      exact ⟨_, .unary member, rfl⟩
  | pair left right =>
      simp only [ofAlternative?] at offered
      split at offered
      · next leftFound rightFound =>
          obtain ⟨leftTree, leftValid, rfl⟩ := attained _ _ leftFound
          obtain ⟨rightTree, rightValid, rfl⟩ := attained _ _ rightFound
          cases offered
          exact ⟨_, .binary member leftValid rightValid, rfl⟩
      · cases offered
  | unsupported text => cases offered

/-- A rule of the grammar adds nothing but the height of a tree. -/
theorem Attained.improve? (attained : known.Attained grammar) (member : rule ∈ grammar.rules)
    (improves : known.improve? rule = some improved) : improved.Attained grammar := by
  obtain ⟨height, least, _, rfl⟩ := improve?_eq_some_iff.mp improves
  obtain ⟨⟨alternative, offering, offered⟩, _⟩ := least?_eq_some_iff.mp least
  intro symbol other found
  rw [List.lookup_cons] at found
  by_cases same : symbol = rule.symbol
  · subst same
    rw [beq_self_eq_true] at found
    cases found
    exact attained.exists_tree (Grammar.mem_alternatives_iff.mpr ⟨rule, member, rfl, offering⟩)
      offered
  · rw [beq_false_of_ne same] at found
    exact attained symbol other found

/-- Nor does a sweep over rules of the grammar. -/
theorem Attained.sweep (attained : known.Attained grammar)
    (members : ∀ rule ∈ rules, rule ∈ grammar.rules) : (sweep rules known).1.Attained grammar := by
  induction rules generalizing known with
  | nil => exact attained
  | cons rule rest inductionHypothesis =>
      rw [List.forall_mem_cons] at members
      rw [Heights.sweep]
      cases improves : known.improve? rule with
      | none => exact inductionHypothesis attained members.2
      | some improved =>
          exact inductionHypothesis (attained.improve? members.1 improves) members.2

/-- When a sweep changes nothing, no rule that it looked at makes a difference. -/
theorem eq_of_sweep_unchanged (unchanged : sweep rules known = (after, false)) :
    after = known ∧ ∀ rule ∈ rules, known.improve? rule = none := by
  induction rules with
  | nil =>
      cases unchanged
      exact ⟨rfl, List.forall_mem_nil _⟩
  | cons rule rest inductionHypothesis =>
      rw [sweep] at unchanged
      cases improves : known.improve? rule with
      | none =>
          rw [improves] at unchanged
          obtain ⟨same, later⟩ := inductionHypothesis unchanged
          exact ⟨same, List.forall_mem_cons.mpr ⟨improves, later⟩⟩
      | some improved =>
          rw [improves] at unchanged
          cases unchanged

/-- Sweeps end with heights of trees that no rule lowers. -/
theorem settleInPlace_spec (attained : known.Attained grammar) :
    (settleInPlace grammar known).Attained grammar ∧
      (settleInPlace grammar known).Settled grammar := by
  induction known using settleInPlace.induct grammar with
  | case1 known after changed inductionHypothesis =>
      have still : (sweep grammar.rules known).1.Attained grammar :=
        attained.sweep fun _ member => member
      rw [changed] at still
      rw [settleInPlace, changed]
      exact inductionHypothesis still
  | case2 known after unchanged =>
      obtain ⟨rfl, settled⟩ := eq_of_sweep_unchanged unchanged
      rw [settleInPlace, unchanged]
      exact ⟨attained, settled⟩

/-- When no rule makes a difference, no alternative offers less than is known of its
symbol. -/
theorem Settled.bound_le_offered {alternative : Alternative} (settled : known.Settled grammar)
    (member : alternative ∈ grammar.alternatives symbol)
    (offered : known.ofAlternative? alternative = some height) : known.bound symbol ≤ height := by
  obtain ⟨rule, ruleMember, rfl, inside⟩ := Grammar.mem_alternatives_iff.mp member
  exact bound_le_offered_of_improve?_eq_none (settled rule ruleMember) inside offered

/-- When no rule makes a difference, every tree is at least as high as is known of its
symbol. -/
theorem Settled.bound_le_height {tree : ParseTree} (settled : known.Settled grammar)
    (valid : tree.ValidFor grammar symbol) : known.bound symbol ≤ tree.height := by
  induction valid with
  | unary alternative => exact settled.bound_le_offered alternative rfl
  | @binary symbol first second left right alternative _ _ leftHypothesis rightHypothesis =>
      obtain ⟨leftHeight, leftFound, leftLower⟩ := bound_le_iff.mp leftHypothesis
      obtain ⟨rightHeight, rightFound, rightLower⟩ := bound_le_iff.mp rightHypothesis
      have offered : known.ofAlternative? (.pair first second) =
          some (max leftHeight rightHeight + 1) := by
        simp only [ofAlternative?, leftFound, rightFound]
      refine (settled.bound_le_offered alternative offered).trans (Nat.cast_le.mpr ?_)
      rw [ParseTree.height]
      omega

end Heights

namespace Grammar

/-- The heights that sweeps in place find. -/
def sweptHeights (grammar : Grammar) : Heights :=
  Heights.settleInPlace grammar []

/-- Sweeps in place find the same heights as passes. -/
theorem lookup_sweptHeights (grammar : Grammar) (symbol : String) :
    grammar.sweptHeights.lookup symbol = grammar.leastHeights.lookup symbol := by
  have nothing : Heights.Attained grammar [] := by
    intro symbol height found
    cases found
  obtain ⟨attained, settled⟩ := Heights.settleInPlace_spec nothing
  apply Option.ext
  intro height
  rw [lookup_leastHeights_iff]
  constructor
  · intro found
    refine ⟨attained symbol height found, fun tree valid => ?_⟩
    obtain ⟨known, knownFound, lower⟩ := Heights.bound_le_iff.mp (settled.bound_le_height valid)
    obtain rfl := Option.some.inj (found.symm.trans knownFound)
    exact lower
  · rintro ⟨⟨tree, valid, rfl⟩, least⟩
    obtain ⟨known, found, lower⟩ := Heights.bound_le_iff.mp (settled.bound_le_height valid)
    obtain ⟨other, otherValid, rfl⟩ := attained symbol known found
    rw [Nat.le_antisymm (least other otherValid) lower]
    exact found

end Grammar

end Chomsky
