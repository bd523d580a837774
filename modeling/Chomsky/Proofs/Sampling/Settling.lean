import Chomsky.Proofs.Sampling.Agreement

/-!
# When sweeps in place come to an end

`Heights.Settles` makes the sweeps of `Heights.settleInPlace` visible one by one, so that
they can be counted. Each sweep knows at least as much as a pass would: after so many
sweeps no tree of at most that height is lower than what is known of its symbol
(`Heights.Reaches`). Hence the sweep after the last one that the number of rules allows
for changes nothing, and what is known then are the least heights of trees.
-/

namespace Chomsky

namespace Heights

/-- So many sweeps are made one after the other, and the last of them is the first that
changes nothing. -/
inductive Settles (grammar : Grammar) : (sweeps : Nat) → Heights → Heights → Prop where
  | still {known after} (unchanged : sweep grammar.rules known = (after, false)) :
      Settles grammar 1 known after
  | again {sweeps known between after}
      (changed : sweep grammar.rules known = (between, true))
      (rest : Settles grammar sweeps between after) :
      Settles grammar (sweeps + 1) known after

/-- No tree of at most this height is lower than what is known of its symbol. -/
def Reaches (grammar : Grammar) (limit : Nat) (known : Heights) : Prop :=
  ∀ symbol (tree : ParseTree), tree.ValidFor grammar symbol → tree.height ≤ limit →
    known.bound symbol ≤ tree.height

variable {grammar : Grammar} {known lower : Heights} {rules : List Rule} {rule : Rule}
  {alternative : Alternative} {limit height : Nat}

/-- An alternative offers no more when heights are lowered. -/
theorem exists_offer_of_bound_le (lowered : ∀ symbol, lower.bound symbol ≤ known.bound symbol)
    (offered : known.ofAlternative? alternative = some height) :
    ∃ less ≤ height, lower.ofAlternative? alternative = some less := by
  cases alternative with
  | terminal character =>
      cases offered
      exact ⟨1, Nat.le_refl 1, rfl⟩
  | pair left right =>
      simp only [ofAlternative?] at offered
      split at offered
      · next leftHeight rightHeight leftFound rightFound =>
          obtain ⟨leftLess, leftLower, leftBound⟩ := bound_le_iff.mp
            ((lowered _).trans (bound_le_iff.mpr ⟨leftHeight, leftFound, Nat.le_refl _⟩))
          obtain ⟨rightLess, rightLower, rightBound⟩ := bound_le_iff.mp
            ((lowered _).trans (bound_le_iff.mpr ⟨rightHeight, rightFound, Nat.le_refl _⟩))
          cases offered
          exact ⟨max leftLess rightLess + 1, by omega,
            by simp only [ofAlternative?, leftLower, rightLower]⟩
      · cases offered
  | unsupported text => cases offered

/-- After a sweep, no alternative of a rule offered less before it than is known of the
rule's symbol. -/
theorem bound_sweep_le_offered (member : rule ∈ rules) (inside : alternative ∈ rule.alternatives)
    (offered : known.ofAlternative? alternative = some height) :
    (sweep rules known).1.bound rule.symbol ≤ height := by
  induction rules generalizing known height with
  | nil => cases member
  | cons first rest inductionHypothesis =>
      rw [sweep]
      cases improves : known.improve? first with
      | none =>
          rcases List.mem_cons.mp member with rfl | later
          · exact (bound_sweep_le rest known rule.symbol).trans
              (bound_le_offered_of_improve?_eq_none improves inside offered)
          · exact inductionHypothesis later offered
      | some improved =>
          rcases List.mem_cons.mp member with rfl | later
          · exact (bound_sweep_le rest improved rule.symbol).trans
              (bound_le_offered_of_improve? improves inside offered)
          · obtain ⟨less, lessEq, offers⟩ :=
              exists_offer_of_bound_le (bound_improve?_le improves) offered
            exact (inductionHypothesis later offers).trans (Nat.cast_le.mpr lessEq)

/-- Nothing has to be known of trees that are not there. -/
theorem reaches_zero (grammar : Grammar) (known : Heights) : known.Reaches grammar 0 := by
  intro symbol tree valid low
  cases valid <;> simp [ParseTree.height] at low

/-- A sweep takes the limit one level up. -/
theorem Reaches.sweep (reaches : known.Reaches grammar limit) :
    (Heights.sweep grammar.rules known).1.Reaches grammar (limit + 1) := by
  intro symbol tree valid low
  cases valid with
  | @unary _ character alternative =>
      obtain ⟨rule, member, rfl, inside⟩ := Grammar.mem_alternatives_iff.mp alternative
      exact bound_sweep_le_offered member inside rfl
  | @binary _ first second left right alternative leftValid rightValid =>
      obtain ⟨rule, member, rfl, inside⟩ := Grammar.mem_alternatives_iff.mp alternative
      rw [ParseTree.height] at low
      obtain ⟨leftHeight, leftFound, leftLower⟩ :=
        bound_le_iff.mp (reaches _ left leftValid (by omega))
      obtain ⟨rightHeight, rightFound, rightLower⟩ :=
        bound_le_iff.mp (reaches _ right rightValid (by omega))
      have offered : known.ofAlternative? (.pair first second) =
          some (max leftHeight rightHeight + 1) := by
        simp only [ofAlternative?, leftFound, rightFound]
      refine (bound_sweep_le_offered member inside offered).trans (Nat.cast_le.mpr ?_)
      rw [ParseTree.height]
      omega

/-- A limit that is no less than the number of rules reaches every tree, because no least
height is greater than that number. -/
theorem Reaches.bound_le_height {symbol : String} {tree : ParseTree}
    (reaches : known.Reaches grammar limit) (enough : grammar.rules.length ≤ limit)
    (valid : tree.ValidFor grammar symbol) : known.bound symbol ≤ tree.height := by
  obtain ⟨height, lower, least⟩ := Grammar.exists_leastHeight valid
  obtain ⟨lowest, lowestValid, rfl⟩ := least.attained
  have within : lowest.height ≤ limit := least.le_length.trans enough
  exact (reaches symbol lowest lowestValid within).trans (Nat.cast_le.mpr lower)

/-- As long as sweeps change something, the limit is below the number of rules. -/
theorem Reaches.lt_length_of_changed {after : Heights} (reaches : known.Reaches grammar limit)
    (attained : known.Attained grammar)
    (changed : Heights.sweep grammar.rules known = (after, true)) :
    limit < grammar.rules.length := by
  have stillAttained := attained.sweep fun rule (member : rule ∈ grammar.rules) => member
  rw [changed] at stillAttained
  obtain ⟨rule, _, lowered⟩ := sweep_lowers changed
  by_contra enough
  cases found : after.lookup rule.symbol with
  | none => simp [bound, found] at lowered
  | some height =>
      obtain ⟨tree, valid, rfl⟩ := stillAttained rule.symbol height found
      have known := reaches.bound_le_height (Nat.le_of_not_lt enough) valid
      exact absurd lowered (not_lt.mpr (by simpa [bound, found] using known))

/-- Sweeps in place settle, and there are no more of them than there are levels between the
limit and the number of rules, and one that finds nothing new. -/
theorem exists_settles (attained : known.Attained grammar) (reaches : known.Reaches grammar limit)
    (within : limit ≤ grammar.rules.length) :
    ∃ sweeps, sweeps + limit ≤ grammar.rules.length + 1 ∧
      Settles grammar sweeps known (settleInPlace grammar known) := by
  induction known using settleInPlace.induct grammar generalizing limit with
  | case1 known after changed inductionHypothesis =>
      have stillAttained := attained.sweep fun rule (member : rule ∈ grammar.rules) => member
      have further := reaches.sweep
      have below := reaches.lt_length_of_changed attained changed
      rw [changed] at stillAttained further
      obtain ⟨sweeps, few, rest⟩ := inductionHypothesis stillAttained further below
      rw [settleInPlace, changed]
      exact ⟨sweeps + 1, by omega, .again changed rest⟩
  | case2 known after unchanged =>
      rw [settleInPlace, unchanged]
      exact ⟨1, by omega, .still unchanged⟩

end Heights

namespace Grammar

/-- Grammars with the same rules have the same heights, in whatever order sweeps come to
the rules. -/
theorem lookup_sweptHeights_of_perm {first second : Grammar}
    (reordered : first.rules.Perm second.rules) (symbol : String) :
    first.sweptHeights.lookup symbol = second.sweptHeights.lookup symbol := by
  have equivalent : (first.withStart second.start).Equivalent second :=
    equivalent_iff_perm.mpr ⟨rfl, reordered⟩
  have sameNormal : first.NormalEquivalent second :=
    fun symbol => equivalent.normalEquivalent symbol
  simpa [lookup_sweptHeights] using sameNormal.lookup_leastHeights symbol

/-- A symbol has a tree exactly when it has a least height. -/
theorem exists_leastHeight_iff {grammar : Grammar} {symbol : String} :
    (∃ height, grammar.LeastHeight symbol height) ↔ ∃ word, grammar.Derives symbol word := by
  constructor
  · rintro ⟨height, least⟩
    obtain ⟨tree, valid, _⟩ := least.attained
    exact ⟨tree.leaves, derives_iff_exists_tree.mpr ⟨tree, valid, rfl⟩⟩
  · rintro ⟨word, derivation⟩
    obtain ⟨tree, valid, _⟩ := derives_iff_exists_tree.mp derivation
    obtain ⟨height, _, least⟩ := exists_leastHeight valid
    exact ⟨height, least⟩

/-- Sweeps in place stop, with at most one sweep more than there are rules. What they have
found then are the least heights of the symbols that derive a word, and nothing of any
other symbol: an alternative counts with one level above the symbols that it names, and
not at all if it is not in normal form or names a symbol that derives nothing. Passes
find the same, and so do sweeps over the rules in another order. -/
theorem sweeps_settle_at_least_heights (grammar : Grammar) :
    (∃ sweeps ≤ grammar.rules.length + 1,
      Heights.Settles grammar sweeps [] grammar.sweptHeights) ∧
    (∀ symbol height, grammar.sweptHeights.lookup symbol = some height ↔
      (∃ word, grammar.Derives symbol word) ∧ grammar.LeastHeight symbol height) ∧
    (∀ symbol, grammar.sweptHeights.lookup symbol = none ↔
      ∀ word, ¬ grammar.Derives symbol word) ∧
    (∀ alternative height, grammar.sweptHeights.ofAlternative? alternative = some height ↔
      grammar.Offers alternative height) ∧
    (∀ symbol, grammar.leastHeights.lookup symbol = grammar.sweptHeights.lookup symbol) ∧
    ∀ other : Grammar, grammar.rules.Perm other.rules → ∀ symbol,
      other.sweptHeights.lookup symbol = grammar.sweptHeights.lookup symbol := by
  refine ⟨?stops, ?found, ?missing, ?offers, fun symbol => (lookup_sweptHeights _ symbol).symm,
    fun other reordered symbol => (lookup_sweptHeights_of_perm reordered symbol).symm⟩
  case stops =>
    have nothing : Heights.Attained grammar [] := fun symbol height found => by cases found
    obtain ⟨sweeps, few, settles⟩ :=
      Heights.exists_settles nothing (Heights.reaches_zero grammar []) (Nat.zero_le _)
    exact ⟨sweeps, few, settles⟩
  case found =>
    intro symbol height
    rw [lookup_sweptHeights, lookup_leastHeights_iff]
    exact ⟨fun least => ⟨exists_leastHeight_iff.mp ⟨height, least⟩, least⟩, And.right⟩
  case missing =>
    intro symbol
    rw [← not_exists, ← exists_leastHeight_iff, lookup_sweptHeights,
      Option.eq_none_iff_forall_ne_some, not_exists]
    simp only [ne_eq, lookup_leastHeights_iff]
  case offers =>
    intro alternative height
    rw [Heights.ofAlternative?_congr grammar.lookup_sweptHeights, ofAlternative?_leastHeights_iff]

/-- The first sweep gives `X` a height that is too great, since a symbol of its second pair
is only defined behind it. The next one lowers it, and the other order never has it. -/
theorem sweeps_settle_at_least_heights_lowered :
    let rules : List Rule := [⟨"W", [.terminal 'w']⟩, ⟨"Y", [.pair 'W' 'W']⟩,
      ⟨"X", [.pair 'Y' 'Y', .pair 'Z' 'Z']⟩, ⟨"Z", [.terminal 'z']⟩, ⟨"E", [.pair 'E' 'E']⟩]
    (Heights.sweep (ofRules rules).rules []).1.lookup "X" = some 3 ∧
      (Heights.sweep (ofRules rules.reverse).rules []).1.lookup "X" = some 2 ∧
      (ofRules rules).rules.Perm (ofRules rules.reverse).rules ∧
      (ofRules rules).sweptHeights.lookup "X" = some 2 ∧
      (ofRules rules.reverse).sweptHeights.lookup "X" = some 2 ∧
      ∀ word, ¬ (ofRules rules).Derives "E" word := by
  intro rules
  obtain ⟨_, _, missing, _, passes, orders⟩ := sweeps_settle_at_least_heights (ofRules rules)
  have reordered : (ofRules rules).rules.Perm (ofRules rules.reverse).rules := by decide
  have lowered : (ofRules rules).sweptHeights.lookup "X" = some 2 := by
    rw [← passes]
    decide
  have absent : (ofRules rules).sweptHeights.lookup "E" = none := by
    rw [← passes]
    decide
  exact ⟨by decide, by decide, reordered, lowered, (orders _ reordered "X").trans lowered,
    (missing "E").mp absent⟩

end Grammar

end Chomsky
