import Mathlib.Data.List.Basic
import Chomsky.Grammar.Productions
import Chomsky.Proofs.Grammar.Agreement

/-!
# Grammars with fewer alternatives

Alternatives may be taken out of a grammar without any symbol becoming undefined.
Two relations compare what is left. `NormalEquivalent` grammars define the same
symbols and give them the same alternatives in normal form, whatever else they
hold. A test that `Spares` what is usable takes out nothing but alternatives that
no derivation applies: texts that are not in normal form, and pairs with a symbol
that is not defined.
-/

namespace Chomsky

/-- A rule with those of its alternatives that a test keeps. -/
def Rule.keep (kept : Alternative → Bool) (rule : Rule) : Rule :=
  ⟨rule.symbol, rule.alternatives.filter kept⟩

namespace Grammar

/-- A grammar with those alternatives that a test keeps. A symbol stays defined
even if it loses all of its alternatives. -/
def keep (grammar : Grammar) (kept : Alternative → Bool) : Grammar where
  start := grammar.start
  rules := grammar.rules.map (Rule.keep kept)
  distinct := by
    rw [List.map_map]
    exact grammar.distinct

/-- Whether an alternative may occur in a derivation: it is in normal form and all
symbols that it names are defined. -/
def isUsable (grammar : Grammar) : Alternative → Bool
  | .terminal _ => true
  | .pair left right =>
      String.singleton left ∈ grammar.symbols && String.singleton right ∈ grammar.symbols
  | .unsupported _ => false

/-- A test keeps every alternative that may occur in a derivation. -/
def Spares (grammar : Grammar) (kept : Alternative → Bool) : Prop :=
  ∀ alternative, grammar.isUsable alternative = true → kept alternative = true

/-- Agreement on which symbols are defined, and on the alternatives in normal form
that each of them has. -/
def NormalEquivalent (first second : Grammar) : Prop :=
  ∀ symbol,
    (first.alternatives? symbol).map (List.filter Alternative.isNormal) =
      (second.alternatives? symbol).map (List.filter Alternative.isNormal)

variable {grammar first second : Grammar} {kept : Alternative → Bool} {symbol : String}

/-- A symbol has the alternatives that the test keeps. -/
theorem alternatives?_keep (grammar : Grammar) (kept : Alternative → Bool) (symbol : String) :
    (grammar.keep kept).alternatives? symbol =
      (grammar.alternatives? symbol).map (List.filter kept) := by
  rw [alternatives?, alternatives?, keep, List.find?_map, Option.map_map, Option.map_map]
  rfl

/-- The test for normal form keeps whatever may occur in a derivation. -/
theorem spares_isNormal (grammar : Grammar) : grammar.Spares Alternative.isNormal := by
  intro alternative usable
  cases alternative with
  | terminal character => rfl
  | pair left right => rfl
  | unsupported text => exact absurd usable Bool.false_ne_true

/-- A pair is only lost if one of its symbols is not defined. -/
theorem Spares.undefined_of_dropped {left right : Char} (spares : grammar.Spares kept)
    (dropped : kept (.pair left right) = false) :
    String.singleton left ∉ grammar.symbols ∨ String.singleton right ∉ grammar.symbols := by
  rw [← not_and_or]
  intro defined
  have usable : grammar.isUsable (.pair left right) = true := by simp [isUsable, defined]
  rw [spares _ usable] at dropped
  cases dropped

/-- Characters may always occur in a derivation, so none of them is lost. -/
theorem Spares.terminalProductions_keep (spares : grammar.Spares kept) :
    (grammar.keep kept).terminalProductions = grammar.terminalProductions := by
  rw [terminalProductions, terminalProductions, keep, List.flatMap_map]
  apply List.flatMap_congr
  intro rule _
  rw [Rule.terminalProductions, Rule.terminalProductions, Rule.keep, List.filterMap_filter]
  apply List.filterMap_congr
  intro alternative _
  cases alternative with
  | terminal character => rw [if_pos (spares (.terminal character) rfl)]
  | pair left right => exact ite_self none
  | unsupported text => exact ite_self none

/-- Equivalent grammars have the same alternatives in normal form. -/
theorem Equivalent.normalEquivalent (equivalent : first.Equivalent second) :
    first.NormalEquivalent second := by
  intro symbol
  rw [equivalent.2]

/-- Nothing in normal form is lost when everything else is taken out. -/
theorem normalEquivalent_keep_isNormal (grammar : Grammar) :
    (grammar.keep Alternative.isNormal).NormalEquivalent grammar := by
  intro symbol
  rw [alternatives?_keep, Option.map_map]
  congr 1
  funext alternatives
  rw [Function.comp_apply, List.filter_filter]
  simp only [Bool.and_self]

/-- The alternatives in normal form of a symbol, defined or not, are the same. -/
theorem NormalEquivalent.filter_alternatives (equivalent : first.NormalEquivalent second)
    (symbol : String) :
    (first.alternatives symbol).filter Alternative.isNormal =
      (second.alternatives symbol).filter Alternative.isNormal :=
  calc (first.alternatives symbol).filter Alternative.isNormal
      = ((first.alternatives? symbol).map (List.filter Alternative.isNormal)).getD [] :=
        (Option.getD_map (List.filter Alternative.isNormal) [] (first.alternatives? symbol)).symm
    _ = ((second.alternatives? symbol).map (List.filter Alternative.isNormal)).getD [] := by
        rw [equivalent symbol]
    _ = (second.alternatives symbol).filter Alternative.isNormal :=
        Option.getD_map (List.filter Alternative.isNormal) [] (second.alternatives? symbol)

/-- Grammars with the same alternatives in normal form have them of every symbol. -/
theorem NormalEquivalent.mem_alternatives_iff (equivalent : first.NormalEquivalent second)
    {alternative : Alternative} (normal : alternative.isNormal = true) :
    alternative ∈ first.alternatives symbol ↔ alternative ∈ second.alternatives symbol := by
  have kept := congrArg (alternative ∈ ·) (equivalent.filter_alternatives symbol)
  simpa only [List.mem_filter, normal, and_true, eq_iff_iff] using kept

end Grammar

end Chomsky
