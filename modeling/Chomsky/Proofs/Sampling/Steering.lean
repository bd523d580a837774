import Mathlib.Logic.Relation
import Chomsky.Proofs.Chart.Recognition
import Chomsky.Proofs.Sampling.Heights
import Chomsky.Proofs.Sampling.Runs

/-!
# Steering makes sampling succeed

From the soft depth on, an expansion picks alternatives of least height, and each
such pick lowers the height that is left by a level at least. `Steerable` says
that the height left is no greater than the levels left, and one step preserves
it. A steerable expansion can therefore only end early where a choice is not
made, which a source that decides rules out.
-/

namespace Chomsky

open Relation (ReflTransGen)

/-- The number of levels from the soft depth on. -/
def steeredLevels : Nat := maxDepth - softDepth + 1

/-- With no more levels left than the steered ones, the soft depth is reached. -/
theorem softDepth_le {levels : Nat} (deep : levels + 1 ≤ steeredLevels) :
    softDepth ≤ maxDepth - levels := by
  have ordered : softDepth ≤ maxDepth := by decide
  rw [steeredLevels] at deep
  omega

namespace Grammar

/-- A symbol names another in one of its pairs. -/
inductive Names (grammar : Grammar) (symbol : String) : String → Prop where
  | left {first second : Char} (alternative : .pair first second ∈ grammar.alternatives symbol) :
      Names grammar symbol (String.singleton first)
  | right {first second : Char} (alternative : .pair first second ∈ grammar.alternatives symbol) :
      Names grammar symbol (String.singleton second)

variable {grammar : Grammar} {symbol : String} {height depth : Nat}
  {alternatives : List Alternative} {alternative : Alternative}

/-- Symbols among which all pairs stay include every symbol that is reached from
one of them. -/
theorem mem_of_reached {start : String} {closed : List String} (first : start ∈ closed)
    (stays : ∀ symbol ∈ closed, ∀ names ∈ grammar.pairs symbol,
      String.singleton names.1 ∈ closed ∧ String.singleton names.2 ∈ closed)
    (reached : ReflTransGen grammar.Names start symbol) : symbol ∈ closed := by
  induction reached with
  | refl => exact first
  | tail _ named inductionHypothesis =>
      cases named with
      | @left first second alternative =>
          exact (stays _ inductionHypothesis (first, second) (mem_pairs_iff.mpr alternative)).1
      | @right first second alternative =>
          exact (stays _ inductionHypothesis (first, second) (mem_pairs_iff.mpr alternative)).2

/-- Texts that are not in normal form have no influence on the least height. -/
theorem least?_filter_isNormal (heights : Heights) (alternatives : List Alternative) :
    heights.least? (alternatives.filter Alternative.isNormal) = heights.least? alternatives := by
  rw [Heights.least?, Heights.least?, List.filterMap_filter]
  congr 1
  apply List.filterMap_congr
  rintro (_ | _ | _) _ <;> rfl

/-- From the soft depth on, the candidates of a symbol are those alternatives that
offer its least height. -/
theorem mem_candidates_iff_offers (rule : grammar.alternatives? symbol = some alternatives)
    (least : grammar.LeastHeight symbol height) (deep : softDepth ≤ depth) :
    alternative ∈ candidates grammar.leastHeights depth alternatives ↔
      alternative ∈ alternatives ∧ grammar.Offers alternative height := by
  have leastFound : grammar.leastHeights.least? alternatives = some height := by
    have found := least?_leastHeights_iff.mpr least
    rwa [Grammar.alternatives, rule, Option.getD_some] at found
  rw [candidates, if_pos deep, least?_filter_isNormal, leastFound, List.mem_filter,
    List.mem_filter, decide_eq_true_iff, ofAlternative?_leastHeights_iff, and_assoc]
  refine and_congr_right fun _ => and_iff_right_of_imp ?_
  rintro (_ | _) <;> rfl

/-- A symbol that derives anything has candidates at every depth. -/
theorem candidates_ne_nil (rule : grammar.alternatives? symbol = some alternatives)
    (least : grammar.LeastHeight symbol height) :
    candidates grammar.leastHeights depth alternatives ≠ [] := by
  obtain ⟨⟨alternative, member, offer⟩, _⟩ := leastHeight_iff.mp least
  rw [Grammar.alternatives, rule, Option.getD_some] at member
  apply List.ne_nil_of_mem (a := alternative)
  by_cases deep : softDepth ≤ depth
  · exact (mem_candidates_iff_offers rule least deep).mpr ⟨member, offer⟩
  · rw [candidates, if_neg deep, List.mem_filter]
    cases offer <;> exact ⟨member, rfl⟩

end Grammar

/-- With so many levels left, the expansion of a symbol is sure to find terminals:
either it is steered there already, or it will be in time whatever is picked
before. -/
inductive Steerable (grammar : Grammar) (levels : Nat) (symbol : String) : Prop where
  | steered {height : Nat} (least : grammar.LeastHeight symbol height) (low : height ≤ levels)
      (deep : levels ≤ steeredLevels)
  | unsteered (low : ∀ other, ReflTransGen grammar.Names symbol other →
        ∃ height, grammar.LeastHeight other height ∧ height ≤ steeredLevels)
      (shallow : steeredLevels < levels)

variable {grammar : Grammar} {heights : Heights} {levels : Nat} {symbol : String}
  {supply after : Supply} {fault : ExpansionFault}

/-- A steerable symbol has a tree that is no higher than the levels left. -/
theorem Steerable.exists_leastHeight (steerable : Steerable grammar levels symbol) :
    ∃ height, grammar.LeastHeight symbol height ∧ height ≤ levels := by
  cases steerable with
  | steered least low deep => exact ⟨_, least, low⟩
  | unsteered low shallow =>
      obtain ⟨height, least, within⟩ := low symbol .refl
      exact ⟨height, least, by omega⟩

/-- Both symbols of a chosen pair are steerable with one level less. -/
theorem Steerable.of_choose {alternatives : List Alternative} {left right : Char}
    (steerable : Steerable grammar (levels + 1) symbol)
    (rule : grammar.alternatives? symbol = some alternatives)
    (choice : supply.choose (candidates grammar.leastHeights (maxDepth - levels) alternatives) =
      (some (.pair left right), after)) :
    Steerable grammar levels (String.singleton left) ∧
      Steerable grammar levels (String.singleton right) := by
  have member := mem_alternatives_of_choose rule choice
  cases steerable with
  | steered least low deep =>
      have offer := ((Grammar.mem_candidates_iff_offers rule least (softDepth_le deep)).mp
        (Supply.mem_of_choose choice)).2
      cases offer with
      | pair leftLeast rightLeast =>
          exact ⟨.steered leftLeast (by omega) (by omega),
            .steered rightLeast (by omega) (by omega)⟩
  | unsteered low shallow =>
      have onward : ∀ child, grammar.Names symbol child → Steerable grammar levels child := by
        intro child named
        by_cases deep : levels ≤ steeredLevels
        · obtain ⟨height, least, within⟩ := low child (.single named)
          exact .steered least (by omega) deep
        · exact .unsteered (fun other reached => low other (.head named reached)) (by omega)
      exact ⟨onward _ (.left member), onward _ (.right member)⟩

/-- A steerable expansion ends early only where no choice is made. -/
theorem Faults.eq_undecided (run : Faults grammar grammar.leastHeights levels symbol supply
      fault after) (steerable : Steerable grammar levels symbol) :
    ∃ stuck, fault = .undecided stuck := by
  induction run with
  | depthExceeded symbol supply =>
      obtain ⟨height, least, low⟩ := steerable.exists_leastHeight
      exact absurd least.pos (Nat.not_lt_of_le low)
  | undefined rule =>
      obtain ⟨height, least, _⟩ := steerable.exists_leastHeight
      exact absurd least.mem_symbols (Grammar.alternatives?_eq_none_iff.mp rule)
  | noAlternatives rule nothing =>
      obtain ⟨height, least, _⟩ := steerable.exists_leastHeight
      exact absurd nothing (Grammar.candidates_ne_nil rule least)
  | undecided rule something choice => exact ⟨_, rfl⟩
  | left rule choice _ leftHypothesis =>
      exact leftHypothesis (steerable.of_choose rule choice).1
  | right rule choice _ _ rightHypothesis =>
      exact rightHypothesis (steerable.of_choose rule choice).2

/-- Where the source decides, a choice is always made. -/
theorem Faults.ne_undecided (run : Faults grammar heights levels symbol supply fault after)
    (decides : supply.source.Decides) (stuck : String) : fault ≠ .undecided stuck := by
  induction run with
  | depthExceeded symbol supply => exact ExpansionFault.noConfusion
  | undefined rule => exact ExpansionFault.noConfusion
  | noAlternatives rule nothing => exact ExpansionFault.noConfusion
  | @undecided levels symbol alternatives supply after rule something choice =>
      have made := decides supply.drawn _ something
      rw [choice] at made
      exact absurd made Bool.false_ne_true
  | left rule choice _ leftHypothesis =>
      apply leftHypothesis
      rwa [Supply.source_of_choose choice]
  | right rule choice leftRun _ rightHypothesis =>
      apply rightHypothesis
      rwa [leftRun.source_eq, Supply.source_of_choose choice]

namespace Grammar

/-- Where every symbol that is reached from a symbol has a tree low enough for the
steered levels, sampling from that symbol gives a word: only a choice that is not
made could prevent it, and a source that decides makes every choice. -/
theorem sampleFrom_succeeds {start : String}
    (low : ∀ symbol, ReflTransGen grammar.Names start symbol →
      ∃ height, grammar.LeastHeight symbol height ∧ height ≤ maxDepth - softDepth + 1)
    (path : String) (supply : Supply) :
    (∀ error, (grammar.sampleFrom start path supply).1 = .error error →
      ∃ stuck, error.cause = .undecided stuck) ∧
    (supply.source.Decides → ∃ word, (grammar.sampleFrom start path supply).1 = .ok word) := by
  have steerable : Steerable grammar (maxDepth + 1) start := .unsteered low (by decide)
  constructor
  · intro error ended
    obtain ⟨fault, run, rfl⟩ := sampleFrom_eq_error_iff.mp (Prod.ext ended rfl)
    exact run.eq_undecided steerable
  · intro decides
    cases sampled : (grammar.sampleFrom start path supply).1 with
    | ok word => exact ⟨word, rfl⟩
    | error error =>
        obtain ⟨fault, run, rfl⟩ := sampleFrom_eq_error_iff.mp (Prod.ext sampled rfl)
        obtain ⟨stuck, undecided⟩ := run.eq_undecided steerable
        exact absurd undecided (run.ne_undecided decides stuck)

/-- Words near the greatest one pick the longest pairs, and still balanced
parentheses come to an end. -/
theorem sampleFrom_succeeds_parentheses :
    (∀ symbol, ReflTransGen parentheses.Names "S" symbol →
      ∃ height, parentheses.LeastHeight symbol height ∧ height ≤ maxDepth - softDepth + 1) ∧
    ∃ word, (parentheses.sampleFrom "S" "g.cnf"
      (.fresh (.listed #[0xF0000000, 0xF0000000, 0xF0000000]))).1 = .ok word := by
  have low : ∀ symbol, ReflTransGen parentheses.Names "S" symbol →
      ∃ height, parentheses.LeastHeight symbol height ∧ height ≤ maxDepth - softDepth + 1 := by
    intro symbol reached
    have member : symbol ∈ ["S", "A", "L", "R"] :=
      mem_of_reached (by decide) (by decide) reached
    have known : ∀ symbol ∈ ["S", "A", "L", "R"], ∃ height ≤ 3,
        parentheses.leastHeights.lookup symbol = some height := by decide
    obtain ⟨height, within, found⟩ := known symbol member
    exact ⟨height, lookup_leastHeights_iff.mp found, Nat.le_trans within (by decide)⟩
  exact ⟨low, (sampleFrom_succeeds low "g.cnf" _).2 (WordSource.decides_listed _)⟩

end Grammar

end Chomsky
