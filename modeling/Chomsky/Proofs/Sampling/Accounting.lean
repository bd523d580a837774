import Mathlib.Algebra.Ring.Nat
import Chomsky.Proofs.Derivation.Nodes
import Chomsky.Proofs.Sampling.Reach

/-!
# Accounting for words

Words are drawn for picks and for nothing else. A pick draws the words that it refuses and then the
one that it accepts, even where there is only one candidate (`Supply.accounts_choose`).
`expandRecording` is an expansion that takes down every pick it makes, with all words that were
drawn for it, and does the same otherwise (`expandRecording_erase`). The picks of a run that ends
well replace the symbols of its tree in preorder (`Expands.recording`), and a tree has one symbol
less than twice its leaves (`ParseTree.ValidFor.length_steps`), so the word alone tells how many
words were drawn and not refused (`Grammar.picks_account_for_words`).
-/

namespace Chomsky

/-- A pick that was made, with the words that were drawn for it. -/
structure Pick where
  /-- The symbol that was replaced. -/
  symbol : String
  /-- What could have been picked. -/
  candidates : List Alternative
  /-- What was picked. -/
  picked : Alternative
  /-- The words that were refused, in the order in which they were drawn. -/
  refused : List UInt32
  /-- The word that was accepted. -/
  accepted : UInt32
deriving DecidableEq, Repr

namespace Pick

/-- All words that were drawn for a pick. -/
def words (pick : Pick) : List UInt32 :=
  pick.refused ++ [pick.accepted]

/-- The words are those that the pick takes: each but the last is refused for so many candidates,
and the last one is accepted and gives what was picked. -/
structure IsDue (pick : Pick) : Prop where
  refused : ∀ word ∈ pick.refused, accepts pick.candidates.length word = false
  accepted : accepts pick.candidates.length pick.accepted = true
  picked : pick.candidates[pickOf pick.candidates.length pick.accepted]? = some pick.picked

/-- One word of every pick is accepted. -/
theorem length_flatMap_words (picks : List Pick) :
    (picks.flatMap words).length =
      picks.length + (picks.map fun pick => pick.refused.length).sum := by
  induction picks with
  | nil => rfl
  | cons pick rest inductionHypothesis =>
      simp only [List.flatMap_cons, List.length_append, inductionHypothesis, words,
        List.length_cons, List.length_nil, List.map_cons, List.sum_cons]
      omega

end Pick

/-- The words drawn between two supplies are those of the picks, one pick after the other. -/
structure Accounts (before : Supply) (picks : List Pick) (after : Supply) : Prop where
  due : ∀ pick ∈ picks, pick.IsDue
  drawn : before.NextAre (picks.flatMap Pick.words)
  left : after = before.skip (picks.flatMap Pick.words).length

/-- Picks that are made one after the other account for all words that are drawn. -/
theorem Accounts.append {before between after : Supply} {first second : List Pick}
    (firstPart : Accounts before first between) (secondPart : Accounts between second after) :
    Accounts before (first ++ second) after where
  due := List.forall_mem_append.mpr ⟨firstPart.due, secondPart.due⟩
  drawn := by
    rw [List.flatMap_append]
    exact firstPart.drawn.append (firstPart.left ▸ secondPart.drawn)
  left := by
    rw [secondPart.left, firstPart.left, Supply.skip_skip, List.flatMap_append,
      List.length_append]

namespace Supply

/-- The next words as long as they are refused. -/
def refusedWithin (count : Nat) : (patience : Nat) → Supply → List UInt32
  | 0, _ => []
  | patience + 1, supply =>
      if accepts count supply.next then []
      else supply.next :: refusedWithin count patience supply.rest

/-- What is taken down of a pick that is made with a supply. -/
def pickFor (supply : Supply) (symbol : String) (candidates : List Alternative)
    (picked : Alternative) : Pick :=
  let refused := supply.refusedWithin candidates.length supply.source.patience
  ⟨symbol, candidates, picked, refused, (supply.skip refused.length).next⟩

variable {supply after : Supply} {candidates : List Alternative} {picked : Alternative}

theorem nextAre_singleton (supply : Supply) : supply.NextAre [supply.next] := by
  intro position word here
  obtain ⟨rfl, rfl⟩ : position = 0 ∧ supply.next = word := by
    cases position <;> simp_all
  rfl

theorem accepts_of_mem_refusedWithin {count : Nat} {word : UInt32} (patience : Nat)
    (member : word ∈ supply.refusedWithin count patience) : accepts count word = false := by
  induction patience generalizing supply with
  | zero => cases member
  | succ patience inductionHypothesis =>
      rw [refusedWithin] at member
      split at member
      · cases member
      · next refused =>
          rcases List.mem_cons.mp member with rfl | later
          · exact Bool.not_eq_true _ ▸ refused
          · exact inductionHypothesis later

theorem nextAre_refusedWithin (supply : Supply) (count patience : Nat) :
    supply.NextAre (supply.refusedWithin count patience) := by
  induction patience generalizing supply with
  | zero =>
      intro position word here
      cases here
  | succ patience inductionHypothesis =>
      rw [refusedWithin]
      split
      · intro position word here
        cases here
      · exact supply.nextAre_singleton.append (inductionHypothesis supply.rest)

/-- The word behind the refused ones is accepted, if a pick comes about. -/
theorem accepts_of_pickWithin {count position patience : Nat}
    (pickEq : supply.pickWithin count patience = (some position, after)) :
    let last := supply.skip (supply.refusedWithin count patience).length
    accepts count last.next = true ∧ pickOf count last.next = position ∧ last.rest = after := by
  induction patience generalizing supply with
  | zero => cases pickEq
  | succ patience inductionHypothesis =>
      rw [pickWithin] at pickEq
      rw [refusedWithin]
      split at pickEq
      · next accepted =>
          cases pickEq
          rw [if_pos accepted]
          exact ⟨accepted, rfl, rfl⟩
      · next refused =>
          rw [if_neg refused, List.length_cons, Nat.add_comm, ← skip_skip]
          exact inductionHypothesis pickEq

/-- A choice draws the words of its pick. -/
theorem accounts_choose (symbol : String)
    (choice : supply.choose candidates = (some picked, after)) :
    Accounts supply [supply.pickFor symbol candidates picked] after := by
  rw [choose] at choice
  split at choice
  · next position last pickEq =>
      obtain ⟨here, rfl⟩ := Prod.mk.inj choice
      obtain ⟨accepted, rfl, rfl⟩ := accepts_of_pickWithin pickEq
      constructor
      case due =>
        rintro pick member
        obtain rfl := List.mem_singleton.mp member
        exact ⟨fun _ => accepts_of_mem_refusedWithin _, accepted, here⟩
      case drawn =>
        rw [List.flatMap_singleton]
        exact (nextAre_refusedWithin _ _ _).append (nextAre_singleton _)
      case left =>
        rw [List.flatMap_singleton, Pick.words, List.length_append, ← skip_skip]
        rfl
  · next pickEq => cases choice

end Supply

/-- A supply with the picks that were made so far. -/
structure Ledger where
  supply : Supply
  picks : List Pick

/-- A choice that is taken down if it comes about. -/
def Ledger.choose (symbol : String) (candidates : List Alternative) (ledger : Ledger) :
    Option Alternative × Ledger :=
  match ledger.supply.choose candidates with
  | (some picked, after) =>
      (some picked, ⟨after, ledger.picks ++ [ledger.supply.pickFor symbol candidates picked]⟩)
  | (none, after) => (none, ⟨after, ledger.picks⟩)

/-- An expansion that takes down every pick for a symbol. -/
def expandRecording (grammar : Grammar) (heights : Heights) :
    (levels : Nat) → (symbol : String) → Ledger → Except ExpansionFault Word × Ledger
  | 0, symbol, ledger => (.error (.depthExceeded symbol), ledger)
  | levels + 1, symbol, ledger =>
      match grammar.alternatives? symbol with
      | none => (.error (.undefined symbol), ledger)
      | some alternatives =>
          match candidates heights (maxDepth - levels) alternatives with
          | [] => (.error (.noAlternatives symbol), ledger)
          | first :: others =>
              match ledger.choose symbol (first :: others) with
              | (some (.terminal character), after) => (.ok [character], after)
              | (some (.pair left right), after) =>
                  match expandRecording grammar heights levels (String.singleton left) after with
                  | (.ok leftWord, after) =>
                      match expandRecording grammar heights levels (String.singleton right)
                        after with
                      | (.ok rightWord, after) => (.ok (leftWord ++ rightWord), after)
                      | (.error fault, after) => (.error fault, after)
                  | (.error fault, after) => (.error fault, after)
              | (_, after) => (.error (.undecided symbol), after)

section Runs

variable {grammar : Grammar} {heights : Heights} {levels : Nat} {symbol : String}

/-- Taking down a choice does not change it. -/
theorem Ledger.choose_erase (symbol : String) (candidates : List Alternative) (ledger : Ledger) :
    Prod.map id Ledger.supply (ledger.choose symbol candidates) =
      ledger.supply.choose candidates := by
  rw [choose]
  split
  · next choice => exact choice.symm
  · next choice => exact choice.symm

/-- What is taken down of a choice. -/
theorem Ledger.choose_of_choose {supply after : Supply} {candidates : List Alternative}
    {picked : Alternative} (choice : supply.choose candidates = (some picked, after))
    (picks : List Pick) :
    (⟨supply, picks⟩ : Ledger).choose symbol candidates =
      (some picked, ⟨after, picks ++ [supply.pickFor symbol candidates picked]⟩) := by
  simp only [choose, choice]

/-- Taking down the picks of an expansion changes neither its result nor what it draws. -/
theorem expandRecording_erase (grammar : Grammar) (heights : Heights) (levels : Nat)
    (symbol : String) (ledger : Ledger) :
    Prod.map id Ledger.supply (expandRecording grammar heights levels symbol ledger) =
      expand grammar heights levels symbol ledger.supply := by
  induction levels generalizing symbol ledger with
  | zero => rfl
  | succ levels inductionHypothesis =>
      cases rule : grammar.alternatives? symbol with
      | none => simp only [expandRecording, expand, rule, Prod.map_apply, id]
      | some alternatives =>
          cases shape : candidates heights (maxDepth - levels) alternatives with
          | nil => simp only [expandRecording, expand, rule, shape, Prod.map_apply, id]
          | cons first others =>
              have choice := ledger.choose_erase symbol (first :: others)
              simp only [expandRecording, expand, rule, shape, ← choice]
              rcases ledger.choose symbol (first :: others) with
                ⟨_ | ⟨_ | ⟨left, right⟩ | _⟩, after⟩
              case some.pair =>
                have leftHypothesis := inductionHypothesis (String.singleton left) after
                simp only [Prod.map_apply, id, ← leftHypothesis]
                rcases expandRecording grammar heights levels (String.singleton left) after with
                  ⟨_ | leftWord, between⟩
                case error => rfl
                case ok =>
                  have rightHypothesis := inductionHypothesis (String.singleton right) between
                  simp only [Prod.map_apply, id, ← rightHypothesis]
                  rcases expandRecording grammar heights levels (String.singleton right) between
                    with ⟨_ | rightWord, last⟩ <;> rfl
              -- Where no pair is picked, neither goes any deeper.
              all_goals rfl

/-- What an expansion that takes down its picks does once a choice has been made. -/
theorem expandRecording_of_choose {alternatives : List Alternative}
    {picked : Option Alternative} {ledger chosen : Ledger}
    (rule : grammar.alternatives? symbol = some alternatives)
    (something : candidates heights (maxDepth - levels) alternatives ≠ [])
    (choice : ledger.choose symbol (candidates heights (maxDepth - levels) alternatives) =
      (picked, chosen)) :
    expandRecording grammar heights (levels + 1) symbol ledger =
      match picked with
      | some (.terminal character) => (.ok [character], chosen)
      | some (.pair left right) =>
          match expandRecording grammar heights levels (String.singleton left) chosen with
          | (.ok leftWord, between) =>
              match expandRecording grammar heights levels (String.singleton right) between with
              | (.ok rightWord, last) => (.ok (leftWord ++ rightWord), last)
              | (.error fault, last) => (.error fault, last)
          | (.error fault, last) => (.error fault, last)
      | _ => (.error (.undecided symbol), chosen) := by
  obtain ⟨first, others, shape⟩ := List.exists_cons_of_ne_nil something
  rw [shape] at choice
  simp only [expandRecording, rule, shape, choice]
  rcases picked with _ | ⟨_ | _ | _⟩ <;> rfl

end Runs

namespace ParseTree

/-- The symbols above the leaves in preorder, each with the alternative that it is replaced by. -/
def steps : ParseTree → List (String × Alternative)
  | terminal _ => []
  | unary symbol child => (symbol, .ofText child.label) :: child.steps
  | binary symbol left right =>
      (symbol, .ofText (left.label ++ right.label)) :: (left.steps ++ right.steps)

variable {grammar : Grammar} {symbol : String} {tree : ParseTree}

/-- A tree has one symbol above each leaf, and one less above pairs of subtrees. -/
theorem ValidFor.length_steps (valid : tree.ValidFor grammar symbol) :
    tree.steps.length + 1 = 2 * tree.leaves.length := by
  induction valid with
  | unary alternative => rfl
  | binary alternative _ _ leftHypothesis rightHypothesis =>
      simp only [steps, leaves, List.length_cons, List.length_append]
      omega

end ParseTree

/-- The picks of a run that ends well replace the symbols of its tree, and account for all words
that the run draws. -/
theorem Expands.recording {grammar : Grammar} {heights : Heights} {levels : Nat}
    {symbol : String} {supply after : Supply} {tree : ParseTree}
    (run : Expands grammar heights levels symbol supply tree after) (picks : List Pick) :
    ∃ made, expandRecording grammar heights levels symbol ⟨supply, picks⟩ =
        (.ok tree.leaves, ⟨after, picks ++ made⟩) ∧
      made.map (fun pick => (pick.symbol, pick.picked)) = tree.steps ∧
      Accounts supply made after := by
  induction run generalizing picks with
  | @terminal levels symbol alternatives supply character after rule choice =>
      refine ⟨[supply.pickFor symbol (candidates heights (maxDepth - levels) alternatives)
        (.terminal character)], ?_, ?_, Supply.accounts_choose symbol choice⟩
      · rw [expandRecording_of_choose rule (candidates_ne_nil_of_choose choice)
          (Ledger.choose_of_choose choice picks)]
        rfl
      · simp only [ParseTree.steps, ParseTree.label, Alternative.ofText_singleton, List.map_cons,
          List.map_nil, Supply.pickFor]
  | @pair levels symbol alternatives supply left right chosen _ _ _ _ rule choice leftRun
      rightRun leftHypothesis rightHypothesis =>
      let pick := supply.pickFor symbol (candidates heights (maxDepth - levels) alternatives)
        (.pair left right)
      obtain ⟨leftMade, leftEq, leftSteps, leftPart⟩ := leftHypothesis (picks ++ [pick])
      obtain ⟨rightMade, rightEq, rightSteps, rightPart⟩ :=
        rightHypothesis (picks ++ [pick] ++ leftMade)
      refine ⟨[pick] ++ (leftMade ++ rightMade), ?_, ?_,
        (Supply.accounts_choose symbol choice).append (leftPart.append rightPart)⟩
      · rw [expandRecording_of_choose rule (candidates_ne_nil_of_choose choice)
          (Ledger.choose_of_choose choice picks)]
        simp only [pick] at leftEq rightEq
        simp only [leftEq, rightEq, ParseTree.leaves]
        simp only [pick, List.append_assoc]
      · rw [List.map_append, List.map_append, leftSteps, rightSteps, ParseTree.steps,
          ParseTree.ofText_labels leftRun.valid rightRun.valid]
        rfl

namespace Grammar

/-- A random word that a symbol derives, with the picks that were made for it. -/
def sampleRecording (grammar : Grammar) (symbol path : String) (supply : Supply) :
    Except ExpansionError Word × Ledger :=
  match expandRecording grammar grammar.leastHeights (maxDepth + 1) symbol ⟨supply, []⟩ with
  | (.ok word, after) => (.ok word, after)
  | (.error fault, after) => (.error ⟨.whole path, fault⟩, after)

/-- Sampling makes one pick for every symbol of the tree that it goes along, which are one less
than twice as many as the characters of the word, and draws the words of these picks and no
others. A word is drawn for a pick even where there is only one candidate, and if it draws more
than one, it has refused all but the last. -/
theorem picks_account_for_words (grammar : Grammar) (symbol path : String) (supply : Supply) :
    let recorded := grammar.sampleRecording symbol path supply
    let picks := recorded.2.picks
    grammar.sampleFrom symbol path supply = (recorded.1, recorded.2.supply) ∧
      ∀ word after, grammar.sampleFrom symbol path supply = (.ok word, after) →
        word ≠ [] ∧ picks.length = 2 * word.length - 1 ∧
        (∃ tree : ParseTree, tree.ValidFor grammar symbol ∧ tree.leaves = word ∧
          picks.map (fun pick => (pick.symbol, pick.picked)) = tree.steps) ∧
        Accounts supply picks after ∧
        supply.drawn + (2 * word.length - 1) ≤ after.drawn ∧
        after.drawn = supply.drawn + (2 * word.length - 1) +
          (picks.map fun pick => pick.refused.length).sum := by
  intro recorded picks
  constructor
  · have erased := expandRecording_erase grammar grammar.leastHeights (maxDepth + 1) symbol
      ⟨supply, []⟩
    simp only [recorded, sampleFrom, sampleRecording, ← erased]
    rcases expandRecording grammar grammar.leastHeights (maxDepth + 1) symbol ⟨supply, []⟩ with
      ⟨_ | _, _⟩ <;> rfl
  · intro word after sampled
    obtain ⟨tree, run, rfl⟩ := sampleFrom_eq_ok_iff.mp sampled
    obtain ⟨made, recording, madeSteps, accounts⟩ := run.recording []
    have same : picks = made := by
      simp only [picks, recorded, sampleRecording, recording, List.nil_append]
    have odd : made.length + 1 = 2 * tree.leaves.length := by
      rw [← run.valid.length_steps, ← madeSteps, List.length_map]
    have drawn : after.drawn = supply.drawn + (made.flatMap Pick.words).length := by
      rw [accounts.left, Supply.skip]
    rw [Pick.length_flatMap_words] at drawn
    rw [same]
    exact ⟨tree.leaves_ne_nil, by omega, ⟨tree, run.valid, rfl, madeSteps⟩, accounts,
      by omega, by omega⟩

/-- Three picks are made for a pair of parentheses. The first is one out of three alternatives
and the second the only one that there is, and both of them refuse a word. -/
theorem picks_account_for_words_of_parentheses :
    let supply := Supply.fresh (.listed #[0x50000000, 0, 0x80000000, 5, 7])
    let picks := (parentheses.sampleRecording "S" "g.cnf" supply).2.picks
    let sampled := parentheses.sampleFrom "S" "g.cnf" supply
    picks.map (fun pick => pick.candidates.length) = [3, 1, 1] ∧
      picks.map Pick.refused = [[0x50000000], [0x80000000], []] ∧
      sampled.1 = .ok ['(', ')'] ∧ picks.length = 3 ∧ sampled.2.drawn = 3 + 2 := by
  intro supply picks sampled
  have word : sampled.1 = .ok ['(', ')'] := by decide
  have refused : picks.map Pick.refused = [[0x50000000], [0x80000000], []] := by decide
  obtain ⟨-, account⟩ := picks_account_for_words parentheses "S" "g.cnf" supply
  obtain ⟨-, made, -, -, -, drawn⟩ := account ['(', ')'] sampled.2 (by rw [← word])
  refine ⟨by decide, refused, word, made, ?_⟩
  rw [drawn, ← Function.comp_def, ← List.map_map, refused]
  rfl

end Grammar

end Chomsky
