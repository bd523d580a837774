import Mathlib.Combinatorics.Enumerative.DyckWord
import Chomsky.Proofs.Chart.Recognition

/-!
# Balanced parentheses

The grammar `Grammar.parentheses` derives the Dyck words other than the empty one
(`Grammar.derives_parentheses_iff`). Its rules amount to one equation for what the start symbol
derives (`Grammar.derives_S_iff`). A derivation gives a Dyck word, because Dyck words may be nested
and put together. A Dyck word gives a derivation by way of the pair that its first parenthesis
belongs to: what is inside the pair and what is behind it are shorter Dyck words, and which of them
are empty decides on the alternatives.
-/

namespace Chomsky

open DyckStep (U D)

/-- The character of a step. -/
def parenthesis : DyckStep → Char
  | .U => '('
  | .D => ')'

/-- A Dyck word in parentheses. -/
def parenthesized (dyck : DyckWord) : Word :=
  dyck.toList.map parenthesis

/-- By how much a character changes the number of open parentheses; what does not open one counts
as closing one. -/
def depthChange (character : Char) : Int :=
  if character = '(' then 1 else -1

/-- Whether a word closes no parenthesis that is not open and leaves none open, given how many
are open in front of it. -/
def closesFrom (depth : Int) : Word → Bool
  | [] => depth = 0
  | character :: rest =>
      let after := depth + depthChange character
      0 ≤ after && closesFrom after rest

/-- Whether a word is not empty and its parentheses are balanced, found by counting how many are
open. -/
def isBalanced (word : Word) : Bool :=
  !word.isEmpty && closesFrom 0 word

variable {word : Word}

theorem parenthesis_injective : Function.Injective parenthesis := by
  intro first second same
  cases first <;> cases second <;> simp_all [parenthesis]

@[simp] theorem parenthesized_add (first second : DyckWord) :
    parenthesized (first + second) = parenthesized first ++ parenthesized second :=
  List.map_append

@[simp] theorem parenthesized_nest (dyck : DyckWord) :
    parenthesized dyck.nest = '(' :: (parenthesized dyck ++ [')']) := by
  simp [parenthesized, DyckWord.nest, parenthesis]

@[simp] theorem parenthesized_eq_nil_iff {dyck : DyckWord} :
    parenthesized dyck = [] ↔ dyck = 0 := by
  rw [parenthesized, List.map_eq_nil_iff, DyckWord.toList_eq_nil]

@[simp] theorem count_opening (steps : List DyckStep) :
    (steps.map parenthesis).count '(' = steps.count U :=
  List.count_map_of_injective steps parenthesis parenthesis_injective U

@[simp] theorem count_closing (steps : List DyckStep) :
    (steps.map parenthesis).count ')' = steps.count D :=
  List.count_map_of_injective steps parenthesis parenthesis_injective D

/-- A word of parentheses spells steps. -/
theorem exists_map_parenthesis_eq_iff :
    (∃ steps : List DyckStep, steps.map parenthesis = word) ↔
      ∀ character ∈ word, character = '(' ∨ character = ')' := by
  have range : ∀ character, character ∈ Set.range parenthesis ↔
      character = '(' ∨ character = ')' := by
    intro character
    constructor
    · rintro ⟨step, rfl⟩
      cases step
      · exact .inl rfl
      · exact .inr rfl
    · rintro (rfl | rfl)
      · exact ⟨U, rfl⟩
      · exact ⟨D, rfl⟩
  have spelled : word ∈ Set.range (List.map parenthesis) ↔
      ∀ character ∈ word, character ∈ Set.range parenthesis := by
    rw [Set.range_list_map]
    rfl
  simpa only [Set.mem_range, range] using spelled

/-- A Dyck word in parentheses is a word of parentheses that closes at no point more than it has
opened and closes as many as it opens in the end. -/
theorem exists_parenthesized_eq_iff :
    (∃ dyck, parenthesized dyck = word) ↔
      (∀ character ∈ word, character = '(' ∨ character = ')') ∧
      (∀ part, part <+: word → part.count ')' ≤ part.count '(') ∧
      word.count '(' = word.count ')' := by
  rw [← exists_map_parenthesis_eq_iff]
  constructor
  · rintro ⟨dyck, rfl⟩
    refine ⟨⟨dyck.toList, rfl⟩, fun part isPart => ?_, ?_⟩
    · have partSteps : part = (dyck.toList.take part.length).map parenthesis := by
        rw [List.map_take]
        exact List.prefix_iff_eq_take.mp isPart
      rw [partSteps, count_opening, count_closing]
      exact dyck.count_D_le_count_U part.length
    · simpa [parenthesized] using dyck.count_U_eq_count_D
  · rintro ⟨⟨steps, rfl⟩, parts, total⟩
    rw [count_opening, count_closing] at total
    refine ⟨⟨steps, total, fun count => ?_⟩, rfl⟩
    have within := parts _ ((List.take_prefix count steps).map parenthesis)
    rwa [count_opening, count_closing] at within

/-- What holds of every part that a list starts with holds of the empty part and behind the first
element. -/
theorem forall_prefix_cons_iff {α : Type} {holds : List α → Prop} {first : α} {rest : List α} :
    (∀ part, part <+: first :: rest → holds part) ↔
      holds [] ∧ ∀ part, part <+: rest → holds (first :: part) := by
  simp only [List.prefix_cons_iff]
  constructor
  · intro all
    exact ⟨all [] (.inl rfl), fun part isPart => all _ (.inr ⟨part, rfl, isPart⟩)⟩
  · rintro ⟨nothing, behind⟩ part (rfl | ⟨shorter, rfl, isPart⟩)
    · exact nothing
    · exact behind shorter isPart

/-- Counting finds out whether all that is open is closed, and none before it is opened. -/
theorem closesFrom_iff {depth : Int} (someOpen : 0 ≤ depth) :
    closesFrom depth word ↔
      (∀ part, part <+: word → 0 ≤ depth + (part.map depthChange).sum) ∧
      depth + (word.map depthChange).sum = 0 := by
  induction word generalizing depth with
  | nil => simp [closesFrom, someOpen]
  | cons character rest inductionHypothesis =>
      simp only [closesFrom, Bool.and_eq_true, decide_eq_true_eq, forall_prefix_cons_iff,
        List.map_cons, List.sum_cons, ← add_assoc]
      constructor
      · rintro ⟨after, closes⟩
        obtain ⟨parts, total⟩ := (inductionHypothesis after).mp closes
        exact ⟨⟨by simpa using someOpen, parts⟩, total⟩
      · rintro ⟨⟨_, parts⟩, total⟩
        have after : 0 ≤ depth + depthChange character := by simpa using parts [] List.nil_prefix
        exact ⟨after, (inductionHypothesis after).mpr ⟨parts, total⟩⟩

/-- Among parentheses, what is open behind a word has been opened and not been closed in it. -/
theorem sum_depthChange (letters : ∀ character ∈ word, character = '(' ∨ character = ')') :
    (word.map depthChange).sum = word.count '(' - word.count ')' := by
  induction word with
  | nil => rfl
  | cons character rest inductionHypothesis =>
      rw [List.forall_mem_cons] at letters
      rw [List.map_cons, List.sum_cons, inductionHypothesis letters.2]
      rcases letters.1 with rfl | rfl
      · simp [depthChange]
        omega
      · simp [depthChange]
        omega

/-- A word of parentheses is balanced when counting them says so. -/
theorem isBalanced_iff (letters : ∀ character ∈ word, character = '(' ∨ character = ')') :
    isBalanced word ↔
      word ≠ [] ∧ (∀ part, part <+: word → part.count ')' ≤ part.count '(') ∧
      word.count '(' = word.count ')' := by
  have total : (0 : Int) + (word.map depthChange).sum = 0 ↔ word.count '(' = word.count ')' := by
    rw [sum_depthChange letters]
    omega
  have parts : ∀ part, part <+: word →
      ((0 : Int) ≤ 0 + (part.map depthChange).sum ↔ part.count ')' ≤ part.count '(') := by
    intro part isPart
    rw [sum_depthChange fun character member => letters character (isPart.subset member)]
    omega
  rw [isBalanced, Bool.and_eq_true, closesFrom_iff (Int.le_refl 0), total, forall₂_congr parts]
  simp

namespace Grammar

variable {grammar : Grammar} {symbol : String}

/-- An alternative can be expanded to a word. -/
def Yields (grammar : Grammar) (word : Word) : Alternative → Prop
  | .terminal character => word = [character]
  | .pair first second => ∃ left right, grammar.Derives (String.singleton first) left ∧
      grammar.Derives (String.singleton second) right ∧ word = left ++ right
  | .unsupported _ => False

/-- A symbol derives what its alternatives can be expanded to. -/
theorem derives_iff_exists_yields :
    grammar.Derives symbol word ↔
      ∃ alternative ∈ grammar.alternatives symbol, grammar.Yields word alternative := by
  constructor
  · intro derivation
    cases derivation with
    | terminal alternative => exact ⟨_, alternative, rfl⟩
    | pair alternative left right => exact ⟨_, alternative, _, _, left, right, rfl⟩
  · rintro ⟨alternative, member, yields⟩
    cases alternative with
    | terminal character =>
        cases yields
        exact .terminal member
    | pair first second =>
        obtain ⟨left, right, leftDerives, rightDerives, rfl⟩ := yields
        exact .pair member leftDerives rightDerives
    | unsupported text => cases yields

theorem derives_L_iff : parentheses.Derives "L" word ↔ word = ['('] := by
  have alternatives : parentheses.alternatives "L" = [.terminal '('] := rfl
  rw [derives_iff_exists_yields, alternatives]
  simp [Yields]

theorem derives_R_iff : parentheses.Derives "R" word ↔ word = [')'] := by
  have alternatives : parentheses.alternatives "R" = [.terminal ')'] := rfl
  rw [derives_iff_exists_yields, alternatives]
  simp [Yields]

theorem derives_A_iff : parentheses.Derives "A" word ↔
    ∃ inner, parentheses.Derives "S" inner ∧ word = inner ++ [')'] := by
  have alternatives : parentheses.alternatives "A" = [.pair 'S' 'R'] := rfl
  rw [derives_iff_exists_yields, alternatives]
  simp [Yields, derives_R_iff]

/-- The start symbol derives a pair of parentheses with or without something derivable inside, and
derivable words one after the other. -/
theorem derives_S_iff :
    parentheses.Derives "S" word ↔
      word = ['(', ')'] ∨
      (∃ inner, parentheses.Derives "S" inner ∧ word = '(' :: (inner ++ [')'])) ∨
      ∃ left right, parentheses.Derives "S" left ∧ parentheses.Derives "S" right ∧
        word = left ++ right := by
  have alternatives : parentheses.alternatives "S" =
    [.pair 'L' 'R', .pair 'L' 'A', .pair 'S' 'S'] := rfl
  rw [derives_iff_exists_yields, alternatives]
  simp [Yields, derives_L_iff, derives_R_iff, derives_A_iff]

/-- What the start symbol derives is a Dyck word. -/
theorem exists_dyckWord_of_derives (derivation : parentheses.Derives "S" word) :
    ∃ dyck, parenthesized dyck = word := by
  induction size : word.length using Nat.strongRecOn generalizing word with
  | ind length inductionHypothesis =>
      subst size
      obtain rfl | ⟨inner, derivesInner, rfl⟩ | ⟨left, right, derivesLeft, derivesRight, rfl⟩ :=
        derives_S_iff.mp derivation
      · exact ⟨.nest 0, rfl⟩
      · have shorter : inner.length < ('(' :: (inner ++ [')'])).length := by
          simp only [List.length_cons, List.length_append]
          omega
        obtain ⟨dyck, rfl⟩ := inductionHypothesis _ shorter derivesInner rfl
        exact ⟨dyck.nest, parenthesized_nest dyck⟩
      · have leftPositive := List.length_pos_iff.mpr derivesLeft.word_ne_nil
        have rightPositive := List.length_pos_iff.mpr derivesRight.word_ne_nil
        obtain ⟨first, rfl⟩ := inductionHypothesis _ (by simpa) derivesLeft rfl
        obtain ⟨second, rfl⟩ := inductionHypothesis _ (by simpa) derivesRight rfl
        exact ⟨first + second, parenthesized_add first second⟩

/-- The start symbol derives every Dyck word but the empty one. -/
theorem derives_of_dyckWord {dyck : DyckWord} (nonempty : dyck ≠ 0) :
    parentheses.Derives "S" (parenthesized dyck) := by
  induction size : dyck.semilength using Nat.strongRecOn generalizing dyck with
  | ind length inductionHypothesis =>
      subst size
      have pair : parentheses.Derives "S" (parenthesized dyck.insidePart.nest) := by
        rw [derives_S_iff, parenthesized_nest]
        by_cases empty : dyck.insidePart = 0
        · exact .inl (by rw [empty]; rfl)
        · have shorter := DyckWord.semilength_insidePart_lt nonempty
          have inside := inductionHypothesis _ shorter empty rfl
          exact .inr (.inl ⟨_, inside, rfl⟩)
      rw [← DyckWord.nest_insidePart_add_outsidePart nonempty]
      by_cases empty : dyck.outsidePart = 0
      · rwa [empty, add_zero]
      · have shorter := DyckWord.semilength_outsidePart_lt nonempty
        have outside := inductionHypothesis _ shorter empty rfl
        rw [derives_S_iff, parenthesized_add]
        exact .inr (.inr ⟨_, _, pair, outside, rfl⟩)

/-- The start symbol derives the Dyck words but the empty one. -/
theorem derives_parentheses_iff :
    parentheses.Derives "S" word ↔ word ≠ [] ∧ ∃ dyck, parenthesized dyck = word := by
  constructor
  · intro derivation
    exact ⟨derivation.word_ne_nil, exists_dyckWord_of_derives derivation⟩
  · rintro ⟨nonempty, dyck, rfl⟩
    exact derives_of_dyckWord (mt parenthesized_eq_nil_iff.mpr nonempty)

end Grammar

/-- A word of parentheses, however long it is, is parsed exactly when it is not empty, closes at no
point more parentheses than it has opened and closes as many as it opens in the end, which is what
counting the open ones finds out. -/
theorem parses_balanced_words (letters : ∀ character ∈ word, character = '(' ∨ character = ')') :
    ((parse? .parentheses word).isSome ↔
      word ≠ [] ∧ (∀ part, part <+: word → part.count ')' ≤ part.count '(') ∧
      word.count '(' = word.count ')') ∧
    (parse? .parentheses word).isSome = isBalanced word := by
  have start : Grammar.parentheses.start = "S" := rfl
  have parsed : (parse? .parentheses word).isSome ↔
      word ≠ [] ∧ (∀ part, part <+: word → part.count ')' ≤ part.count '(') ∧
      word.count '(' = word.count ')' := by
    rw [parse?, Chart.isSome_tree?_iff, start, Grammar.derives_parentheses_iff,
      exists_parenthesized_eq_iff]
    exact and_congr_right fun _ => and_iff_right letters
  exact ⟨parsed, Bool.eq_iff_iff.mpr (parsed.trans (isBalanced_iff letters).symm)⟩

/-- Nested pairs with another pair behind them are parsed; two pairs of which the second one is
closed before it is opened are not. -/
theorem parses_balanced_words_nested :
    let nested : Word := ['(', '(', ')', ')', '(', ')']
    let crossed : Word := ['(', ')', ')', '(']
    (∀ character ∈ nested, character = '(' ∨ character = ')') ∧
    (∀ character ∈ crossed, character = '(' ∨ character = ')') ∧
    (parse? .parentheses nested).isSome = true ∧ (parse? .parentheses crossed).isSome = false ∧
    crossed.count '(' = crossed.count ')' := by
  intro nested crossed
  have nestedLetters : ∀ character ∈ nested, character = '(' ∨ character = ')' := by
    simp [nested]
  have crossedLetters : ∀ character ∈ crossed, character = '(' ∨ character = ')' := by
    simp [crossed]
  have nestedBalanced : isBalanced nested = true := by decide
  have crossedUnbalanced : isBalanced crossed = false := by decide
  exact ⟨nestedLetters, crossedLetters,
    (parses_balanced_words nestedLetters).2.trans nestedBalanced,
    (parses_balanced_words crossedLetters).2.trans crossedUnbalanced, by decide⟩

end Chomsky
