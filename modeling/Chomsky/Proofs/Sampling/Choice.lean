import Chomsky.Sampling.Choice
import Chomsky.Grammar.Alternative

/-!
# What a choice yields

A choice is one of the candidates whenever there is one at all. Whether there is
one depends on the source: it decides when no list of candidates is ever left
without a choice. Sources that list words decide, since their words come back to
zero, which no list refuses.
-/

namespace Chomsky

universe u

namespace Supply

variable {α : Type u} {supply after : Supply} {candidates : List α} {count : Nat}

/-- Picking looks at words of the same source. -/
theorem source_pickWithin (patience : Nat) :
    (supply.pickWithin count patience).2.source = supply.source := by
  induction patience generalizing supply with
  | zero => rfl
  | succ patience inductionHypothesis =>
      rw [pickWithin]
      split
      · rfl
      · exact inductionHypothesis

/-- Choosing leaves a supply of the same source. -/
theorem source_of_choose {chosen : Option α} (choice : supply.choose candidates = (chosen, after)) :
    after.source = supply.source := by
  have picked : (supply.pick candidates.length).2.source = supply.source :=
    source_pickWithin supply.source.patience
  rw [choose] at choice
  split at choice
  · next pickEq =>
      cases choice
      rwa [pickEq] at picked
  · next pickEq =>
      cases choice
      rwa [pickEq] at picked

/-- A choice is one of the candidates. -/
theorem mem_of_choose {element : α} (choice : supply.choose candidates = (some element, after)) :
    element ∈ candidates := by
  rw [choose] at choice
  split at choice
  · exact List.mem_of_getElem? (Prod.ext_iff.mp choice).1
  · exact absurd (Prod.ext_iff.mp choice).1 (by simp)

/-- A pick among some candidates is a position of one of them. -/
theorem lt_of_pickWithin {patience position : Nat} (positive : 0 < count)
    (picked : (supply.pickWithin count patience).1 = some position) : position < count := by
  induction patience generalizing supply with
  | zero => simp [pickWithin] at picked
  | succ patience inductionHypothesis =>
      rw [pickWithin] at picked
      split at picked
      · obtain rfl := Option.some.inj picked
        exact pickOf_lt positive supply.next
      · exact inductionHypothesis picked

/-- Something is chosen from a list that is not empty as soon as a position is
picked. -/
theorem isSome_choose (nonempty : candidates ≠ [])
    (picked : (supply.pick candidates.length).1.isSome) : (supply.choose candidates).1.isSome := by
  rw [choose]
  split
  · next position after pickEq =>
      have inside : position < candidates.length :=
        lt_of_pickWithin (List.length_pos_iff.mpr nonempty)
          (congrArg Prod.fst pickEq)
      simp [inside]
  · next after pickEq => simp [pickEq] at picked

/-- A position is picked when one of the words that are looked at is accepted. -/
theorem isSome_pickWithin {patience offset : Nat} (near : offset < patience)
    (accepted : accepts count (supply.source.word (supply.drawn + offset)) = true) :
    (supply.pickWithin count patience).1.isSome := by
  induction patience generalizing supply offset with
  | zero => omega
  | succ patience inductionHypothesis =>
      rw [pickWithin]
      split
      · rfl
      · next refused =>
          cases offset with
          | zero => exact absurd accepted refused
          | succ offset =>
              have position : supply.drawn + (offset + 1) = supply.rest.drawn + offset := by
                rw [drawn_rest]
                omega
              rw [position] at accepted
              exact inductionHypothesis (Nat.lt_of_succ_lt_succ near) accepted

end Supply

namespace WordSource

/-- From every position on, the source gives a choice among any candidates. -/
def Decides (source : WordSource) : Prop :=
  ∀ (drawn : Nat) (candidates : List Alternative), candidates ≠ [] →
    ((⟨source, drawn⟩ : Supply).choose candidates).1.isSome

/-- The word zero is accepted for every number of candidates. -/
theorem accepts_zero (count : Nat) : accepts count 0 = true := by
  simp [accepts]

/-- Behind the listed words, every word whose position is a multiple of the
number of words is zero. -/
theorem word_listed_eq_zero {words : Array UInt32} {factor : Nat}
    (behind : words.size ≤ wordCount * factor) :
    (listed words).word (wordCount * factor) = 0 := by
  have beyond : (listed words).word (wordCount * factor) =
      UInt32.ofNat (wordCount * factor * stride) := by
    simp only [listed, Array.getD_eq_getD_getElem?, Array.getElem?_eq_none behind,
      Option.getD_none]
  rw [beyond, Nat.mul_assoc, ← UInt32.toNat_inj, UInt32.toNat_ofNat']
  exact Nat.mul_mod_right wordCount (factor * stride)

/-- A source of listed words decides. -/
theorem decides_listed (words : Array UInt32) : (listed words).Decides := by
  intro drawn candidates nonempty
  apply Supply.isSome_choose nonempty
  -- The first multiple of the number of words behind the list is near enough.
  obtain ⟨factor, behind, near⟩ : ∃ factor, max drawn words.size ≤ wordCount * factor ∧
      wordCount * factor < max drawn words.size + wordCount := by
    have division := Nat.div_add_mod (max drawn words.size + wordCount - 1) wordCount
    have remainder : (max drawn words.size + wordCount - 1) % wordCount < wordCount :=
      Nat.mod_lt _ (by decide)
    exact ⟨(max drawn words.size + wordCount - 1) / wordCount, by omega, by omega⟩
  rw [Nat.max_le] at behind
  have within : wordCount * factor - drawn < (listed words).patience := by
    change _ < words.size + wordCount
    omega
  apply Supply.isSome_pickWithin within
  change accepts _ ((listed words).word (drawn + (wordCount * factor - drawn))) = true
  rw [Nat.add_sub_cancel' behind.1, word_listed_eq_zero behind.2]
  exact accepts_zero _

end WordSource

end Chomsky
