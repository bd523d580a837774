/-!
# Alternatives of a rule

An alternative in Chomsky normal form is one terminal character or two
nonterminals with one-character names, so its length in characters decides its
kind. Any other text is kept as written but never takes part in a derivation.
-/

namespace Chomsky

/-- One way to replace a nonterminal. -/
inductive Alternative where
  /-- The single character `character`. -/
  | terminal (character : Char)
  /-- Two nonterminals, each named by one character. -/
  | pair (left right : Char)
  /-- A text that is not in normal form. -/
  | unsupported (text : String)
deriving DecidableEq, Repr

namespace Alternative

/-- The alternative that a text spells: the number of its characters decides. -/
def ofText (text : String) : Alternative :=
  match text.toList with
  | [character] => terminal character
  | [left, right] => pair left right
  | _ => unsupported text

/-- The text that spells an alternative. -/
def text : Alternative → String
  | terminal character => String.singleton character
  | pair left right => String.ofList [left, right]
  | unsupported text => text

/-- The character that an alternative stands for, if it is terminal. -/
def terminal? : Alternative → Option Char
  | terminal character => some character
  | _ => none

/-- The two names of an alternative, if it is a pair. -/
def pair? : Alternative → Option (Char × Char)
  | pair left right => some (left, right)
  | _ => none

/-- Whether an alternative is in Chomsky normal form. -/
def isNormal : Alternative → Bool
  | unsupported _ => false
  | _ => true

/-- Reading an alternative keeps its text. -/
@[simp] theorem text_ofText (text : String) : (ofText text).text = text := by
  unfold ofText
  split
  · next character shape =>
      exact String.toList_injective (by simp [Alternative.text, shape])
  · next left right shape =>
      exact String.toList_injective (by simp [Alternative.text, shape])
  · rfl

/-- A text of one character is read as that character. -/
@[simp] theorem ofText_singleton (character : Char) :
    ofText (String.singleton character) = terminal character := by
  simp [ofText]

/-- A text of two characters is read as the pair of them. -/
@[simp] theorem ofText_pair (left right : Char) :
    ofText (String.ofList [left, right]) = pair left right := by
  simp [ofText]

end Alternative

end Chomsky
