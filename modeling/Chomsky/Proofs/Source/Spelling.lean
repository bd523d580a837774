import Mathlib.Data.List.Chain
import Chomsky.Proofs.Source.Token

/-!
# Spelling tokens back

Tokens that were scanned from a line can be spelled one behind the other, with nothing in between,
and are scanned again as they were (`tokens_spell_back`). This holds of all tokens that are
`Spellable`: a delimiter stands between any two texts, and each text is as the text of a token may
be. A delimiter is cut off wherever it stands, so none of its joints makes another token, whether
the text in front of an arrow ends in a dash or the text behind one starts with an arrow's head.
-/

namespace Chomsky

namespace Token

/-- Two tokens that may stand side by side: they are not both text. -/
def MayMeet (first second : Token) : Prop :=
  IsDelimiter first ∨ IsDelimiter second

/-- The tokens that a line can have: each text is as it may be, and no two of them stand side by
side. -/
structure Spellable (tokens : List Token) : Prop where
  content : ∀ content, .text content ∈ tokens → IsContent content
  apart : tokens.IsChain MayMeet

/-- The spellings of tokens one behind the other. -/
def spell (tokens : List Token) : String :=
  String.ofList (tokens.flatMap spelling)

variable {text : List Char} {token delimiter : Token} {tokens : List Token}

/-- The tokens behind the first one are spellable as well. -/
theorem Spellable.tail (spellable : Spellable (token :: tokens)) : Spellable tokens where
  content := fun content member => spellable.content content (List.mem_cons_of_mem token member)
  apart := spellable.apart.tail

/-- The text between two cuts has no neighbour. -/
theorem isChain_ofText (text : List Char) (related : Token → Token → Prop) :
    (ofText text).IsChain related := by
  rw [ofText]
  split
  · exact List.isChain_nil
  · exact List.isChain_singleton _

/-- A delimiter keeps apart what stands in front of it and behind it. -/
theorem isChain_append_delimiter {before after : List Token} (isDelimiter : IsDelimiter delimiter)
    (first : before.IsChain MayMeet) (second : after.IsChain MayMeet) :
    (before ++ delimiter :: after).IsChain MayMeet := by
  apply first.append (second.cons fun _ _ => .inl isDelimiter)
  intro last _ head here
  rw [List.head?_cons, Option.mem_some_iff] at here
  exact .inr (here ▸ isDelimiter)

/-- The tokens of a line are spellable. -/
theorem spellable_scanFrom (text : List Char) : Spellable (scanFrom [] text) where
  content := fun _ member => (isContent_of_mem_scanFrom member).1
  apart := by
    induction text using cutInduction with
    | plain text plain =>
        rw [scanFrom_nil_of_plain plain]
        exact isChain_ofText text _
    | cut before delimiter after plain isDelimiter inductionHypothesis =>
        rw [scanFrom_nil_append_delimiter plain isDelimiter]
        exact isChain_append_delimiter isDelimiter (isChain_ofText before _) inductionHypothesis

/-- A delimiter at the front of a line is scanned first. -/
theorem scanFrom_delimiter (isDelimiter : IsDelimiter delimiter) (after : List Char) :
    scanFrom [] (delimiter.spelling ++ after) = delimiter :: scanFrom [] after :=
  scanFrom_append_delimiter isDelimiter [] [] after

/-- Spellable tokens are scanned from their spellings. -/
theorem Spellable.scanFrom_flatMap_spelling (spellable : Spellable tokens) :
    scanFrom [] (tokens.flatMap spelling) = tokens := by
  induction tokens with
  | nil => rfl
  | cons token rest inductionHypothesis =>
      have later := inductionHypothesis spellable.tail
      rw [List.flatMap_cons]
      cases token with
      | arrow => rw [scanFrom_delimiter isDelimiter_arrow, later]
      | bar => rw [scanFrom_delimiter isDelimiter_bar, later]
      | text content =>
          have alone : scanFrom [] (text content).spelling = [text content] :=
            (spellable.content content List.mem_cons_self).scanFrom_eq
          cases rest with
          | nil => rwa [List.flatMap_nil, List.append_nil]
          | cons next others =>
              -- A text only ends where something is cut off behind it.
              have isDelimiter : IsDelimiter next :=
                (List.isChain_cons_cons.mp spellable.apart).1.resolve_left id
              rw [List.flatMap_cons, scanFrom_delimiter isDelimiter] at later
              rw [List.flatMap_cons, scanFrom_append_delimiter isDelimiter, alone, later,
                List.singleton_append]

/-- Spellable tokens are what a line is scanned as that spells them. -/
theorem Spellable.scan_spell (spellable : Spellable tokens) : scan (spell tokens) = tokens := by
  rw [scan, spell, String.toList_ofList]
  exact spellable.scanFrom_flatMap_spelling

end Token

/-- In the tokens of a line a delimiter stands between any two texts, and no text is empty, has a
blank at either end or holds an arrow or a bar. All tokens of which this holds are scanned again
when their spellings are put together with nothing in between, and so are the tokens of a line. -/
theorem tokens_spell_back :
    (∀ line : String, Token.Spellable (Token.scan line)) ∧
    (∀ tokens : List Token, Token.Spellable tokens → Token.scan (Token.spell tokens) = tokens) ∧
    ∀ line : String, Token.scan (Token.spell (Token.scan line)) = Token.scan line := by
  have spellable (line : String) : Token.Spellable (Token.scan line) :=
    Token.spellable_scanFrom line.toList
  exact ⟨spellable, fun _ => Token.Spellable.scan_spell,
    fun line => (spellable line).scan_spell⟩

/-- No joint of these makes an arrow of its own: a dash in front of an arrow, an arrow's head behind
one, and arrows that touch. -/
theorem tokens_spell_back_at_joints :
    Token.Spellable [.bar, .text "a-", .arrow, .text ">-", .arrow, .arrow, .text "> -"] ∧
      Token.scan "|a-->>-->->> -" =
        [.bar, .text "a-", .arrow, .text ">-", .arrow, .arrow, .text "> -"] := by
  have spellable : Token.Spellable
      [.bar, .text "a-", .arrow, .text ">-", .arrow, .arrow, .text "> -"] := by
    refine ⟨fun content member => ?content, ?apart⟩
    case content =>
      have checked : ∀ content ∈ ["a-", ">-", "> -"],
          content.toList ≠ [] ∧ trim content.toList = content.toList ∧
            '|' ∉ content.toList ∧ ¬ ['-', '>'] <:+: content.toList := by decide
      obtain ⟨nonempty, trimmed, bar, arrow⟩ := checked content (by simpa using member)
      exact ⟨nonempty, trimmed ▸ isTrimmed_trim content.toList, ⟨bar, arrow⟩⟩
    case apart => simp [Token.MayMeet, Token.IsDelimiter]
  have spelled : Token.spell [.bar, .text "a-", .arrow, .text ">-", .arrow, .arrow, .text "> -"] =
      "|a-->>-->->> -" := by decide
  exact ⟨spellable, spelled ▸ tokens_spell_back.2.1 _ spellable⟩

end Chomsky
