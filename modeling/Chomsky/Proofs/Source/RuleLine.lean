import Chomsky.Proofs.Source.Token
import Chomsky.Proofs.Text.Pieces
import Chomsky.Source.RuleLine

/-!
# Rules that can be written down

A rule is legible when its symbol and its alternatives can be written on rule
lines. The rule that a line spells is legible (`Rule.legible_of_ofLine`), and
each alternative of a legible rule is spelled by the line that defines it alone
(`Rule.ofLine_definitionText`).
-/

namespace Chomsky

universe u v w

variable {line : String}

/-- Values are collected from a list exactly when every entry gives its own. -/
theorem mapM_eq_ok_iff {ε : Type u} {α : Type v} {β : Type w} {f : α → Except ε β}
    {list : List α} {values : List β} :
    list.mapM f = .ok values ↔ list.map f = values.map .ok := by
  induction list generalizing values with
  | nil => cases values <;> simp [pure, Except.pure]
  | cons entry rest inductionHypothesis =>
      rw [List.mapM_cons, List.map_cons]
      cases first : f entry with
      | error fault => cases values <;> simp [bind, Except.bind]
      | ok value =>
          cases later : rest.mapM f with
          | error fault =>
              cases values <;> simp [bind, Except.bind, ← inductionHypothesis, later]
          | ok others =>
              cases values <;>
                simp [bind, Except.bind, pure, Except.pure, ← inductionHypothesis, later]

/-- What text on a rule line may be. -/
structure IsWritable (text : String) : Prop where
  isContent : Token.IsContent text
  unbroken : '\n' ∉ text.toList

/-- An alternative that a text on a rule line spells. -/
structure Alternative.Legible (alternative : Alternative) : Prop where
  writable : IsWritable alternative.text
  spelled : Alternative.ofText alternative.text = alternative

/-- A rule that can be written on rule lines. -/
structure Rule.Legible (rule : Rule) : Prop where
  writable : IsWritable rule.symbol
  visible : rule.symbol.toList.head? ≠ some ';'
  defined : rule.alternatives ≠ []
  legible : ∀ alternative ∈ rule.alternatives, alternative.Legible

/-- Text that is scanned on an unbroken line may stand on one. -/
theorem isWritable_of_mem_scan {content : String} (member : .text content ∈ Token.scan line)
    (unbroken : '\n' ∉ line.toList) : IsWritable content := by
  obtain ⟨isContent, inside⟩ := Token.isContent_of_mem_scanFrom member
  exact ⟨isContent, fun newline => unbroken (inside.subset newline)⟩

/-- The alternative that a writable text spells is legible. -/
theorem Alternative.legible_ofText {content : String} (writable : IsWritable content) :
    (Alternative.ofText content).Legible where
  writable := by rwa [text_ofText]
  spelled := by rw [text_ofText]

/-- Alternatives that are added up stay legible. -/
theorem Rule.Legible.append {symbol : String} {first second : List Alternative}
    (firstLegible : Rule.Legible ⟨symbol, first⟩) (secondLegible : Rule.Legible ⟨symbol, second⟩) :
    Rule.Legible ⟨symbol, first ++ second⟩ where
  writable := firstLegible.writable
  visible := firstLegible.visible
  defined := List.append_ne_nil_of_left_ne_nil firstLegible.defined second
  legible := by
    intro alternative member
    rcases List.mem_append.mp member with inFirst | inSecond
    · exact firstLegible.legible alternative inFirst
    · exact secondLegible.legible alternative inSecond

/-- An alternative is spelled by a single text. -/
theorem Alternative.ofTokens_eq_ok_iff {tokens : List Token} {alternative : Alternative} :
    Alternative.ofTokens tokens = .ok alternative ↔
      ∃ content, tokens = [.text content] ∧ alternative = .ofText content := by
  rcases tokens with _ | ⟨_ | _ | content, _ | _⟩ <;>
    simp [Alternative.ofTokens, eq_comm]

/-- A rule is spelled by a symbol, an arrow, and its alternatives with bars between
them. -/
theorem Rule.ofTokens_eq_ok_iff {tokens : List Token} {rule : Rule} :
    Rule.ofTokens tokens = .ok rule ↔
      ∃ rest, tokens = .text rule.symbol :: .arrow :: rest ∧
        (pieces Token.bar rest).map Alternative.ofTokens = rule.alternatives.map .ok := by
  constructor
  · intro ok
    unfold Rule.ofTokens at ok
    split at ok
    · next symbol rest =>
        split at ok
        · next alternatives collected =>
            obtain rfl := Except.ok.inj ok
            exact ⟨rest, rfl, mapM_eq_ok_iff.mp collected⟩
        · cases ok
    · cases ok
    · cases ok
  · rintro ⟨rest, rfl, each⟩
    rw [Rule.ofTokens, mapM_eq_ok_iff.mpr each]

/-- A line spells a rule unless it is blank or starts with a semicolon. -/
theorem isRuleLine_iff :
    isRuleLine line = true ↔
      ∃ first, (trimLeft line.toList).head? = some first ∧ first ≠ ';' := by
  rw [isRuleLine]
  cases trimLeft line.toList <;> simp

/-- The rule that an unbroken rule line spells is legible. -/
theorem Rule.legible_of_ofLine {rule : Rule} (ok : Rule.ofLine line = .ok rule)
    (isRule : isRuleLine line = true) (unbroken : '\n' ∉ line.toList) : rule.Legible := by
  obtain ⟨rest, scanned, each⟩ := Rule.ofTokens_eq_ok_iff.mp ok
  refine ⟨isWritable_of_mem_scan (scanned ▸ List.mem_cons_self) unbroken, ?_, ?_, ?_⟩
  · obtain ⟨first, start, visible⟩ := isRuleLine_iff.mp isRule
    rw [Token.head?_of_scanFrom_eq scanned, start]
    exact fun same => visible (Option.some.inj same)
  · intro none
    rw [none, List.map_nil, List.map_eq_nil_iff] at each
    exact pieces_ne_nil rest each
  · intro alternative member
    have collected : .ok alternative ∈ (pieces Token.bar rest).map Alternative.ofTokens := by
      rw [each]
      exact List.mem_map_of_mem member
    obtain ⟨piece, inPieces, spelled⟩ := List.mem_map.mp collected
    obtain ⟨content, rfl, rfl⟩ := Alternative.ofTokens_eq_ok_iff.mp spelled
    have inRest : .text content ∈ rest :=
      (isInfix_of_mem_pieces inPieces).subset List.mem_cons_self
    apply Alternative.legible_ofText
    apply isWritable_of_mem_scan _ unbroken
    rw [scanned]
    exact List.mem_cons_of_mem _ (List.mem_cons_of_mem _ inRest)

/-- The line that defines one alternative of a symbol. -/
def definitionText (symbol : String) (alternative : Alternative) : String :=
  symbol ++ " -> " ++ alternative.text

variable {symbol : String} {alternative : Alternative}

/-- The only alternative of a legible rule is legible. -/
theorem Rule.Legible.single (legible : Rule.Legible ⟨symbol, [alternative]⟩) :
    alternative.Legible :=
  legible.legible alternative List.mem_cons_self

/-- The line that defines an alternative is cut at its one arrow. -/
theorem scan_definitionText (legible : Rule.Legible ⟨symbol, [alternative]⟩) :
    Token.scan (definitionText symbol alternative) =
      [.text symbol, .arrow, .text alternative.text] := by
  have blank : ∀ character ∈ [' '], isBlank character = true :=
    List.forall_mem_singleton.mpr rfl
  have shape : (definitionText symbol alternative).toList =
      (symbol.toList ++ [' ']) ++ (Token.arrow.spelling ++ ([' '] ++ alternative.text.toList)) := by
    simp [definitionText, Token.spelling]
  rw [Token.scan, shape, Token.scanFrom_append_delimiter Token.isDelimiter_arrow,
    Token.scanFrom_append_blank blank, Token.scanFrom_blank_append blank,
    legible.writable.isContent.scanFrom_eq, legible.single.writable.isContent.scanFrom_eq,
    List.singleton_append]

/-- The line that defines an alternative of a symbol spells just that. -/
theorem Rule.ofLine_definitionText (legible : Rule.Legible ⟨symbol, [alternative]⟩) :
    Rule.ofLine (definitionText symbol alternative) = .ok ⟨symbol, [alternative]⟩ := by
  rw [Rule.ofLine, scan_definitionText legible, Rule.ofTokens_eq_ok_iff]
  refine ⟨[.text alternative.text], rfl, ?_⟩
  rw [← legible.single.spelled]
  simp [pieces, Alternative.ofTokens]

/-- The line that defines an alternative is a rule line. -/
theorem isRuleLine_definitionText (legible : Rule.Legible ⟨symbol, [alternative]⟩) :
    isRuleLine (definitionText symbol alternative) = true := by
  have nonempty : symbol.toList ≠ [] := legible.writable.isContent.nonempty
  obtain ⟨first, others, shape⟩ := List.exists_cons_of_ne_nil nonempty
  have start : symbol.toList.head? = some first := by rw [shape, List.head?_cons]
  rw [isRuleLine_iff]
  refine ⟨first, ?_, fun same => legible.visible (same ▸ start)⟩
  have notBlank := legible.writable.isContent.trimmed.first first start
  simp [definitionText, shape, trimLeft, notBlank]

/-- The line that defines an alternative is not broken. -/
theorem newline_notMem_definitionText (legible : Rule.Legible ⟨symbol, [alternative]⟩) :
    '\n' ∉ (definitionText symbol alternative).toList := by
  have symbolUnbroken : '\n' ∉ symbol.toList := legible.writable.unbroken
  simp [definitionText, symbolUnbroken, legible.single.writable.unbroken]

/-- The line that defines an alternative has no carriage return at its end. -/
theorem getLast?_definitionText_ne (legible : Rule.Legible ⟨symbol, [alternative]⟩) :
    (definitionText symbol alternative).toList.getLast? ≠ some '\r' := by
  have isContent := legible.single.writable.isContent
  intro last
  have kept : alternative.text.toList.getLast? = some '\r' := by
    rwa [definitionText, String.toList_append, List.getLast?_append,
      Option.or_of_isSome (by simp [isContent.nonempty])] at last
  exact absurd (isContent.trimmed.last '\r' kept) (by decide)

end Chomsky
