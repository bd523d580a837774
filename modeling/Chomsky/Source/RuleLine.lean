import Chomsky.Grammar.Basic
import Chomsky.Source.Token
import Chomsky.Text.Pieces

/-!
# Rule lines

A rule line is a symbol, an arrow and the alternatives with bars between them.
A line whose first visible character is a semicolon is a comment, and blank
lines and comments define nothing. Faults are looked for from left to right,
and the first one found is the one reported.
-/

namespace Chomsky

/-- What can be wrong with a rule line. -/
inductive LineFault where
  /-- The line does not start with the symbol being defined. -/
  | missingNonterminal
  /-- The symbol is not followed by an arrow. -/
  | missingArrow
  /-- There is another arrow among the alternatives. -/
  | unexpectedArrow
  /-- There is nothing on one side of a bar, or after the arrow. -/
  | emptyAlternative
deriving DecidableEq, Repr

namespace LineFault

/-- The wording of a fault. -/
def message : LineFault → String
  | missingNonterminal => "Expected a nonterminal before `->`"
  | missingArrow => "Expected `->` after nonterminal"
  | unexpectedArrow => "Unexpected `->` encountered"
  | emptyAlternative => "Empty alternative"

end LineFault

/-- The alternative that the tokens between two bars spell. Text is never next
to text, so more than one token means that there is an arrow among them. -/
def Alternative.ofTokens : List Token → Except LineFault Alternative
  | [] => .error .emptyAlternative
  | [.text content] => .ok (.ofText content)
  | _ => .error .unexpectedArrow

/-- The rule that the tokens of a line spell. -/
def Rule.ofTokens : List Token → Except LineFault Rule
  | .text symbol :: .arrow :: rest =>
      match (pieces Token.bar rest).mapM Alternative.ofTokens with
      | .ok alternatives => .ok ⟨symbol, alternatives⟩
      | .error fault => .error fault
  | .text _ :: _ => .error .missingArrow
  | _ => .error .missingNonterminal

/-- The rule that a line spells. -/
def Rule.ofLine (line : String) : Except LineFault Rule :=
  Rule.ofTokens (Token.scan line)

/-- Whether a line is meant to spell a rule: it is not blank, and what it
starts with is not a semicolon. -/
def isRuleLine (line : String) : Bool :=
  match trimLeft line.toList with
  | [] => false
  | first :: _ => first != ';'

end Chomsky
