import Chomsky.Text.Blank

/-!
# Tokens of a rule line

A line is cut at every arrow and every bar. The text between two cuts is a
token of its own, trimmed, unless it is blank. No character is ever refused.
-/

namespace Chomsky

/-- A lexical unit of a rule line. -/
inductive Token where
  /-- The arrow between a symbol and its alternatives. -/
  | arrow
  /-- The bar between two alternatives. -/
  | bar
  /-- Trimmed text that is not blank. -/
  | text (content : String)
deriving DecidableEq, Repr

namespace Token

/-- The token made of the text between two cuts, if it is not blank. -/
def ofText (text : List Char) : List Token :=
  match trim text with
  | [] => []
  | content => [.text (String.ofList content)]

/-- The tokens of a line of which the characters in `pending`, the latest
first, have been read since the last cut. -/
def scanFrom (pending : List Char) : List Char → List Token
  | [] => ofText pending.reverse
  | '-' :: '>' :: rest => ofText pending.reverse ++ arrow :: scanFrom [] rest
  | '|' :: rest => ofText pending.reverse ++ bar :: scanFrom [] rest
  | character :: rest => scanFrom (character :: pending) rest

/-- The tokens of a line. -/
def scan (line : String) : List Token :=
  scanFrom [] line.toList

end Token

end Chomsky
