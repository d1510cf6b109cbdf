import SparqlFormat.Grammar.Cut
import SparqlFormat.Grammar.Production

/-!
# Queries and updates

Whether a text is in the language is asked of a `Checker`. One of them is `Checker.grammar`: it
expands the text, cuts it and puts the tokens to the grammar. A pair of brackets that is empty but
for a comment counts as an empty pair, since comments are white space.

The prologue alone, and so the empty text, is an update that does nothing.
-/

namespace SparqlFormat.Grammar

/-- The two forms of text in the language. -/
inductive Form
  | query
  | update
  deriving DecidableEq

/-- What the texts of a form are derived from. -/
def Form.start : Form → Nonterminal
  | .query => .query
  | .update => .update

/-- Brackets that close right after they open, made one token. -/
def closeEmptyBrackets : List Token → List Token
  | .mark .openParen :: .mark .closeParen :: ts => .mark .emptyParens :: closeEmptyBrackets ts
  | .mark .openBracket :: .mark .closeBracket :: ts =>
    .mark .emptyBrackets :: closeEmptyBrackets ts
  | t :: ts => t :: closeEmptyBrackets ts
  | [] => []

/-- The form of a row of tokens. -/
def formOfTokens? (ts : List Token) : Option Form :=
  if ts.any isEscaped then none
  else if recognise sparql .query (closeEmptyBrackets ts) then some .query
  else if recognise sparql .update (closeEmptyBrackets ts) then some .update
  else none

/-- Whether a text is of a form. -/
def isForm (form : Form) (text : List Char) : Bool :=
  ((expandCodePoints text).bind cut).any fun row =>
    recognise sparql form.start (closeEmptyBrackets (row.map Stretch.token))

end SparqlFormat.Grammar

namespace SparqlFormat

/-- A parser of queries and one of updates, which say of a text why it is none. -/
structure Checker where
  query : List Char → Except String Unit
  update : List Char → Except String Unit

/-- The two parsers that the grammar gives. -/
def Checker.grammar : Checker where
  query text := if Grammar.isForm .query text then .ok () else .error "not a query"
  update text := if Grammar.isForm .update text then .ok () else .error "not an update"

end SparqlFormat
