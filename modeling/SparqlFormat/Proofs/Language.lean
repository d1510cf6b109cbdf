import SparqlFormat.Grammar.Check
import SparqlFormat.Proofs.Terminals

/-!
# The language of queries and updates

What the standard says of a text (section 19 of SPARQL 1.1), without regard to how the library
reads one. The escapes of code points are expanded. The text is cut where the longest terminal
ends: the terminals are the regular expressions of the grammar, the marks, and the words that its
productions are made of, in either case. Blanks and comments stand between terminals. The row of
terminals is derived from the query or the update.

`Checker.Decides` says of two parsers that they accept this language. That those of
`Checker.grammar` do is proved in `Proofs/Cutting.lean`.
-/

namespace SparqlFormat

open Computability Terminals Grammar
open Lexeme (isIriChar lower upper)

/-! ## Strings and identifiers without code points -/

namespace Terminals

/-- IRIREF -/
def plainIdentifier : Language Char :=
  exactly ['<'] * ((one isIriChar)∗ * exactly ['>'])

/-- STRING_LITERAL1 and STRING_LITERAL2, by the mark. -/
def plainShortString (quote : Char) : Language Char :=
  exactly [quote] *
    ((one (fun c => !(c == quote || c == '\\' || isLineBreak c)) + escape)∗ * exactly [quote])

/-- STRING_LITERAL_LONG1 and STRING_LITERAL_LONG2, by the mark. -/
def plainLongString (quote : Char) : Language Char :=
  exactly [quote, quote, quote] *
    (((1 + (exactly [quote] + exactly [quote, quote])) *
      (one (fun c => !(c == quote || c == '\\')) + escape))∗ * exactly [quote, quote, quote])

/-- String -/
def plainString : Language Char :=
  plainShortString '\'' + plainShortString '"' + (plainLongString '\'' + plainLongString '"')

end Terminals

/-! ## Terminals -/

namespace Grammar

/-- The terminals that a rule is made of. -/
def Rule.terminals {N T : Type} : Rule N T → List T
  | .empty => []
  | .terminal t => [t]
  | .call _ => []
  | .seq r s => r.terminals ++ s.terminals
  | .alt r s => r.terminals ++ s.terminals
  | .star r => r.terminals
  | .opt r => r.terminals

/-- Whether a word stands in a production of the grammar. -/
def IsGrammarWord (w : List Char) : Prop :=
  ∃ n, Terminal.word w ∈ (production n).terminals

/-- What a token is written as. Words are written in either case, except for the lone letter that
is short for the type predicate. A comment is no token of the grammar. -/
def spellings : Token → Language Char
  | .mark .emptyParens => emptyBrackets '(' ')'
  | .mark .emptyBrackets => emptyBrackets '[' ']'
  | .mark m => exactly m.text
  | .comment _ => 0
  | .number kind digits => {w | w = digits ∧ w ∈ number kind}
  | .language tag => {w | w = '@' :: tag ∧ w ∈ languageTag}
  | .var name => {w | w ∈ variableName ∧ w.tail = name}
  | .string source => {w | w = source ∧ w ∈ plainString}
  | .blankNode label => {w | w = '_' :: ':' :: label ∧ w ∈ blankNodeLabel}
  | .prefixed name => {w | w = name ∧ w ∈ prefixedName}
  | .boolean word => {w | word ∈ booleanWords ∧ w.map lower = word}
  | .keyword word =>
    {w | IsGrammarWord word ∧ if word = typeWord then w = ['a'] else w.map upper = word}
  | .iri body => {w | w = '<' :: (body ++ ['>']) ∧ w ∈ plainIdentifier}

/-- Whether a text starts with a token that is written in the given way, and with none that is
longer. -/
structure IsTerminal (text : List Char) (t : Token) (s : List Char) : Prop where
  spelled : s ∈ spellings t
  atHead : s <+: text
  longest : ∀ u, ∀ v ∈ spellings u, v <+: text → v.length ≤ s.length

/-- The tokens of a text, each with what stands behind it. -/
inductive Cuts : List Char → List Stretch → Prop
  | done : Cuts [] []
  | blank {c : Char} {cs : List Char} {row : List Stretch} : isBlank c = true → Cuts cs row →
      Cuts (c :: cs) row
  | comment {body rest : List Char} {row : List Stretch} : (∀ c ∈ body, isLineBreak c = false) →
      (∀ c ∈ rest.head?, isLineBreak c = true) → Cuts rest row → Cuts ('#' :: (body ++ rest)) row
  | terminal {s rest : List Char} {t : Token} {row : List Stretch} : IsTerminal (s ++ rest) t s →
      Cuts rest row → Cuts (s ++ rest) (⟨t, rest⟩ :: row)

/-! ## Texts -/

/-- The tokens of a text whose escapes of code points are expanded first. -/
def CutsExpanded (text : List Char) (row : List Stretch) : Prop :=
  ∃ expanded, expandCodePoints text = some expanded ∧ Cuts expanded row

/-- Whether a text is of a form: a row of tokens that the grammar derives. -/
def InLanguage (form : Form) (text : List Char) : Prop :=
  ∃ row, CutsExpanded text row ∧
    Derives sparql (.call form.start) (closeEmptyBrackets (row.map Stretch.token))

end Grammar

/-- The two parsers accept the queries and the updates of the standard. -/
structure Checker.Decides (checker : Checker) : Prop where
  query_iff : ∀ text, checker.query text = .ok () ↔ InLanguage .query text
  update_iff : ∀ text, checker.update text = .ok () ↔ InLanguage .update text

end SparqlFormat
