import SparqlFormat.Token.Basic

/-!
# Terminals of the grammar

The grammar looks at a token through a `Terminal`: a mark, a keyword, or a class of names and
literals. Most classes are the token's own; three look into its text. A prefix that is declared
is a prefixed name with nothing after its colon. Limits and offsets are integers without a sign.
A number with a sign can continue a sum on its own.
-/

namespace SparqlFormat.Grammar

/-- What the grammar can ask of a token. -/
inductive Terminal
  | mark (m : Mark)
  | word (w : List Char)
  | var
  | iri
  | prefixedName
  | declaredPrefix
  | string
  | language
  | number
  | unsignedInteger
  | signedNumber
  | boolean
  | blankNode

/-- Whether the first colon of a name is its last character. -/
def endsAtColon (name : List Char) : Bool :=
  name.dropWhile (fun c => c != ':') == [':']

/-- Whether a number is written with a sign. -/
def hasSign (digits : List Char) : Bool :=
  digits.head? == some '+' || digits.head? == some '-'

/-- Whether a terminal covers a token. -/
def Terminal.covers : Terminal → Token → Bool
  | .mark m, t => t.isMark m
  | .word w, .keyword w' => w' == w
  | .var, .var _ => true
  | .iri, .iri _ => true
  | .prefixedName, .prefixed _ => true
  | .declaredPrefix, .prefixed name => endsAtColon name
  | .string, .string _ => true
  | .language, .language _ => true
  | .number, .number _ _ => true
  | .unsignedInteger, .number .integer digits => !hasSign digits
  | .signedNumber, .number _ digits => hasSign digits
  | .boolean, .boolean _ => true
  | .blankNode, .blankNode _ => true
  | _, _ => false

end SparqlFormat.Grammar
