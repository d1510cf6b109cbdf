import SparqlFormat.Token.Mark
import SparqlFormat.Token.Vocabulary

/-!
# Tokens

A token is what is left of a stretch of query text once spelling that carries no meaning is
dropped: keywords are in upper case, both sigils of a variable become one, an empty pair of
brackets forgets its blanks. What carries meaning is kept character for character: literals,
names and identifiers.

`Token.text` writes a token down. A layout puts these texts in a row and never looks inside them.
-/

namespace SparqlFormat

/-- The three shapes of number that the grammar tells apart. -/
inductive NumberKind
  | integer
  | decimal
  | double
  deriving DecidableEq

/-- A token of the query language. -/
inductive Token
  /-- A bracket, separator or operator. -/
  | mark (m : Mark)
  /-- A comment, without its sign and the white space around its body. -/
  | comment (body : List Char)
  /-- A number as it is written, sign included. -/
  | number (kind : NumberKind) (digits : List Char)
  /-- A language tag, without its sign. -/
  | language (tag : List Char)
  /-- A variable, without its sigil. -/
  | var (name : List Char)
  /-- A string literal as it is written, quotation marks included. -/
  | string (source : List Char)
  /-- A blank node label, without the underscore and colon before it. -/
  | blankNode (label : List Char)
  /-- A name with a colon in it, as it is written. -/
  | prefixed (name : List Char)
  /-- A truth value in lower case. -/
  | boolean (word : List Char)
  /-- A keyword in upper case. -/
  | keyword (word : List Char)
  /-- An identifier, without its angle brackets. -/
  | iri (body : List Char)
  deriving DecidableEq

namespace Token

/-- How a token is written. -/
def text : Token → List Char
  | mark m => m.text
  | comment body => if body.isEmpty then ['#'] else '#' :: ' ' :: body
  | number _ digits => digits
  | language tag => '@' :: tag
  | var name => '?' :: name
  | string source => source
  | blankNode label => '_' :: ':' :: label
  | prefixed name => name
  | boolean word => word
  | keyword word => if word == typeWord then ['a'] else word
  | iri body => '<' :: (body ++ ['>'])

/-- Whether a token is a comment. -/
def isComment : Token → Bool
  | comment _ => true
  | _ => false

/-- Whether a token is a given mark. -/
def isMark (m : Mark) : Token → Bool
  | mark m' => m' == m
  | _ => false

/-- Whether a token is one of the given keywords. -/
def isWord (ws : List (List Char)) : Token → Bool
  | keyword word => ws.contains word
  | _ => false

/-- Whether a token names a resource: an identifier or a prefixed name. -/
def isName : Token → Bool
  | iri _ => true
  | prefixed _ => true
  | _ => false

/-- Whether a token is a language tag. -/
def isLanguage : Token → Bool
  | language _ => true
  | _ => false

theorem isMark_iff (m : Mark) (t : Token) : t.isMark m = true ↔ t = mark m := by
  cases t <;> simp [isMark]

theorem isComment_iff (t : Token) : t.isComment = true ↔ ∃ body, t = comment body := by
  cases t <;> simp [isComment]

end Token

end SparqlFormat
