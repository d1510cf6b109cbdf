import SparqlFormat.Lexeme.Literal
import SparqlFormat.Lexeme.Name
import SparqlFormat.Lexeme.Number
import SparqlFormat.Text.Blank
import SparqlFormat.Token.Basic

/-!
# The token at the head of a text

`first` reads one token off a text that starts with neither a blank nor a comment. Its first
character decides which terminal is tried; where that terminal does not match, either a shorter
mark is left (`<` for an identifier that does not close) or no token starts here (`Fault`).

A dot is read as a mark even before a digit, so that `.5` is a dot and a number. The grammar of
the language has numbers that start with their point; they are read as such only where
`pointFirst` asks for it.
-/

namespace SparqlFormat.Lexeme

/-- Why no token starts at a place. -/
inductive Fault
  | unexpectedCharacter
  | invalidVariable
  | invalidLanguageTag
  | unclosedString
  | invalidBlankNode
  | unknownWord
  deriving DecidableEq

/-- The fault as messages name it. -/
def Fault.describe : Fault → String
  | .unexpectedCharacter => "Unexpected character"
  | .invalidVariable => "Invalid variable name"
  | .invalidLanguageTag => "Invalid language tag"
  | .unclosedString => "Found EOF in string literal"
  | .invalidBlankNode => "Invalid blank node label"
  | .unknownWord => "Expecting keyword"

/-- A token and the characters it is read from. -/
abbrev Reading := Token × List Char

/-- The characters that are marks wherever they stand. -/
def lone? : Char → Option Mark
  | ',' => some .comma
  | '.' => some .dot
  | '=' => some .equal
  | '{' => some .openBrace
  | '}' => some .closeBrace
  | ']' => some .closeBracket
  | ')' => some .closeParen
  | ';' => some .semicolon
  | '/' => some .slash
  | '*' => some .star
  | _ => none

/-- The operator of two characters, or of one, that starts with the given character. -/
def operator? (c : Char) (next : Option Char) : Option Mark :=
  match c, next with
  | '^', some '^' => some .typed
  | '!', some '=' => some .notEqual
  | '<', some '=' => some .atMost
  | '>', some '=' => some .atLeast
  | '&', some '&' => some .both
  | '|', some '|' => some .either
  | '^', _ => some .caret
  | '!', _ => some .bang
  | '<', _ => some .below
  | '>', _ => some .above
  | '|', _ => some .bar
  | _, _ => none

/-- A mark read from its own text. -/
def ofMark (m : Mark) : Reading :=
  (.mark m, m.text)

/-- A pair of brackets with blanks only between them, or else the opening one alone. -/
def bracket (empty alone : Mark) (opening closing : Char) (cs : List Char) : Reading :=
  match cs.dropWhile isBlank with
  | [] => ofMark alone
  | c :: _ =>
    if c == closing then (.mark empty, opening :: (cs.takeWhile isBlank ++ [closing]))
    else ofMark alone

/-- An operator whose first character is given, if there is one. -/
def operator (c : Char) (cs : List Char) : Except Fault Reading :=
  match operator? c cs.head? with
  | some m => .ok (ofMark m)
  | none => .error .unexpectedCharacter

/-- An identifier, given the text after its angle bracket; where none closes, an operator. -/
def identifierOrOperator (cs : List Char) : Except Fault Reading :=
  match iriBody? cs with
  | some body => .ok (.iri body, '<' :: (body ++ ['>']))
  | none => operator '<' cs

/-- A letter in upper case, ASCII letters alone. -/
def upper (c : Char) : Char :=
  if 0x61 ≤ c.toNat ∧ c.toNat ≤ 0x7A then Char.ofNat (c.toNat - 0x20) else c

/-- A letter in lower case, ASCII letters alone. -/
def lower (c : Char) : Char :=
  if 0x41 ≤ c.toNat ∧ c.toNat ≤ 0x5A then Char.ofNat (c.toNat + 0x20) else c

/-- The token that a word is: a keyword in either case, the lone letter `a`, a truth value. -/
def ofWord (w : List Char) : Except Fault Token :=
  if keywords.contains (w.map upper) then .ok (.keyword (w.map upper))
  else if w == ['a'] then .ok (.keyword typeWord)
  else if booleanWords.contains (w.map lower) then .ok (.boolean (w.map lower))
  else .error .unknownWord

/-- A word at the head of a text. -/
def word (cs : List Char) : Except Fault Reading :=
  match word? cs with
  | none => .error .unexpectedCharacter
  | some w =>
    match ofWord w with
    | .ok t => .ok (t, w)
    | .error f => .error f

/-- A prefixed name, or else a word. -/
def nameOrWord (cs : List Char) : Except Fault Reading :=
  match prefixedName? cs with
  | some name => .ok (.prefixed name, name)
  | none => word cs

/-- A number, or else the sign alone. -/
def numberOrSign (c : Char) (cs : List Char) : Except Fault Reading :=
  match number? (c :: cs) with
  | some (kind, digits) => .ok (.number kind digits, digits)
  | none =>
    if c == '+' then .ok (ofMark .plus)
    else if c == '-' then .ok (ofMark .minus)
    else .error .unexpectedCharacter

/-- A variable, given its sigil; a question mark without a name is a mark. -/
def variableOrQuestion (sigil : Char) (cs : List Char) : Except Fault Reading :=
  match variableName? cs with
  | some name => .ok (.var name, sigil :: name)
  | none => if sigil == '?' then .ok (ofMark .question) else .error .invalidVariable

/-- A language tag, given the text after its sign. -/
def languageTag (cs : List Char) : Except Fault Reading :=
  match languageTag? cs with
  | some tag => .ok (.language tag, '@' :: tag)
  | none => .error .invalidLanguageTag

/-- A string literal, given its first quotation mark. -/
def stringLiteral (quote : Char) (cs : List Char) : Except Fault Reading :=
  match string? quote (quote :: cs) with
  | some source => .ok (.string source, source)
  | none => .error .unclosedString

/-- A blank node, given the text after its underscore. -/
def blankNode (cs : List Char) : Except Fault Reading :=
  match cs with
  | ':' :: rest =>
    match label? rest with
    | some label => .ok (.blankNode label, '_' :: ':' :: label)
    | none => .error .invalidBlankNode
  | _ => .error .invalidBlankNode

/-- Whether a text starts with a digit. -/
def startsWithDigit (cs : List Char) : Bool :=
  cs.head?.any isDigit

/-- The token at the head of a text that starts with neither a blank nor a comment; `pointFirst`
says whether a number may start with its point. -/
def first (pointFirst : Bool) : List Char → Except Fault Reading
  | [] => .error .unexpectedCharacter
  | c :: cs =>
    if c == '(' then .ok (bracket .emptyParens .openParen '(' ')' cs)
    else if c == '[' then .ok (bracket .emptyBrackets .openBracket '[' ']' cs)
    else if pointFirst && c == '.' && startsWithDigit cs then numberOrSign c cs
    else if let some m := lone? c then .ok (ofMark m)
    else if c == '<' then identifierOrOperator cs
    else if c == '^' || c == '!' || c == '>' || c == '|' || c == '&' then operator c cs
    else if c == '?' || c == '$' then variableOrQuestion c cs
    else if c == '@' then languageTag cs
    else if c == '\'' || c == '"' then stringLiteral c cs
    else if c == '_' then blankNode cs
    else if isDigit c || c == '+' || c == '-' then numberOrSign c cs
    else if c == ':' || isNameBase c then nameOrWord (c :: cs)
    else .error .unexpectedCharacter

end SparqlFormat.Lexeme
