import SparqlFormat.Text.Hexadecimal
import SparqlFormat.Token.Basic

/-!
# Code point escapes

Before the grammar is applied, `\u` with four hexadecimal digits and `\U` with eight are replaced
by the character they denote, wherever in the text they stand. The backslash of an escape is not
itself escaped by a backslash before it. An escape above U+10FFFF denotes nothing, and the text
that holds it is not in the language.
-/

namespace SparqlFormat.Grammar

/-- What stands for the code points U+D800 to U+DFFF, which are no characters: a code point that,
like them, may stand in a string and in no name. -/
def surrogateStandIn : Char := Char.ofNat 0xFFFF

/-- The character of a code point, if there is such a code point. -/
def charOfCodePoint? (n : Nat) : Option Char :=
  if 0x10FFFF < n then none
  else if 0xD800 ≤ n ∧ n ≤ 0xDFFF then some surrogateStandIn
  else some (Char.ofNat n)

/-- The number of digits of the escape that a text after a backslash starts with, and the code
point they denote. -/
def codePoint? : List Char → Option (Nat × Nat)
  | [] => none
  | c :: cs =>
    let width := if c == 'u' then 4 else if c == 'U' then 8 else 0
    if width != 0 && startsWithHex width cs then
      (hexNumber? (cs.take width)).map fun n => (width, n)
    else none

/-- Replaces the escapes of a text of which the first `skip` characters belong to an escape
already replaced. -/
def expandFrom : Nat → List Char → Option (List Char)
  | _, [] => some []
  | skip + 1, _ :: cs => expandFrom skip cs
  | 0, c :: cs =>
    if c == '\\' then
      match codePoint? cs with
      | some (width, n) =>
        match charOfCodePoint? n with
        | some d => (expandFrom (width + 1) cs).map (d :: ·)
        | none => none
      | none => (expandFrom 0 cs).map (c :: ·)
    else (expandFrom 0 cs).map (c :: ·)

/-- A text with its code point escapes replaced. -/
def expandCodePoints (text : List Char) : Option (List Char) :=
  expandFrom 0 text

/-- Whether a literal or identifier holds a code point escape. -/
def holdsCodePointEscape : List Char → Bool
  | [] => false
  | '\\' :: c :: cs => c == 'u' || c == 'U' || holdsCodePointEscape cs
  | _ :: cs => holdsCodePointEscape cs

/-- Whether a token holds a code point escape. After expansion none of the language does. -/
def isEscaped : Token → Bool
  | .string source => holdsCodePointEscape source
  | .iri body => holdsCodePointEscape body
  | _ => false

end SparqlFormat.Grammar
