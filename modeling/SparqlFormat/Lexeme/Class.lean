import SparqlFormat.Text.CharRange
import SparqlFormat.Text.Hexadecimal

/-!
# Character classes of the terminals

The classes that the names of the query language are built from, nested as in the standard's
grammar: letters (`isNameBase`), with the underscore (`isNameStart`), with digits and combining
marks (`isVariableTail`), with the hyphen (`isNameTail`).
-/

namespace SparqlFormat.Lexeme

/-- A decimal digit. -/
def isDigit (c : Char) : Bool :=
  decide (0x30 ≤ c.toNat) && decide (c.toNat ≤ 0x39)

/-- A letter of the ASCII alphabet. -/
def isLetter (c : Char) : Bool :=
  (decide (0x41 ≤ c.toNat) && decide (c.toNat ≤ 0x5A)) ||
    (decide (0x61 ≤ c.toNat) && decide (c.toNat ≤ 0x7A))

/-- A letter or digit of ASCII. -/
def isLetterOrDigit (c : Char) : Bool :=
  isLetter c || isDigit c

/-- A character of a keyword after its first letter. -/
def isWordTail (c : Char) : Bool :=
  isLetterOrDigit c || c == '_'

/-- The letters that names are made of. -/
def nameBaseTable : List CharRange :=
  [⟨0x41, 0x5A⟩, ⟨0x61, 0x7A⟩, ⟨0xC0, 0xD6⟩, ⟨0xD8, 0xF6⟩, ⟨0xF8, 0x2FF⟩, ⟨0x370, 0x37D⟩,
   ⟨0x37F, 0x1FFF⟩, ⟨0x200C, 0x200D⟩, ⟨0x2070, 0x218F⟩, ⟨0x2C00, 0x2FEF⟩, ⟨0x3001, 0xD7FF⟩,
   ⟨0xF900, 0xFDCF⟩, ⟨0xFDF0, 0xFFFD⟩, ⟨0x10000, 0xEFFFF⟩]

/-- The middle dot, the combining marks and the ties: part of a name, but never its start. -/
def nameMarkTable : List CharRange :=
  [⟨0xB7, 0xB7⟩, ⟨0x300, 0x36F⟩, ⟨0x203F, 0x2040⟩]

/-- A letter that may start a name. -/
def isNameBase (c : Char) : Bool :=
  CharRange.anyContains nameBaseTable c

/-- A letter or the underscore. -/
def isNameStart (c : Char) : Bool :=
  isNameBase c || c == '_'

/-- A character that may start a label or the name of a variable. -/
def isLabelStart (c : Char) : Bool :=
  isNameStart c || isDigit c

/-- A character inside the name of a variable. -/
def isVariableTail (c : Char) : Bool :=
  isLabelStart c || CharRange.anyContains nameMarkTable c

/-- A character inside a prefix, a local name or a label, the dot apart. -/
def isNameTail (c : Char) : Bool :=
  isVariableTail c || c == '-'

/-- The characters that a backslash admits into a local name. -/
def localEscapes : List Char :=
  ['_', '~', '.', '-', '!', '$', '&', '\'', '(', ')', '*', '+', ',', ';', '=', '/', '?', '#', '@',
   '%']

/-- The letters and marks that a backslash admits into a string literal. -/
def stringEscapes : List Char :=
  ['t', 'b', 'n', 'r', 'f', '\\', '"', '\'']

/-- Whether the text after a backslash is a code point escape: `u` with four hexadecimal digits
or `U` with eight. -/
def startsCodePoint : List Char → Bool
  | 'u' :: cs => startsWithHex 4 cs
  | 'U' :: cs => startsWithHex 8 cs
  | _ => false

/-- The characters that stand in an identifier only as escapes. -/
def iriExcluded : List Char :=
  ['<', '>', '"', '{', '}', '|', '^', '`', '\\']

/-- Whether a character stands for itself in an identifier. -/
def isIriChar (c : Char) : Bool :=
  decide (0x20 < c.toNat) && !iriExcluded.contains c

end SparqlFormat.Lexeme
