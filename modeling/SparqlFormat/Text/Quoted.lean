import SparqlFormat.Text.Hexadecimal
import SparqlFormat.Text.Printable

/-!
# Quoted excerpts

Messages quote pieces of a text between quotation marks, with everything that would not be seen
or would end the quotation written as an escape. The apostrophe is the usual mark; the double
quote stands in for it when the piece holds an apostrophe and no double quote.
-/

namespace SparqlFormat.Quoted

/-- The mark put around a piece of text. -/
def mark (cs : List Char) : Char :=
  if cs.contains '\'' && !cs.contains '"' then '"' else '\''

/-- A code point by number: two digits below 0x100, four below 0x10000, else eight. -/
def numeric (n : Nat) : List Char :=
  if n < 0x100 then '\\' :: 'x' :: lowerHex 2 n
  else if n < 0x10000 then '\\' :: 'u' :: lowerHex 4 n
  else '\\' :: 'U' :: lowerHex 8 n

/-- One character between two marks. -/
def escape (mark c : Char) : List Char :=
  if c == mark || c == '\\' then ['\\', c]
  else if c == '\n' then ['\\', 'n']
  else if c == '\r' then ['\\', 'r']
  else if c == '\t' then ['\\', 't']
  else if isPrintable c then [c]
  else numeric c.toNat

/-- A piece of text as a message quotes it. -/
def quote (cs : List Char) : List Char :=
  let m := mark cs
  m :: (cs.flatMap (escape m) ++ [m])

end SparqlFormat.Quoted
