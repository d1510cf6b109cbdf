import SparqlFormat.Text.Argument

/-!
# Code points

A text in memory is a row of code points, and not every code point is a character: a surrogate is
part of none, and no bytes encode it. The stray bytes of an argument are held as surrogates; a text
from elsewhere may hold any of them.
-/

namespace SparqlFormat

/-- A code point of a text. -/
inductive CodePoint
  | char (c : Char)
  /-- The surrogate that comes so many places after U+D800. -/
  | surrogate (index : Fin 0x800)
  deriving DecidableEq

/-- Surrogates in a row: how many code points stand before them, which is the first, and how many
there are. -/
structure SurrogateRun where
  offset : Nat
  first : Fin 0x800
  length : Nat
  deriving DecidableEq

/-- The surrogates as they are reported: one by its number, several by their positions. -/
def SurrogateRun.message (run : SurrogateRun) : String :=
  "'utf-8' codec can't encode " ++
    (if run.length ≤ 1 then
      "character '\\u" ++ String.ofList (lowerHex 4 (0xD800 + run.first.val)) ++
        "' in position " ++ toString run.offset
    else
      "characters in position " ++ toString run.offset ++ "-" ++
        toString (run.offset + run.length - 1)) ++
    ": surrogates not allowed"

namespace CodePoint

/-- Whether a code point is a surrogate. -/
def isSurrogate : CodePoint → Bool
  | char _ => false
  | surrogate _ => true

/-- The bytes of a text, or its first surrogates; `offset` counts the code points before it. -/
def encodeFrom (offset : Nat) : List CodePoint → Except SurrogateRun (List UInt8)
  | [] => .ok []
  | .char c :: rest => (encodeFrom (offset + 1) rest).map (Utf8.encodeChar c ++ ·)
  | .surrogate index :: rest => .error ⟨offset, index, (rest.takeWhile isSurrogate).length + 1⟩

end CodePoint

namespace Argument

/-- The surrogate that a stray byte is held as: as many places after U+DC00. -/
def strayIndex (b : UInt8) : Fin 0x800 :=
  ⟨0x400 + b.toNat, Nat.lt_trans (Nat.add_lt_add_left b.toNat_lt _) (by decide)⟩

/-- The code point that a unit is held as. -/
def codePoint : ArgumentUnit → CodePoint
  | .char c => .char c
  | .stray b => .surrogate (strayIndex b)

/-- An argument as a text in memory. -/
def codePoints (a : Argument) : List CodePoint :=
  a.map codePoint

end Argument

end SparqlFormat
