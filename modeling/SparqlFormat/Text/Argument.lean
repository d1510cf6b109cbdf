import SparqlFormat.Text.Utf8

/-!
# Arguments

What an operating system hands over as an argument is a byte string that need not be text. It is
kept as a row of units: the characters that its bytes encode, and the bytes that are part of no
character. Nothing is lost, and an argument is text exactly if it holds no stray byte.
-/

namespace SparqlFormat

/-- A character of an argument, or a byte of it that is part of no character. -/
inductive ArgumentUnit
  | char (c : Char)
  | stray (b : UInt8)
  deriving DecidableEq

/-- An argument as it is handed over. -/
abbrev Argument := List ArgumentUnit

namespace Argument

/-- A text as an argument. -/
def ofText (cs : List Char) : Argument :=
  cs.map .char

/-- The units of one part of a byte string. -/
def ofPart : Utf8.Part → Argument
  | .char c => [.char c]
  | .illFormed _ bytes => bytes.map .stray

/-- A byte string as an argument. -/
def ofBytes (bs : List UInt8) : Argument :=
  (Utf8.parts bs).flatMap ofPart

/-- The text that an argument is, if it is text. -/
def text? : Argument → Option (List Char)
  | [] => some []
  | .char c :: rest => (text? rest).map (c :: ·)
  | .stray _ :: _ => none

/-- The bytes of one unit. -/
def unitBytes : ArgumentUnit → List UInt8
  | .char c => Utf8.encodeChar c
  | .stray b => [b]

/-- The bytes that an argument was handed over as. -/
def bytes (a : Argument) : List UInt8 :=
  a.flatMap unitBytes

/-- One unit in a message; a stray byte is shown as an escape. -/
def shownUnit : ArgumentUnit → List Char
  | .char c => [c]
  | .stray b => "\\udc".toList ++ lowerHexByte b

/-- An argument in a message. -/
def shown (a : Argument) : List Char :=
  a.flatMap shownUnit

@[simp] theorem text?_ofText (cs : List Char) : text? (ofText cs) = some cs := by
  induction cs with
  | nil => rfl
  | cons c cs ih =>
    have tail : text? (List.map .char cs) = some cs := ih
    simp [ofText, text?, tail]

@[simp] theorem bytes_ofText (cs : List Char) : bytes (ofText cs) = Utf8.encode cs := by
  simp [bytes, ofText, Utf8.encode, List.flatMap_map, unitBytes]

end Argument

end SparqlFormat
