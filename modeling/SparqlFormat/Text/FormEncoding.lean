import SparqlFormat.Text.Argument

/-!
# Form encoding

Query strings sent by forms write a space as a plus sign and any byte as a percent sign with two
hexadecimal digits. Decoding turns every plus sign into a space, every percent escape into its
byte and every other character into its own bytes, all in one pass; the bytes must then be UTF-8.

Three things can be wrong, and a report names the first of them in this order: a percent sign
without two digits, bytes that are part of no character in what is to be decoded, and decoded
bytes that are not UTF-8.
-/

namespace SparqlFormat.FormEncoding

/-- Why a text cannot be decoded. -/
inductive Fault
  /-- The percent sign at this offset lacks its digits. -/
  | malformedEscape (offset : Nat)
  /-- A run of stray bytes starts at this offset with the byte given and is so long. -/
  | strayBytes (offset : Nat) (first : UInt8) (length : Nat)
  /-- The decoded bytes are not UTF-8. -/
  | illFormed (error : Utf8.DecodeError)
  deriving DecidableEq

/-- The fault as it is reported. -/
def Fault.message : Fault → String
  | .malformedEscape offset => "malformed escape at offset " ++ toString offset
  | .strayBytes offset first length =>
    "'utf-8' codec can't encode " ++
      (if length ≤ 1 then
        "character '\\udc" ++ String.ofList (lowerHexByte first) ++ "' in position " ++
          toString offset
      else
        "characters in position " ++ toString offset ++ "-" ++ toString (offset + length - 1)) ++
      ": surrogates not allowed"
  | .illFormed error => error.message

/-- Whether an argument starts with two hexadecimal digits. -/
def startsWithDigits : Argument → Bool
  | .char h :: .char l :: _ => isHex h && isHex l
  | _ => false

/-- The offset of the first percent sign that lacks its digits; `offset` counts the units
before the argument. -/
def malformedFrom (offset : Nat) : Argument → Option Nat
  | [] => none
  | u :: rest =>
    if u == .char '%' && !startsWithDigits rest then some offset
    else malformedFrom (offset + 1) rest

/-- The first run of stray bytes. -/
def strayFrom (offset : Nat) : Argument → Option Fault
  | [] => none
  | .char _ :: rest => strayFrom (offset + 1) rest
  | .stray b :: rest =>
    let others := rest.takeWhile fun u => match u with
      | .stray _ => true
      | .char _ => false
    some (.strayBytes offset b (others.length + 1))

/-- The byte of two hexadecimal digits. -/
def byteOfDigits? (h l : Char) : Option UInt8 :=
  match hexValue? h, hexValue? l with
  | some high, some low => some (UInt8.ofNat (high * 16 + low))
  | _, _ => none

/-- The bytes that an encoded text stands for. -/
def bytes : List Char → List UInt8
  | [] => []
  | '%' :: h :: l :: rest =>
    match byteOfDigits? h l with
    | some b => b :: bytes rest
    | none => Utf8.encodeChar '%' ++ bytes (h :: l :: rest)
  | '+' :: rest => Utf8.encodeChar ' ' ++ bytes rest
  | c :: rest => Utf8.encodeChar c ++ bytes rest

/-- The text that a form-encoded argument stands for. -/
def decode (a : Argument) : Except Fault (List Char) :=
  match malformedFrom 0 a with
  | some offset => .error (.malformedEscape offset)
  | none =>
    match a.text? with
    | none => .error ((strayFrom 0 a).getD (.malformedEscape 0))
    | some text =>
      match Utf8.decode (bytes text) with
      | .ok decoded => .ok decoded
      | .error error => .error (.illFormed error)

end SparqlFormat.FormEncoding
