import SparqlFormat.Text.Hexadecimal

/-!
# UTF-8

Bytes are read one at a time by a machine with two kinds of state: between characters, or inside
a sequence that lacks some continuation bytes. Reading never stops: ill-formed bytes become
parts of their own (`Part.illFormed`), so that one reading serves both the strict decoder
(`decode`), which fails at the first of them, and readers that keep going.

The well-formed sequences are those of the Unicode standard: no overlong forms, no surrogates,
nothing above U+10FFFF. All three exclusions are bounds on the second byte.
-/

namespace SparqlFormat.Utf8

/-! ## Encoding -/

/-- The bytes of a code point. -/
def encodeNat (n : Nat) : List UInt8 :=
  if n < 0x80 then [UInt8.ofNat n]
  else if n < 0x800 then [UInt8.ofNat (0xC0 + n / 0x40), UInt8.ofNat (0x80 + n % 0x40)]
  else if n < 0x10000 then
    [UInt8.ofNat (0xE0 + n / 0x1000), UInt8.ofNat (0x80 + n / 0x40 % 0x40),
     UInt8.ofNat (0x80 + n % 0x40)]
  else
    [UInt8.ofNat (0xF0 + n / 0x40000), UInt8.ofNat (0x80 + n / 0x1000 % 0x40),
     UInt8.ofNat (0x80 + n / 0x40 % 0x40), UInt8.ofNat (0x80 + n % 0x40)]

/-- The bytes of a character. -/
def encodeChar (c : Char) : List UInt8 :=
  encodeNat c.toNat

/-- The bytes of a text. -/
def encode (cs : List Char) : List UInt8 :=
  cs.flatMap encodeChar

@[simp] theorem encode_nil : encode [] = [] := rfl

@[simp] theorem encode_append (s t : List Char) : encode (s ++ t) = encode s ++ encode t := by
  simp [encode]

/-! ## Reading byte by byte -/

/-- Why bytes form no character. -/
inductive Fault
  /-- No sequence starts with this byte. -/
  | startByte
  /-- The next byte does not continue the sequence. -/
  | continuationByte
  /-- The bytes end inside the sequence. -/
  | endOfData
  deriving DecidableEq

/-- What reading yields: a character, or a run of bytes that form none. -/
inductive Part
  | char (c : Char)
  | illFormed (fault : Fault) (bytes : List UInt8)
  deriving DecidableEq

/-- A sequence that has begun: the bytes read, the bits collected, the number of bytes missing and
the bounds on the next one. -/
structure Open where
  bytes : List UInt8
  bits : Nat
  missing : Nat
  low : Nat
  high : Nat

/-- Whether a byte continues the sequence. -/
def Open.admits (s : Open) (b : UInt8) : Bool :=
  decide (s.low ≤ b.toNat) && decide (b.toNat ≤ s.high)

/-- The sequence with one more byte; after the second byte the bounds are always 80 and BF. -/
def Open.push (s : Open) (b : UInt8) : Open where
  bytes := s.bytes ++ [b]
  bits := s.bits * 0x40 + b.toNat % 0x40
  missing := s.missing - 1
  low := 0x80
  high := 0xBF

/-- What a byte in start position begins. -/
inductive Start
  | single (c : Char)
  | sequence (s : Open)
  | invalid

/-- Classifies a byte in start position. -/
def start (b : UInt8) : Start :=
  let n := b.toNat
  if n < 0x80 then .single (Char.ofNat n)
  else if n < 0xC2 then .invalid
  else if n < 0xE0 then .sequence ⟨[b], n % 0x20, 1, 0x80, 0xBF⟩
  else if n = 0xE0 then .sequence ⟨[b], 0, 2, 0xA0, 0xBF⟩
  else if n = 0xED then .sequence ⟨[b], 0xD, 2, 0x80, 0x9F⟩
  else if n < 0xF0 then .sequence ⟨[b], n % 0x10, 2, 0x80, 0xBF⟩
  else if n = 0xF0 then .sequence ⟨[b], 0, 3, 0x90, 0xBF⟩
  else if n < 0xF4 then .sequence ⟨[b], n % 0x8, 3, 0x80, 0xBF⟩
  else if n = 0xF4 then .sequence ⟨[b], 4, 3, 0x80, 0x8F⟩
  else .invalid

/-- A byte in start position: the parts it completes and the state after it. -/
def enter (b : UInt8) : List Part × Option Open :=
  match start b with
  | .single c => ([.char c], none)
  | .sequence s => ([], some s)
  | .invalid => ([.illFormed .startByte [b]], none)

/-- One byte in any state. A byte that does not continue the open sequence is read again as the
start of the next. -/
def step : Option Open → UInt8 → List Part × Option Open
  | none, b => enter b
  | some s, b =>
    if s.admits b then
      let s' := s.push b
      if s'.missing = 0 then ([.char (Char.ofNat s'.bits)], none) else ([], some s')
    else
      let (parts, next) := enter b
      (.illFormed .continuationByte s.bytes :: parts, next)

/-- The parts of a byte string, from a state on. -/
def partsFrom : Option Open → List UInt8 → List Part
  | none, [] => []
  | some s, [] => [.illFormed .endOfData s.bytes]
  | state, b :: bs =>
    let (parts, next) := step state b
    parts ++ partsFrom next bs

/-- The parts of a byte string, in order: characters and ill-formed runs. -/
def parts (bs : List UInt8) : List Part :=
  partsFrom none bs

/-! ## Strict decoding -/

/-- The first ill-formed run of a byte string. -/
structure DecodeError where
  fault : Fault
  /-- How many bytes stand before the run. -/
  offset : Nat
  bytes : List UInt8
  deriving DecidableEq

/-- The text that the parts spell, unless one of them is ill-formed; `offset` counts the bytes
before the first part. -/
def assemble (offset : Nat) : List Part → Except DecodeError (List Char)
  | [] => .ok []
  | .char c :: rest =>
    match assemble (offset + (encodeChar c).length) rest with
    | .ok cs => .ok (c :: cs)
    | .error e => .error e
  | .illFormed fault bytes :: _ => .error ⟨fault, offset, bytes⟩

/-- The text that a byte string encodes. -/
def decode (bs : List UInt8) : Except DecodeError (List Char) :=
  assemble 0 (parts bs)

/-! ## Messages -/

/-- The reason as messages give it. -/
def Fault.reason : Fault → String
  | .startByte => "invalid start byte"
  | .continuationByte => "invalid continuation byte"
  | .endOfData => "unexpected end of data"

/-- One byte is named by its value, several by their positions. -/
def DecodeError.message (e : DecodeError) : String :=
  let place := match e.bytes with
    | [b] => "byte 0x" ++ String.ofList (lowerHexByte b) ++ " in position " ++ toString e.offset
    | bs => "bytes in position " ++ toString e.offset ++ "-" ++
        toString (e.offset + bs.length - 1)
  "'utf-8' codec can't decode " ++ place ++ ": " ++ e.fault.reason

end SparqlFormat.Utf8
