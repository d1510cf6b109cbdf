import SparqlFormat.Proofs.Utf8
import SparqlFormat.Text.FormEncoding

/-!
# Form encodings of a text

A text has many encodings: each character is written as itself, as a plus sign if it is a space, or
byte by byte as percent escapes, in digits of either case (`Encodes`). An encoded text keeps two
promises wherever it is cut between characters: every percent sign has its digits (`WellEscaped`),
and what comes before the cut stands for the bytes of the characters before it (`bytes_encodes`).

Decoding takes a single pass. It comes to the same as three: plus signs become spaces, percent signs
without digits are looked for, and escapes become bytes (`decode_eq_decodeInPasses`). The first pass
writes no percent sign and no digit, and the last one does not read again what it has written.
-/

namespace SparqlFormat.FormEncoding

/-! ## Encodings -/

/-- A hexadecimal digit of either case with the value given. -/
def IsDigitOf (value : Nat) (digit : Char) : Prop :=
  digit = lowerHexDigit value ∨ digit = upperHexDigit value

/-- Bytes as percent escapes, one after the other. -/
inductive Escapes : List UInt8 → List Char → Prop
  | nil : Escapes [] []
  | cons {b : UInt8} {bs : List UInt8} {high low : Char} {e : List Char} :
      IsDigitOf (b.toNat / 16) high → IsDigitOf (b.toNat % 16) low → Escapes bs e →
      Escapes (b :: bs) ('%' :: high :: low :: e)

/-- The ways to encode a character. -/
inductive EncodesChar : Char → List Char → Prop
  | itself {c : Char} : c ≠ '%' → c ≠ '+' → EncodesChar c [c]
  | plus : EncodesChar ' ' ['+']
  | escapes {c : Char} {e : List Char} : Escapes (Utf8.encodeChar c) e → EncodesChar c e

/-- A text encoded character by character, each in its own way. -/
inductive Encodes : List Char → List Char → Prop
  | nil : Encodes [] []
  | cons {c : Char} {s u e : List Char} : EncodesChar c u → Encodes s e →
      Encodes (c :: s) (u ++ e)

/-! ## Digits -/

section Digits

variable {value : Nat} {digit high low : Char}

lemma IsDigitOf.hexValue? (small : value < 16) (h : IsDigitOf value digit) :
    hexValue? digit = some value := by
  have values : ∀ v < 16, SparqlFormat.hexValue? (lowerHexDigit v) = some v ∧
      SparqlFormat.hexValue? (upperHexDigit v) = some v := by decide
  obtain ⟨lower, upper⟩ := values value small
  rcases h with rfl | rfl
  · exact lower
  · exact upper

lemma byteOfDigits?_of_isDigitOf {b : UInt8} (hhigh : IsDigitOf (b.toNat / 16) high)
    (hlow : IsDigitOf (b.toNat % 16) low) : byteOfDigits? high low = some b := by
  have bound : b.toNat < 256 := b.toNat_lt
  have whole : b.toNat / 16 * 16 + b.toNat % 16 = b.toNat := Nat.div_add_mod' _ _
  simp only [byteOfDigits?, hhigh.hexValue? (by omega), hlow.hexValue? (by omega), whole,
    UInt8.ofNat_toNat]

lemma isHex_of_byteOfDigits? {b : UInt8} (h : byteOfDigits? high low = some b) :
    isHex high = true ∧ isHex low = true := by
  unfold byteOfDigits? at h
  split at h
  case h_1 _ _ hhigh hlow => exact ⟨by simp [isHex, hhigh], by simp [isHex, hlow]⟩
  case h_2 => simp at h

lemma ne_percent_of_isHex (h : isHex digit = true) : digit ≠ '%' := by
  rintro rfl
  exact absurd h (by decide)

end Digits

/-! ## Every percent sign has its digits -/

/-- No percent sign lacks its digits. -/
def WellEscaped (cs : List Char) : Prop :=
  ∀ offset, malformedFrom offset (.ofText cs) = none

namespace WellEscaped

variable {c high low : Char} {u rest : List Char}

lemma nil : WellEscaped [] := by
  intro offset
  rfl

lemma cons (notPercent : c ≠ '%') (h : WellEscaped rest) : WellEscaped (c :: rest) := by
  intro offset
  have next := h (offset + 1)
  simpa [Argument.ofText, malformedFrom, notPercent] using next

/-- The digits after a percent sign are no percent signs themselves. -/
lemma escape {b : UInt8} (digits : byteOfDigits? high low = some b) (h : WellEscaped rest) :
    WellEscaped ('%' :: high :: low :: rest) := by
  obtain ⟨hhigh, hlow⟩ := isHex_of_byteOfDigits? digits
  have others : WellEscaped (high :: low :: rest) :=
    (h.cons (ne_percent_of_isHex hlow)).cons (ne_percent_of_isHex hhigh)
  intro offset
  have next := others (offset + 1)
  have starts : startsWithDigits (Argument.ofText (high :: low :: rest)) = true := by
    simp [Argument.ofText, startsWithDigits, hhigh, hlow]
  have passed : Argument.ofText ('%' :: high :: low :: rest) =
      .char '%' :: Argument.ofText (high :: low :: rest) := rfl
  rw [passed, malformedFrom, starts, if_neg (by simp)]
  exact next

lemma escapes {bs : List UInt8} (escapes : Escapes bs u) (h : WellEscaped rest) :
    WellEscaped (u ++ rest) := by
  induction escapes with
  | nil => exact h
  | cons hhigh hlow _ ih => exact ih.escape (byteOfDigits?_of_isDigitOf hhigh hlow)

lemma encodesChar (encodes : EncodesChar c u) (h : WellEscaped rest) :
    WellEscaped (u ++ rest) := by
  cases encodes with
  | itself notPercent => exact h.cons notPercent
  | plus => exact h.cons (by decide)
  | escapes escapes => exact h.escapes escapes

end WellEscaped

lemma wellEscaped_of_encodes {s e : List Char} (h : Encodes s e) : WellEscaped e := by
  induction h with
  | nil => exact .nil
  | cons first _ ih => exact ih.encodesChar first

/-! ## The bytes of an encoded text -/

section Bytes

variable {c : Char} {u rest : List Char}

lemma bytes_cons (notPercent : c ≠ '%') (notPlus : c ≠ '+') :
    bytes (c :: rest) = Utf8.encodeChar c ++ bytes rest := by
  rw [bytes]
  · rintro _ _ _ rfl
    exact absurd rfl notPercent
  · exact notPlus

lemma bytes_escapes {bs : List UInt8} (h : Escapes bs u) :
    bytes (u ++ rest) = bs ++ bytes rest := by
  induction h with
  | nil => rfl
  | cons hhigh hlow _ ih =>
    simp only [List.cons_append, bytes, byteOfDigits?_of_isDigitOf hhigh hlow, ih]

lemma bytes_encodesChar (h : EncodesChar c u) :
    bytes (u ++ rest) = Utf8.encodeChar c ++ bytes rest := by
  cases h with
  | itself notPercent notPlus => exact bytes_cons notPercent notPlus
  | plus => rfl
  | escapes h => exact bytes_escapes h

end Bytes

/-- An encoding of a text stands for the bytes of the text. -/
theorem bytes_encodes {s e : List Char} (h : Encodes s e) : bytes e = Utf8.encode s := by
  induction h with
  | nil => rfl
  | @cons c s u e first _ ih =>
    rw [bytes_encodesChar first, ih]
    rfl

/-! ## Three passes -/

/-- A space for a plus sign, and every other character for itself. -/
def spaceForPlus (c : Char) : Char :=
  if c = '+' then ' ' else c

/-- A unit with a space for a plus sign. -/
def spaced : ArgumentUnit → ArgumentUnit
  | .char c => .char (spaceForPlus c)
  | .stray b => .stray b

/-- The bytes of a text in which a plus sign is nothing but a plus sign. -/
def unescape : List Char → List UInt8
  | [] => []
  | '%' :: h :: l :: rest =>
    match byteOfDigits? h l with
    | some b => b :: unescape rest
    | none => Utf8.encodeChar '%' ++ unescape (h :: l :: rest)
  | c :: rest => Utf8.encodeChar c ++ unescape rest

/-- Decoding in three passes over the argument. -/
def decodeInPasses (a : Argument) : Except Fault (List Char) :=
  let b : Argument := a.map spaced
  match malformedFrom 0 b, b.text? with
  | some offset, _ => .error (.malformedEscape offset)
  | none, none => .error ((strayFrom 0 b).getD (.malformedEscape 0))
  | none, some text => (Utf8.decode (unescape text)).mapError .illFormed

section Passes

lemma hexValue?_spaceForPlus (c : Char) : hexValue? (spaceForPlus c) = hexValue? c := by
  unfold spaceForPlus
  split
  case isTrue isPlus =>
    subst isPlus
    decide
  case isFalse => rfl

lemma spaceForPlus_eq_percent {c : Char} : spaceForPlus c = '%' ↔ c = '%' := by
  unfold spaceForPlus
  split
  case isTrue isPlus =>
    subst isPlus
    decide
  case isFalse => rfl

lemma byteOfDigits?_spaceForPlus (h l : Char) :
    byteOfDigits? (spaceForPlus h) (spaceForPlus l) = byteOfDigits? h l := by
  simp only [byteOfDigits?, hexValue?_spaceForPlus]

lemma startsWithDigits_spaced (a : Argument) :
    startsWithDigits (a.map spaced) = startsWithDigits a := by
  match a with
  | [] => rfl
  | [u] => cases u <;> rfl
  | .stray _ :: _ :: _ => rfl
  | .char _ :: .stray _ :: _ => rfl
  | .char h :: .char l :: rest =>
    simp [spaced, startsWithDigits, isHex, hexValue?_spaceForPlus]

lemma spaced_eq_percent {u : ArgumentUnit} : spaced u = .char '%' ↔ u = .char '%' := by
  cases u with
  | char c => simp [spaced, spaceForPlus_eq_percent]
  | stray b => simp [spaced]

lemma malformedFrom_spaced (offset : Nat) (a : Argument) :
    malformedFrom offset (a.map spaced) = malformedFrom offset a := by
  induction a generalizing offset with
  | nil => rfl
  | cons u rest ih =>
    have same : (spaced u == .char '%') = (u == .char '%') := by
      rw [Bool.eq_iff_iff]
      simp only [beq_iff_eq, spaced_eq_percent]
    rw [List.map_cons, malformedFrom, malformedFrom, same, startsWithDigits_spaced, ih]

lemma text?_spaced (a : Argument) :
    Argument.text? (a.map spaced) = a.text?.map (List.map spaceForPlus) := by
  induction a with
  | nil => rfl
  | cons u rest ih =>
    cases u with
    | char c =>
      simp only [List.map_cons, spaced, Argument.text?, ih, Option.map_map]
      rfl
    | stray b => rfl

lemma strayFrom_spaced (offset : Nat) (a : Argument) :
    strayFrom offset (a.map spaced) = strayFrom offset a := by
  induction a generalizing offset with
  | nil => rfl
  | cons u rest ih =>
    cases u with
    | char c => exact ih (offset + 1)
    | stray b =>
      rw [List.map_cons, spaced, strayFrom, strayFrom, List.takeWhile_map, List.length_map]
      congr
      funext u
      cases u <;> rfl

lemma unescape_spaceForPlus (cs : List Char) : unescape (cs.map spaceForPlus) = bytes cs := by
  fun_induction bytes cs with
  | case1 => rfl
  | case2 h l rest b digits ih =>
    have mapped : byteOfDigits? (spaceForPlus h) (spaceForPlus l) = some b :=
      (byteOfDigits?_spaceForPlus h l).trans digits
    have percent : spaceForPlus '%' = '%' := rfl
    simp only [List.map_cons, percent, unescape, mapped, ih]
  | case3 h l rest noDigits ih =>
    have mapped : byteOfDigits? (spaceForPlus h) (spaceForPlus l) = none :=
      (byteOfDigits?_spaceForPlus h l).trans noDigits
    have percent : spaceForPlus '%' = '%' := rfl
    rw [← ih, List.map_cons, percent, List.map_cons, List.map_cons, unescape, mapped]
  | case4 rest ih =>
    rw [← ih]
    rfl
  | case5 c rest notEscape notPlus ih =>
    have kept : spaceForPlus c = c := if_neg notPlus
    rw [List.map_cons, kept, unescape, ih]
    · rintro h l others isPercent split
      obtain ⟨h', tail, rfl, -, split⟩ := List.map_eq_cons_iff.1 split
      obtain ⟨l', others', rfl, -, -⟩ := List.map_eq_cons_iff.1 split
      exact notEscape h' l' others' isPercent rfl

end Passes

/-- One pass decodes as three do, faults included. -/
theorem decode_eq_decodeInPasses (a : Argument) : decode a = decodeInPasses a := by
  simp only [decode, decodeInPasses, malformedFrom_spaced, text?_spaced, strayFrom_spaced]
  cases malformedFrom 0 a with
  | some offset => rfl
  | none =>
    cases a.text? with
    | none => rfl
    | some text =>
      simp only [Option.map_some, unescape_spaceForPlus]
      cases Utf8.decode (bytes text) with
      | ok decoded => rfl
      | error error => rfl

end SparqlFormat.FormEncoding
