import Mathlib.Algebra.Group.Nat.Defs
import Mathlib.Tactic.Common
import Mathlib.Tactic.Lemma
import SparqlFormat.Text.Utf8

/-!
# Text survives its bytes

The bytes of a character, whatever follows them, are read as that character. The argument follows
the machine: the first byte opens a sequence that holds the leading bits of the code point and
lacks the others (`Begins`), and each continuation byte adds six bits, until the last one completes
the character (`partsFrom_continuation`). Only the second byte has bounds of its own, and those
exclude no character.

So a text that is encoded and decoded is the same text (`decode_encode`). No other bytes decode: the
bounds on the second byte leave an open sequence no way to end but as the bytes of a character
(`Open.Completes`), and so the bytes that decode to a text are its own (`decode_eq_ok`).
-/

namespace SparqlFormat.Utf8

/-! ## Sequences -/

/-- The continuation byte with the last six bits of a number. -/
def continuationByte (bits : Nat) : UInt8 :=
  UInt8.ofNat (0x80 + bits % 0x40)

/-- The last continuation bytes of a code point, so many of them. -/
def continuation : Nat → Nat → List UInt8
  | 0, _ => []
  | missing + 1, n => continuationByte (n / 0x40 ^ missing) :: continuation missing n

/-- The byte begins a sequence that holds the code point but for its continuation bytes. -/
def Begins (b : UInt8) (missing n : Nat) : Prop :=
  ∃ s, start b = .sequence s ∧ s.missing = missing + 1 ∧ s.bits = n / 0x40 ^ (missing + 1) ∧
    s.low ≤ 0x80 + n / 0x40 ^ missing % 0x40 ∧ 0x80 + n / 0x40 ^ missing % 0x40 ≤ s.high

section Sequences

variable {n : Nat}

lemma toNat_continuationByte (bits : Nat) :
    (continuationByte bits).toNat = 0x80 + bits % 0x40 := by
  have small : 0x80 + bits % 0x40 < 256 := by omega
  simpa [continuationByte] using Nat.mod_eq_of_lt small

/-- A sequence that holds all but the last bits of a code point is completed by the continuation
bytes. After the next byte the bounds are those that all continuation bytes keep. -/
lemma partsFrom_continuation {s : Open} {missing : Nat} (lacks : s.missing = missing + 1)
    (bits : s.bits = n / 0x40 ^ (missing + 1)) (low : s.low ≤ 0x80 + n / 0x40 ^ missing % 0x40)
    (high : 0x80 + n / 0x40 ^ missing % 0x40 ≤ s.high) (rest : List UInt8) :
    partsFrom (some s) (continuation (missing + 1) n ++ rest) =
      .char (Char.ofNat n) :: partsFrom none rest := by
  induction missing generalizing s with
  | zero =>
    have admitted : s.admits (continuationByte n) = true := by
      simpa [Open.admits, toNat_continuationByte] using And.intro low high
    have complete : (s.push (continuationByte n)).bits = n := by
      simp only [Open.push, bits, toNat_continuationByte]
      omega
    have last : (s.push (continuationByte n)).missing = 0 := by simp [Open.push, lacks]
    simp [continuation, partsFrom, step, admitted, last, complete]
  | succ missing ih =>
    set b := continuationByte (n / 0x40 ^ (missing + 1)) with hb
    have admitted : s.admits b = true := by
      simpa [Open.admits, hb, toNat_continuationByte] using And.intro low high
    have lacks' : (s.push b).missing = missing + 1 := by simp [Open.push, lacks]
    have bits' : (s.push b).bits = n / 0x40 ^ (missing + 1) := by
      have split : n / 0x40 ^ (missing + 1 + 1) = n / 0x40 ^ (missing + 1) / 0x40 := by
        rw [Nat.div_div_eq_div_mul, Nat.pow_succ]
      simp only [Open.push, bits, hb, toNat_continuationByte]
      omega
    have stillOpen : step (some s) b = ([], some (s.push b)) := by
      simp [step, admitted, lacks']
    rw [continuation, List.cons_append, partsFrom, stillOpen]
    exact ih lacks' bits' (by simp [Open.push]) (by simp only [Open.push]; omega)

lemma Begins.partsFrom {b : UInt8} {missing : Nat} (h : Begins b missing n)
    (rest : List UInt8) :
    partsFrom none (b :: (continuation (missing + 1) n ++ rest)) =
      .char (Char.ofNat n) :: partsFrom none rest := by
  obtain ⟨s, begins, lacks, bits, low, high⟩ := h
  have opened : step none b = ([], some s) := by simp [step, enter, begins]
  rw [Utf8.partsFrom, opened]
  exact partsFrom_continuation lacks bits low high rest

/-- A byte below 0x80 is a character by itself. -/
lemma partsFrom_single (ascii : n < 0x80) (rest : List UInt8) :
    partsFrom none (UInt8.ofNat n :: rest) = .char (Char.ofNat n) :: partsFrom none rest := by
  have value : (UInt8.ofNat n).toNat = n := by
    simpa using Nat.mod_eq_of_lt (show n < 256 by omega)
  have begins : start (UInt8.ofNat n) = .single (Char.ofNat n) := by
    simp only [start, value, if_pos ascii]
  simp [partsFrom, step, enter, begins]

lemma begins_two (low : 0x80 ≤ n) (high : n < 0x800) :
    Begins (UInt8.ofNat (0xC0 + n / 0x40)) 0 n := by
  have value : (UInt8.ofNat (0xC0 + n / 0x40)).toNat = 0xC0 + n / 0x40 := by
    simpa using Nat.mod_eq_of_lt (show 0xC0 + n / 0x40 < 256 by omega)
  simp only [Begins, start, value]
  rw [if_neg (by omega), if_neg (by omega), if_pos (by omega)]
  refine ⟨_, rfl, rfl, ?_, ?_, ?_⟩ <;> dsimp only <;> omega

/-- Behind 0xE0 and 0xED the second byte has bounds of its own: those keep out code points that
need no three bytes, and those that are no characters. -/
lemma begins_three (low : 0x800 ≤ n) (high : n < 0x10000) (scalar : n < 0xD800 ∨ 0xDFFF < n) :
    Begins (UInt8.ofNat (0xE0 + n / 0x1000)) 1 n := by
  have value : (UInt8.ofNat (0xE0 + n / 0x1000)).toNat = 0xE0 + n / 0x1000 := by
    simpa using Nat.mod_eq_of_lt (show 0xE0 + n / 0x1000 < 256 by omega)
  simp only [Begins, start, value]
  rw [if_neg (by omega), if_neg (by omega), if_neg (by omega)]
  by_cases first : 0xE0 + n / 0x1000 = 0xE0
  · rw [if_pos first]
    refine ⟨_, rfl, rfl, ?_, ?_, ?_⟩ <;> dsimp only <;> omega
  by_cases beforeSurrogates : 0xE0 + n / 0x1000 = 0xED
  · rw [if_neg first, if_pos beforeSurrogates]
    refine ⟨_, rfl, rfl, ?_, ?_, ?_⟩ <;> dsimp only <;> omega
  · rw [if_neg first, if_neg beforeSurrogates, if_pos (by omega)]
    refine ⟨_, rfl, rfl, ?_, ?_, ?_⟩ <;> dsimp only <;> omega

/-- Behind 0xF0 and 0xF4 likewise: code points that need no four bytes, and those above the last. -/
lemma begins_four (low : 0x10000 ≤ n) (high : n < 0x110000) :
    Begins (UInt8.ofNat (0xF0 + n / 0x40000)) 2 n := by
  have value : (UInt8.ofNat (0xF0 + n / 0x40000)).toNat = 0xF0 + n / 0x40000 := by
    simpa using Nat.mod_eq_of_lt (show 0xF0 + n / 0x40000 < 256 by omega)
  simp only [Begins, start, value]
  rw [if_neg (by omega), if_neg (by omega), if_neg (by omega), if_neg (by omega),
    if_neg (by omega), if_neg (by omega)]
  by_cases first : 0xF0 + n / 0x40000 = 0xF0
  · rw [if_pos first]
    refine ⟨_, rfl, rfl, ?_, ?_, ?_⟩ <;> dsimp only <;> omega
  by_cases last : 0xF0 + n / 0x40000 = 0xF4
  · rw [if_neg first, if_neg (by omega), if_pos last]
    refine ⟨_, rfl, rfl, ?_, ?_, ?_⟩ <;> dsimp only <;> omega
  · rw [if_neg first, if_pos (by omega)]
    refine ⟨_, rfl, rfl, ?_, ?_, ?_⟩ <;> dsimp only <;> omega

end Sequences

/-! ## Characters and texts -/

/-- The bytes of a character are read as the character, whatever follows them. -/
theorem partsFrom_encodeChar (c : Char) (rest : List UInt8) :
    partsFrom none (encodeChar c ++ rest) = .char c :: partsFrom none rest := by
  have scalar : c.toNat < 0xD800 ∨ 0xDFFF < c.toNat ∧ c.toNat < 0x110000 := c.valid
  have same : Char.ofNat c.toNat = c := Char.ofNat_toNat c
  rw [encodeChar, encodeNat]
  -- one case for each length of a sequence
  by_cases single : c.toNat < 0x80
  · rw [if_pos single]
    simpa [same] using partsFrom_single single rest
  by_cases double : c.toNat < 0x800
  · have read := (begins_two (by omega) double).partsFrom rest
    rw [if_neg single, if_pos double]
    simpa [continuation, continuationByte, same] using read
  by_cases triple : c.toNat < 0x10000
  · have read := (begins_three (by omega) triple (by omega)).partsFrom rest
    rw [if_neg single, if_neg double, if_pos triple]
    simpa [continuation, continuationByte, same] using read
  · have read := (begins_four (n := c.toNat) (by omega) (by omega)).partsFrom rest
    rw [if_neg single, if_neg double, if_neg triple]
    simpa [continuation, continuationByte, same] using read

lemma parts_encode (cs : List Char) : parts (encode cs) = cs.map .char := by
  induction cs with
  | nil => rfl
  | cons c cs ih =>
    rw [parts, encode, List.flatMap_cons, partsFrom_encodeChar, List.map_cons]
    exact congrArg _ ih

lemma assemble_chars (offset : Nat) (cs : List Char) :
    assemble offset (cs.map .char) = .ok cs := by
  induction cs generalizing offset with
  | nil => rfl
  | cons c cs ih => simp [assemble, ih]

/-- The bytes of a text decode to the text. -/
theorem decode_encode (cs : List Char) : decode (encode cs) = .ok cs := by
  rw [decode, parts_encode, assemble_chars]

/-! ## Only the bytes of a text decode -/

/-- However an open sequence is completed within its bounds, it comes to the bytes of a character:
those that were read and the continuation bytes. -/
structure Open.Completes (s : Open) : Prop where
  missing : 0 < s.missing
  low : 0x80 ≤ s.low
  high : s.high ≤ 0xBF
  encodes : ∀ n, n / 0x40 ^ s.missing = s.bits →
    s.low ≤ 0x80 + n / 0x40 ^ (s.missing - 1) % 0x40 →
    0x80 + n / 0x40 ^ (s.missing - 1) % 0x40 ≤ s.high →
      n.isValidChar ∧ encodeNat n = s.bytes ++ continuation s.missing n

section Decoded

variable {b : UInt8} {s : Open} {n : Nat}

lemma encodeChar_ofNat (valid : n.isValidChar) : encodeChar (Char.ofNat n) = encodeNat n := by
  rw [encodeChar, Char.ofNat, dif_pos valid]
  rfl

lemma ofNat_eq (value : n = b.toNat) : UInt8.ofNat n = b := by
  rw [value, UInt8.ofNat_toNat]

lemma encodeNat_two (low : 0x80 ≤ n) (high : n < 0x800) (lead : 0xC0 + n / 0x40 = b.toNat) :
    n.isValidChar ∧ encodeNat n = [b] ++ continuation 1 n := by
  refine ⟨.inl (by omega), ?_⟩
  rw [encodeNat, if_neg (by omega), if_pos high, ofNat_eq lead]
  simp [continuation, continuationByte]

lemma encodeNat_three (low : 0x800 ≤ n) (high : n < 0x10000) (scalar : n < 0xD800 ∨ 0xDFFF < n)
    (lead : 0xE0 + n / 0x1000 = b.toNat) :
    n.isValidChar ∧ encodeNat n = [b] ++ continuation 2 n := by
  refine ⟨scalar.imp_right fun above => ⟨above, by omega⟩, ?_⟩
  rw [encodeNat, if_neg (by omega), if_neg (by omega), if_pos high, ofNat_eq lead]
  simp [continuation, continuationByte]

lemma encodeNat_four (low : 0x10000 ≤ n) (high : n < 0x110000)
    (lead : 0xF0 + n / 0x40000 = b.toNat) :
    n.isValidChar ∧ encodeNat n = [b] ++ continuation 3 n := by
  refine ⟨.inr ⟨by omega, high⟩, ?_⟩
  rw [encodeNat, if_neg (by omega), if_neg (by omega), if_neg (by omega), ofNat_eq lead]
  simp [continuation, continuationByte]

/-- The first byte of a sequence, with the bounds on the second, leaves only characters. -/
lemma completes_of_start (begins : start b = .sequence s) : s.Completes := by
  have bound : b.toNat < 256 := b.toNat_lt
  unfold start at begins
  dsimp only at begins
  split at begins
  · cases begins
  split at begins
  · cases begins
  split at begins
  · cases begins
    refine ⟨by simp, by simp, by simp, fun n bits low high => ?_⟩
    dsimp only at bits low high ⊢
    exact encodeNat_two (by omega) (by omega) (by omega)
  -- behind three first bytes of longer sequences the second has bounds of its own
  iterate 3
    split at begins
    · cases begins
      refine ⟨by simp, by simp, by simp, fun n bits low high => ?_⟩
      dsimp only at bits low high ⊢
      exact encodeNat_three (by omega) (by omega) (by omega) (by omega)
  iterate 3
    split at begins
    · cases begins
      refine ⟨by simp, by simp, by simp, fun n bits low high => ?_⟩
      dsimp only at bits low high ⊢
      exact encodeNat_four (by omega) (by omega) (by omega)
  cases begins

lemma bytes_of_start (begins : start b = .sequence s) : s.bytes = [b] := by
  unfold start at begins
  grind

lemma encodeChar_of_start {c : Char} (begins : start b = .single c) : encodeChar c = [b] := by
  unfold start at begins
  dsimp only at begins
  split at begins
  · next ascii =>
    cases begins
    rw [encodeChar_ofNat (.inl (by omega)), encodeNat, if_pos ascii, UInt8.ofNat_toNat]
  · grind

/-- A byte that continues a sequence is the continuation byte with its bits. -/
lemma Open.Completes.continuationByte_eq (h : s.Completes) (admitted : s.admits b = true)
    (bits : n % 0x40 = b.toNat % 0x40) : continuationByte n = b := by
  simp only [Open.admits, Bool.and_eq_true, decide_eq_true_eq] at admitted
  have low := h.low
  have high := h.high
  exact ofNat_eq (by omega)

lemma Open.Completes.push (h : s.Completes) (admitted : s.admits b = true)
    (more : s.missing ≠ 1) : (s.push b).Completes := by
  obtain ⟨m, lacks⟩ : ∃ m, s.missing = m + 2 := ⟨s.missing - 2, by have := h.missing; omega⟩
  refine ⟨by simp [Open.push, lacks], by simp [Open.push], by simp [Open.push], ?_⟩
  intro n bits _ _
  simp only [Open.push, lacks] at bits ⊢
  have split : n / 0x40 ^ (m + 2) = n / 0x40 ^ (m + 1) / 0x40 := by
    rw [Nat.div_div_eq_div_mul, Nat.pow_succ]
  have admits := admitted
  simp only [Open.admits, Bool.and_eq_true, decide_eq_true_eq] at admits
  have low := h.low
  have high := h.high
  have completed := h.encodes n
  rw [lacks] at completed
  simp only [show m + 2 - 1 = m + 1 from rfl] at bits completed ⊢
  obtain ⟨valid, encoded⟩ := completed (by omega) (by omega) (by omega)
  refine ⟨valid, ?_⟩
  rw [encoded, continuation, h.continuationByte_eq admitted (by omega), List.append_assoc]
  rfl

/-- The last byte of a sequence completes a character. -/
lemma Open.Completes.last (h : s.Completes) (admitted : s.admits b = true)
    (lacks : s.missing = 1) :
    encodeChar (Char.ofNat (s.push b).bits) = s.bytes ++ [b] := by
  have admits := admitted
  simp only [Open.admits, Bool.and_eq_true, decide_eq_true_eq] at admits
  have low := h.low
  have high := h.high
  have completed := h.encodes (s.push b).bits
  simp only [lacks, Open.push] at completed
  obtain ⟨valid, encoded⟩ := completed (by omega) (by omega) (by omega)
  simp only [Open.push]
  rw [encodeChar_ofNat valid, encoded, continuation, continuation,
    h.continuationByte_eq admitted (by simp)]

/-- Parts that are all characters come from the bytes of these characters; what is open before them
counts as read. -/
lemma encode_of_assemble {state : Option Open} (completes : ∀ s ∈ state, s.Completes)
    {offset : Nat} {bs : List UInt8} {cs : List Char}
    (assembled : assemble offset (partsFrom state bs) = .ok cs) :
    encode cs = state.elim [] Open.bytes ++ bs := by
  induction bs generalizing state offset cs with
  | nil =>
    cases state with
    | none =>
      cases assembled
      rfl
    | some s => cases assembled
  | cons b bs ih =>
    cases state with
    | none =>
      simp only [partsFrom, step, enter] at assembled
      cases begins : start b with
      | single c =>
        rw [begins] at assembled
        simp only [List.singleton_append, assemble] at assembled
        split at assembled
        · next cs' rest =>
          cases assembled
          have encoded := ih (by simp) rest
          simpa [encode, encodeChar_of_start begins] using encoded
        · cases assembled
      | sequence s =>
        rw [begins] at assembled
        have encoded := ih (by simpa using completes_of_start begins) assembled
        simpa [bytes_of_start begins] using encoded
      | invalid =>
        rw [begins] at assembled
        cases assembled
    | some s =>
      have h := completes s rfl
      simp only [partsFrom, step] at assembled
      split at assembled
      · next admitted =>
        split at assembled
        · next last =>
          simp only [List.singleton_append, assemble] at assembled
          split at assembled
          · next cs' rest =>
            cases assembled
            have encoded := ih (by simp) rest
            have lacks : s.missing = 1 := by
              have := h.missing
              simp only [Open.push] at last
              omega
            simpa [encode, h.last admitted lacks] using encoded
          · cases assembled
        · next more =>
          have next := h.push admitted fun lacks => more (by simp [Open.push, lacks])
          have encoded := ih (by simpa using next) assembled
          simpa [Open.push] using encoded
      · cases assembled

/-- Bytes decode to a text exactly when they are its bytes. -/
theorem decode_eq_ok {bs : List UInt8} {cs : List Char} : decode bs = .ok cs ↔ encode cs = bs := by
  constructor
  · intro decoded
    have noneOpen : ∀ s ∈ (none : Option Open), s.Completes := by simp
    simpa using encode_of_assemble noneOpen decoded
  · rintro rfl
    exact decode_encode cs

end Decoded

end SparqlFormat.Utf8
