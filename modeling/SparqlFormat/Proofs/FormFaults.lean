import SparqlFormat.Proofs.FormDecoding
import SparqlFormat.Text.CodePoint

/-!
# Which texts are no form encodings

Any text may be given to be decoded, one with surrogates as well. What becomes of it is decided in
stages (`decodeInStages`): plus signs become spaces, percent signs without digits are looked for,
the text is encoded, its bytes are cut at the percent signs and each piece gives up its two digits,
and what comes of that must be UTF-8. A piece without digits would be left as it is.

Beside these stages stands what a text means, read once from left to right: `StandsFor` gives its
bytes. A percent sign that `LacksDigits` and a surrogate have none. The stages agree with it, the
first fault of the three wins, and no piece without digits is ever met (`decodeInStages_exact`). On
arguments the stages come to the single pass of `decode` (`decode_eq_decodeInStages`).
-/

namespace SparqlFormat.FormEncoding

/-! ## What a text means -/

/-- The percent sign at a place lacks its two hexadecimal digits. -/
def LacksDigits (text : List CodePoint) (place : Nat) : Prop :=
  text[place]? = some (.char '%') ∧
    ¬∃ high low, text[place + 1]? = some (.char high) ∧ text[place + 2]? = some (.char low) ∧
      isHex high = true ∧ isHex low = true

/-- The bytes that a text stands for, in one pass: a space for a plus sign, a byte for an escape,
and its own bytes for any other character. -/
inductive StandsFor : List CodePoint → List UInt8 → Prop
  | nil : StandsFor [] []
  | plus {rest : List CodePoint} {bs : List UInt8} : StandsFor rest bs →
      StandsFor (.char '+' :: rest) (0x20 :: bs)
  | escape {high low : Char} {b : UInt8} {rest : List CodePoint} {bs : List UInt8} :
      byteOfDigits? high low = some b → StandsFor rest bs →
      StandsFor (.char '%' :: .char high :: .char low :: rest) (b :: bs)
  | other {c : Char} {rest : List CodePoint} {bs : List UInt8} : c ≠ '%' → c ≠ '+' →
      StandsFor rest bs → StandsFor (.char c :: rest) (Utf8.encodeChar c ++ bs)

/-! ## The stages -/

/-- Why a text cannot be decoded. -/
inductive TextFault
  /-- The percent sign at this offset lacks its digits. -/
  | malformedEscape (offset : Nat)
  /-- The text holds surrogates. -/
  | surrogates (run : SurrogateRun)
  /-- The decoded bytes are not UTF-8. -/
  | illFormed (error : Utf8.DecodeError)
  deriving DecidableEq

/-- The fault as it is reported. -/
def TextFault.message : TextFault → String
  | .malformedEscape offset => "malformed escape at offset " ++ toString offset
  | .surrogates run => run.message
  | .illFormed error => error.message

/-- A space for a plus sign, and every other code point for itself. -/
def spacedPoint : CodePoint → CodePoint
  | .char c => .char (spaceForPlus c)
  | .surrogate index => .surrogate index

/-- Whether a text starts with two hexadecimal digits. -/
def digitsAhead : List CodePoint → Bool
  | .char high :: .char low :: _ => isHex high && isHex low
  | _ => false

/-- The first percent sign that lacks its digits; `offset` counts the code points before the
text. -/
def searchMalformed (offset : Nat) : List CodePoint → Option Nat
  | [] => none
  | u :: rest =>
    if u = .char '%' ∧ digitsAhead rest = false then some offset
    else searchMalformed (offset + 1) rest

/-- The byte that a piece starts with in two digits, and what follows them. -/
def leadingByte? : List UInt8 → Option (UInt8 × List UInt8)
  | high :: low :: rest =>
    (byteOfDigits? (Char.ofNat high.toNat) (Char.ofNat low.toNat)).map fun b => (b, rest)
  | _ => none

/-- The bytes of a piece that stood behind a percent sign; one without digits is left as it is. -/
def unquotePiece (piece : List UInt8) : List UInt8 :=
  match leadingByte? piece with
  | some (b, rest) => b :: rest
  | none => 0x25 :: piece

/-- The pieces that stood behind the percent signs: all but the first. -/
def escapePieces (bs : List UInt8) : List (List UInt8) :=
  (bs.splitOn 0x25).tail

/-- Bytes with their escapes undone: they are cut at the percent signs. -/
def unquote (bs : List UInt8) : List UInt8 :=
  (bs.splitOn 0x25).headD [] ++ (escapePieces bs).flatMap unquotePiece

/-- The text that a form-encoded text stands for, in stages. -/
def decodeInStages (text : List CodePoint) : Except TextFault (List Char) :=
  match searchMalformed 0 (text.map spacedPoint) with
  | some offset => .error (.malformedEscape offset)
  | none =>
    match CodePoint.encodeFrom 0 (text.map spacedPoint) with
    | .error run => .error (.surrogates run)
    | .ok raw => (Utf8.decode (unquote raw)).mapError .illFormed

/-! ## The search for percent signs without digits -/

section Search

variable {text rest : List CodePoint} {place : Nat} {u : CodePoint}

lemma digitsAhead_iff :
    digitsAhead text = true ↔ ∃ high low, text[0]? = some (.char high) ∧
      text[1]? = some (.char low) ∧ isHex high = true ∧ isHex low = true := by
  match text with
  | [] => simp [digitsAhead]
  | [_] => simp [digitsAhead]
  | .surrogate _ :: _ :: _ => simp [digitsAhead]
  | .char _ :: .surrogate _ :: _ => simp [digitsAhead]
  | .char high :: .char low :: rest => simp [digitsAhead]

lemma lacksDigits_zero :
    LacksDigits (u :: rest) 0 ↔ u = .char '%' ∧ digitsAhead rest = false := by
  rw [← Bool.not_eq_true, digitsAhead_iff]
  simp [LacksDigits]

lemma lacksDigits_succ : LacksDigits (u :: rest) (place + 1) ↔ LacksDigits rest place := Iff.rfl

lemma searchMalformed_eq_none (offset : Nat) :
    searchMalformed offset text = none ↔ ∀ place, ¬LacksDigits text place := by
  induction text generalizing offset with
  | nil => simp [searchMalformed, LacksDigits]
  | cons u rest ih =>
    rw [searchMalformed]
    split
    · next lacks =>
      simpa using ⟨0, lacksDigits_zero.2 lacks⟩
    · next has =>
      rw [ih]
      constructor
      · rintro none (_ | place)
        · exact fun lacks => has (lacksDigits_zero.1 lacks)
        · exact none place
      · exact fun none place => none (place + 1)

lemma le_of_searchMalformed {offset : Nat} (h : searchMalformed offset text = some place) :
    offset ≤ place := by
  induction text generalizing offset with
  | nil => cases h
  | cons u rest ih =>
    rw [searchMalformed] at h
    split at h
    · exact Nat.le_of_eq (Option.some.inj h)
    · exact Nat.le_of_succ_le (ih h)

lemma searchMalformed_eq_some (offset : Nat) :
    searchMalformed offset text = some (offset + place) ↔
      LacksDigits text place ∧ ∀ before < place, ¬LacksDigits text before := by
  induction text generalizing offset place with
  | nil => simp [searchMalformed, LacksDigits]
  | cons u rest ih =>
    rw [searchMalformed]
    split
    · next lacks =>
      have here : LacksDigits (u :: rest) 0 := lacksDigits_zero.2 lacks
      cases place with
      | zero => simpa using here
      | succ place =>
        have later : offset ≠ offset + (place + 1) := by omega
        simp only [Option.some.injEq, later, false_iff, not_and, not_forall, not_not]
        exact fun _ => ⟨0, Nat.succ_pos place, here⟩
    · next has =>
      have notHere : ¬LacksDigits (u :: rest) 0 := fun lacks => has (lacksDigits_zero.1 lacks)
      cases place with
      | zero =>
        have passed : searchMalformed (offset + 1) rest ≠ some offset :=
          fun h => absurd (le_of_searchMalformed h) (Nat.not_succ_le_self offset)
        simp [notHere, passed]
      | succ place =>
        have shift : offset + (place + 1) = offset + 1 + place := by omega
        rw [shift, ih, lacksDigits_succ]
        refine and_congr_right fun _ => ⟨?_, fun none before h => none (before + 1) (by omega)⟩
        rintro none (_ | before) h
        · exact notHere
        · exact none before (by omega)

lemma spacedPoint_eq_percent : spacedPoint u = .char '%' ↔ u = .char '%' := by
  cases u with
  | char c => simp [spacedPoint, spaceForPlus_eq_percent]
  | surrogate index => simp [spacedPoint]

lemma digitsAhead_spaced : digitsAhead (text.map spacedPoint) = digitsAhead text := by
  match text with
  | [] => rfl
  | [u] => cases u <;> rfl
  | .surrogate _ :: _ :: _ => rfl
  | .char _ :: .surrogate _ :: _ => rfl
  | .char high :: .char low :: rest =>
    simp [spacedPoint, digitsAhead, isHex, hexValue?_spaceForPlus]

/-- A space is no digit either: no percent sign gains or loses its digits. -/
lemma searchMalformed_spaced (offset : Nat) :
    searchMalformed offset (text.map spacedPoint) = searchMalformed offset text := by
  induction text generalizing offset with
  | nil => rfl
  | cons u rest ih =>
    rw [List.map_cons, searchMalformed, searchMalformed, digitsAhead_spaced, ih]
    simp only [spacedPoint_eq_percent]

end Search

/-! ## Bytes cut at percent signs -/

section Unquoting

variable {b : UInt8} {bs : List UInt8} {c : Char}

lemma splitOn_cons_percent : (0x25 :: bs).splitOn (0x25 : UInt8) = [] :: bs.splitOn 0x25 := by
  simp [List.splitOn, List.splitOnP_cons_eq_if_modifyHead]

lemma splitOn_cons (plain : b ≠ 0x25) :
    (b :: bs).splitOn (0x25 : UInt8) = (bs.splitOn 0x25).modifyHead (b :: ·) := by
  simp [List.splitOn, List.splitOnP_cons_eq_if_modifyHead, plain]

lemma splitOn_ne_nil (bs : List UInt8) : bs.splitOn 0x25 ≠ [] :=
  List.splitOn_ne_nil _ _

lemma unquote_append (plain : 0x25 ∉ bs) (raw : List UInt8) :
    unquote (bs ++ raw) = bs ++ unquote raw ∧ escapePieces (bs ++ raw) = escapePieces raw := by
  induction bs with
  | nil => exact ⟨rfl, rfl⟩
  | cons b bs ih =>
    rw [List.mem_cons, not_or] at plain
    obtain ⟨unquoted, pieces⟩ := ih plain.2
    obtain ⟨first, others, cut⟩ := List.exists_cons_of_ne_nil (splitOn_ne_nil (bs ++ raw))
    rw [List.cons_append, List.cons_append, ← unquoted, ← pieces]
    simp [unquote, escapePieces, splitOn_cons (Ne.symm plain.1), cut]

/-- A piece that starts with digits is one of the pieces, and gives up its byte. -/
lemma unquote_escape {high low : UInt8} (plainHigh : high ≠ 0x25) (plainLow : low ≠ 0x25)
    (digits : byteOfDigits? (Char.ofNat high.toNat) (Char.ofNat low.toNat) = some b)
    (raw : List UInt8) :
    unquote (0x25 :: high :: low :: raw) = b :: unquote raw ∧
      ∃ piece, (leadingByte? piece).isSome ∧
        escapePieces (0x25 :: high :: low :: raw) = piece :: escapePieces raw := by
  obtain ⟨first, others, cut⟩ := List.exists_cons_of_ne_nil (splitOn_ne_nil raw)
  have leads : leadingByte? (high :: low :: first) = some (b, first) := by
    simp [leadingByte?, digits]
  have pieces : escapePieces (0x25 :: high :: low :: raw) =
      (high :: low :: first) :: escapePieces raw := by
    simp [escapePieces, splitOn_cons_percent, splitOn_cons plainHigh, splitOn_cons plainLow, cut]
  refine ⟨?_, _, by simp [leads], pieces⟩
  rw [unquote, pieces]
  simp [unquote, splitOn_cons_percent, unquotePiece, leads, cut]

lemma toNat_lt_of_isHex (h : isHex c = true) : c.toNat < 0x80 := by
  unfold isHex hexValue? at h
  grind

lemma encodeChar_ascii (h : c.toNat < 0x80) : Utf8.encodeChar c = [UInt8.ofNat c.toNat] := by
  rw [Utf8.encodeChar, Utf8.encodeNat, if_pos h]

lemma percent_notMem_encodeChar (h : c ≠ '%') : 0x25 ∉ Utf8.encodeChar c := by
  have value : c.toNat ≠ 0x25 := fun same => h (Char.toNat_inj.1 same)
  have scalar : c.toNat < 0xD800 ∨ 0xDFFF < c.toNat ∧ c.toNat < 0x110000 := c.valid
  have other : ∀ n < 0x100, n ≠ 0x25 → 0x25 ≠ UInt8.ofNat n := by
    intro n small differs same
    have values := congrArg UInt8.toNat same
    rw [UInt8.toNat_ofNat', Nat.mod_eq_of_lt small] at values
    exact differs values.symm
  unfold Utf8.encodeChar Utf8.encodeNat
  -- one case for each length of a sequence
  split_ifs <;> simp only [List.mem_cons, List.not_mem_nil, or_false, not_or]
  · exact other _ (by omega) value
  · exact ⟨other _ (by omega) (by omega), other _ (by omega) (by omega)⟩
  · exact ⟨other _ (by omega) (by omega), other _ (by omega) (by omega),
      other _ (by omega) (by omega)⟩
  · exact ⟨other _ (by omega) (by omega), other _ (by omega) (by omega),
      other _ (by omega) (by omega), other _ (by omega) (by omega)⟩

end Unquoting

/-! ## A text with a meaning -/

section Meaning

variable {c high low : Char} {b : UInt8} {bs : List UInt8} {text rest : List CodePoint}
  {cs : List Char} {place : Nat}

lemma not_lacksDigits_cons {u : CodePoint} (other : u ≠ .char '%')
    (h : ∀ place, ¬LacksDigits rest place) : ∀ place, ¬LacksDigits (u :: rest) place
  | 0 => fun lacks => other (lacksDigits_zero.1 lacks).1
  | place + 1 => h place

/-- A text with a meaning is one of characters, and its percent signs have their digits. -/
lemma StandsFor.wellFormed (h : StandsFor text bs) :
    (∀ place, ¬LacksDigits text place) ∧ ∀ index, .surrogate index ∉ text := by
  induction h with
  | nil => exact ⟨fun place lacks => by simp [LacksDigits] at lacks, by simp⟩
  | plus _ ih => exact ⟨not_lacksDigits_cons (by decide) ih.1, by simpa using ih.2⟩
  | @escape high low b rest bs digits _ ih =>
    obtain ⟨hhigh, hlow⟩ := isHex_of_byteOfDigits? digits
    have digitsPass : ∀ place, ¬LacksDigits (.char high :: .char low :: rest) place :=
      not_lacksDigits_cons (by simpa using ne_percent_of_isHex hhigh)
        (not_lacksDigits_cons (by simpa using ne_percent_of_isHex hlow) ih.1)
    refine ⟨?_, by simpa using ih.2⟩
    rintro (_ | place)
    · rw [lacksDigits_zero]
      simp [digitsAhead, hhigh, hlow]
    · exact digitsPass place
  | other notPercent _ _ ih =>
    exact ⟨not_lacksDigits_cons (by simpa using notPercent) ih.1, by simpa using ih.2⟩

lemma encodeChar_of_isHex (h : isHex c = true) :
    ∃ b, Utf8.encodeChar c = [b] ∧ b ≠ 0x25 ∧ Char.ofNat b.toNat = c := by
  have ascii := toNat_lt_of_isHex h
  have value : (UInt8.ofNat c.toNat).toNat = c.toNat := by
    rw [UInt8.toNat_ofNat', Nat.mod_eq_of_lt (by omega)]
  have encoded := encodeChar_ascii ascii
  refine ⟨UInt8.ofNat c.toNat, encoded, ?_, by rw [value, Char.ofNat_toNat]⟩
  rintro percent
  exact percent_notMem_encodeChar (ne_percent_of_isHex h) (by simp [encoded, percent])

lemma spaceForPlus_of_isHex (h : isHex c = true) : spaceForPlus c = c := by
  refine if_neg ?_
  rintro rfl
  exact absurd h (by decide)

/-- The stages undo the escapes of a text with a meaning, and every piece that they meet has its
digits. -/
lemma StandsFor.unquote (h : StandsFor text bs) (offset : Nat) :
    ∃ raw, CodePoint.encodeFrom offset (text.map spacedPoint) = .ok raw ∧
      FormEncoding.unquote raw = bs ∧
        ∀ piece ∈ escapePieces raw, (leadingByte? piece).isSome := by
  induction h generalizing offset with
  | nil => exact ⟨[], rfl, rfl, by simp [escapePieces]⟩
  | plus _ ih =>
    obtain ⟨raw, encoded, unquoted, lead⟩ := ih (offset + 1)
    have space : Utf8.encodeChar ' ' = [0x20] := rfl
    have plain : 0x25 ∉ [(0x20 : UInt8)] := by decide
    obtain ⟨same, pieces⟩ := unquote_append plain raw
    refine ⟨[0x20] ++ raw, ?_, by rw [same, unquoted]; rfl, by rwa [pieces]⟩
    simp [spacedPoint, spaceForPlus, CodePoint.encodeFrom, encoded, space, Except.map]
  | @escape high low b rest bs digits _ ih =>
    obtain ⟨raw, encoded, unquoted, lead⟩ := ih (offset + 1 + 1 + 1)
    obtain ⟨hhigh, hlow⟩ := isHex_of_byteOfDigits? digits
    obtain ⟨highByte, highEncoded, highPlain, highValue⟩ := encodeChar_of_isHex hhigh
    obtain ⟨lowByte, lowEncoded, lowPlain, lowValue⟩ := encodeChar_of_isHex hlow
    have percent : Utf8.encodeChar '%' = [0x25] := rfl
    have plain : spaceForPlus '%' = '%' := rfl
    obtain ⟨undone, piece, leads, pieces⟩ := unquote_escape highPlain lowPlain
      (by rw [highValue, lowValue, digits]) raw
    refine ⟨0x25 :: highByte :: lowByte :: raw, ?_, by rw [undone, unquoted], ?_⟩
    · simp [spacedPoint, plain, spaceForPlus_of_isHex hhigh, spaceForPlus_of_isHex hlow,
        CodePoint.encodeFrom, encoded, percent, highEncoded, lowEncoded, Except.map]
    · rw [pieces]
      exact List.forall_mem_cons.2 ⟨leads, lead⟩
  | @other c rest bs notPercent notPlus _ ih =>
    obtain ⟨raw, encoded, unquoted, lead⟩ := ih (offset + 1)
    have kept : spaceForPlus c = c := if_neg notPlus
    obtain ⟨same, pieces⟩ := unquote_append (percent_notMem_encodeChar notPercent) raw
    refine ⟨Utf8.encodeChar c ++ raw, ?_, by rw [same, unquoted], by rwa [pieces]⟩
    simp [spacedPoint, kept, CodePoint.encodeFrom, encoded, Except.map]

/-- A text of characters whose percent signs have their digits stands for its bytes. -/
lemma standsFor_bytes (digits : ∀ place, ¬LacksDigits (cs.map .char) place) :
    StandsFor (cs.map .char) (bytes cs) := by
  fun_induction bytes cs with
  | case1 => exact .nil
  | case2 high low rest b value ih =>
    exact .escape value (ih fun place => digits (place + 3))
  | case3 high low rest noValue ih =>
    refine absurd (lacksDigits_zero.2 ⟨rfl, ?_⟩) (digits 0)
    rw [Bool.eq_false_iff]
    intro ahead
    obtain ⟨hhigh, hlow⟩ := Bool.and_eq_true_iff.1 ahead
    obtain ⟨m, hhigh⟩ := Option.isSome_iff_exists.1 hhigh
    obtain ⟨n, hlow⟩ := Option.isSome_iff_exists.1 hlow
    simp [byteOfDigits?, hhigh, hlow] at noValue
  | case4 rest ih => exact .plus (ih fun place => digits (place + 1))
  | case5 c rest notEscape notPlus ih =>
    refine .other ?_ notPlus (ih fun place => digits (place + 1))
    rintro rfl
    refine digits 0 (lacksDigits_zero.2 ⟨rfl, ?_⟩)
    rcases rest with _ | ⟨high, _ | ⟨low, rest⟩⟩
    · rfl
    · rfl
    · exact absurd rfl (notEscape high low rest rfl)

lemma exists_chars (h : ∀ index, .surrogate index ∉ text) :
    ∃ cs : List Char, text = cs.map .char := by
  induction text with
  | nil => exact ⟨[], rfl⟩
  | cons u rest ih =>
    cases u with
    | char c =>
      obtain ⟨cs, rfl⟩ := ih fun index mem => h index (List.mem_cons_of_mem _ mem)
      exact ⟨c :: cs, rfl⟩
    | surrogate index => exact absurd List.mem_cons_self (h index)

lemma encodeFrom_surrogate {index : Fin 0x800} (h : .surrogate index ∈ text) (offset : Nat) :
    ∃ run, CodePoint.encodeFrom offset (text.map spacedPoint) = .error run := by
  induction text generalizing offset with
  | nil => cases h
  | cons u rest ih =>
    cases u with
    | char c =>
      obtain ⟨run, failed⟩ := ih (by simpa using h) (offset + 1)
      exact ⟨run, by simp [spacedPoint, CodePoint.encodeFrom, failed, Except.map]⟩
    | surrogate index' => exact ⟨_, rfl⟩

/-- A text with a meaning is decoded from its bytes. -/
lemma StandsFor.decodeInStages (h : StandsFor text bs) :
    FormEncoding.decodeInStages text = (Utf8.decode bs).mapError .illFormed := by
  obtain ⟨raw, encoded, unquoted, -⟩ := h.unquote 0
  have passed : searchMalformed 0 text = none := (searchMalformed_eq_none 0).2 h.wellFormed.1
  simp only [FormEncoding.decodeInStages, searchMalformed_spaced, passed, encoded, unquoted]

/-- The percent sign that is reported is the first that lacks its digits. -/
lemma decodeInStages_eq_malformed :
    decodeInStages text = .error (.malformedEscape place) ↔
      LacksDigits text place ∧ ∀ before < place, ¬LacksDigits text before := by
  rw [← searchMalformed_eq_some 0, Nat.zero_add]
  unfold decodeInStages
  rw [searchMalformed_spaced]
  cases searchMalformed 0 text with
  | some first => simp
  | none =>
    cases CodePoint.encodeFrom 0 (text.map spacedPoint) with
    | error run => simp
    | ok raw => cases h : Utf8.decode (unquote raw) <;> simp [h, Except.mapError]

/-- What becomes of a text: a percent sign lacks its digits, or there are surrogates, or the text
has a meaning. -/
lemma decodeInStages_cases (text : List CodePoint) :
    (∃ place, LacksDigits text place ∧ ∃ first,
        decodeInStages text = .error (.malformedEscape first)) ∨
      (∃ index, .surrogate index ∈ text ∧ ∃ run,
        decodeInStages text = .error (.surrogates run)) ∨
      ∃ bs, StandsFor text bs := by
  cases searched : searchMalformed 0 text with
  | some first =>
    have found : LacksDigits text first ∧ ∀ before < first, ¬LacksDigits text before :=
      (searchMalformed_eq_some 0).1 (by rw [searched, Nat.zero_add])
    exact .inl ⟨first, found.1, first, decodeInStages_eq_malformed.2 found⟩
  | none =>
    right
    by_cases some : ∃ index, .surrogate index ∈ text
    · obtain ⟨index, mem⟩ := some
      obtain ⟨run, failed⟩ := encodeFrom_surrogate mem 0
      refine .inl ⟨index, mem, run, ?_⟩
      simp only [decodeInStages, searchMalformed_spaced, searched, failed]
    · obtain ⟨cs, rfl⟩ := exists_chars (not_exists.1 some)
      exact .inr ⟨_, standsFor_bytes ((searchMalformed_eq_none 0).1 searched)⟩

lemma decodeInStages_eq_error :
    (∃ fault, decodeInStages text = .error fault) ↔
      (∃ place, LacksDigits text place) ∨ (∃ index, .surrogate index ∈ text) ∨
        ∃ bs, StandsFor text bs ∧ ∀ s, Utf8.encode s ≠ bs := by
  constructor
  · rintro ⟨fault, failed⟩
    obtain ⟨place, lacks, -⟩ | ⟨index, mem, -⟩ | ⟨bs, meaning⟩ := decodeInStages_cases text
    · exact .inl ⟨place, lacks⟩
    · exact .inr (.inl ⟨index, mem⟩)
    · refine .inr (.inr ⟨bs, meaning, fun s encoded => ?_⟩)
      rw [meaning.decodeInStages, Utf8.decode_eq_ok.2 encoded] at failed
      cases failed
  · obtain ⟨-, -, first, failed⟩ | ⟨-, -, run, failed⟩ | ⟨bs, meaning⟩ := decodeInStages_cases text
    · exact fun _ => ⟨_, failed⟩
    · exact fun _ => ⟨_, failed⟩
    · rintro (⟨place, lacks⟩ | ⟨index, mem⟩ | ⟨bs', meaning', ill⟩)
      · exact absurd lacks (meaning.wellFormed.1 place)
      · exact absurd mem (meaning.wellFormed.2 index)
      · rw [meaning'.decodeInStages]
        cases decoded : Utf8.decode bs' with
        | ok s => exact absurd (Utf8.decode_eq_ok.1 decoded) (ill s)
        | error error => exact ⟨_, rfl⟩

lemma decodeInStages_eq_ok {s : List Char} :
    decodeInStages text = .ok s ↔ ∃ bs, StandsFor text bs ∧ Utf8.encode s = bs := by
  constructor
  · intro decoded
    obtain ⟨-, -, first, failed⟩ | ⟨-, -, run, failed⟩ | ⟨bs, meaning⟩ := decodeInStages_cases text
    · simp [failed] at decoded
    · simp [failed] at decoded
    · refine ⟨bs, meaning, ?_⟩
      rw [meaning.decodeInStages] at decoded
      cases read : Utf8.decode bs with
      | error error => simp [read, Except.mapError] at decoded
      | ok t =>
        rw [read] at decoded
        cases decoded
        exact Utf8.decode_eq_ok.1 read
  · rintro ⟨bs, meaning, encoded⟩
    rw [meaning.decodeInStages, Utf8.decode_eq_ok.2 encoded]
    rfl

lemma encode_eq_iff {s : List Char} :
    Utf8.encode s = bs ↔ ∀ t, Utf8.encode t = bs ↔ t = s := by
  refine ⟨?_, fun unique => (unique s).2 rfl⟩
  rintro rfl t
  refine ⟨fun same => ?_, fun same => same ▸ rfl⟩
  have decoded := Utf8.decode_encode t
  rw [same, Utf8.decode_encode] at decoded
  exact (Except.ok.inj decoded).symm

/-- A text whose percent signs have their digits is cut into pieces that have theirs. -/
lemma isSome_leadingByte? (digits : ∀ place, ¬LacksDigits text place) {raw : List UInt8}
    (encoded : CodePoint.encodeFrom 0 (text.map spacedPoint) = .ok raw) :
    ∀ piece ∈ escapePieces raw, (leadingByte? piece).isSome := by
  obtain ⟨place, lacks, -⟩ | ⟨index, mem, -⟩ | ⟨bs, meaning⟩ := decodeInStages_cases text
  · exact absurd lacks (digits place)
  · obtain ⟨run, failed⟩ := encodeFrom_surrogate mem 0
    simp [failed] at encoded
  · obtain ⟨raw', encoded', -, lead⟩ := meaning.unquote 0
    cases encoded.symm.trans encoded'
    exact lead

end Meaning

/-! ## Arguments -/

section Arguments

/-- The fault of an argument as a fault of the text that it is held as. -/
def TextFault.ofFault : Fault → TextFault
  | .malformedEscape offset => .malformedEscape offset
  | .strayBytes offset first length => .surrogates ⟨offset, Argument.strayIndex first, length⟩
  | .illFormed error => .illFormed error

variable {cs : List Char}

lemma lowerHex_stray (b : UInt8) :
    lowerHex 4 (0xD800 + (Argument.strayIndex b).val) = 'd' :: 'c' :: lowerHexByte b := by
  have bound : b.toNat < 0x100 := b.toNat_lt
  have fourth : (0xD800 + (0x400 + b.toNat)) % 0x10 = b.toNat % 0x10 := by omega
  have third : (0xD800 + (0x400 + b.toNat)) / 0x10 % 0x10 = b.toNat / 0x10 % 0x10 := by omega
  have second : (0xD800 + (0x400 + b.toNat)) / 0x10 / 0x10 % 0x10 = 0xC := by omega
  have first : (0xD800 + (0x400 + b.toNat)) / 0x10 / 0x10 / 0x10 % 0x10 = 0xD := by omega
  simp only [lowerHex, lowerHexByte, Argument.strayIndex, fourth, third, second, first]
  rfl

lemma message_ofFault (fault : Fault) : (TextFault.ofFault fault).message = fault.message := by
  unfold TextFault.ofFault TextFault.message Fault.message
  cases fault with
  | malformedEscape offset => with_reducible rfl
  | strayBytes offset first length =>
    have number : "character '\\u" ++ String.ofList ('d' :: 'c' :: lowerHexByte first) =
        "character '\\udc" ++ String.ofList (lowerHexByte first) := by
      simp [← String.toList_inj]
    unfold SurrogateRun.message
    simp only [lowerHex_stray, number]
  | illFormed error => with_reducible rfl

lemma ofFault_inj {fault fault' : Fault}
    (h : TextFault.ofFault fault = TextFault.ofFault fault') : fault = fault' := by
  cases fault <;> cases fault' <;> simp only [TextFault.ofFault, TextFault.malformedEscape.injEq,
    TextFault.surrogates.injEq, TextFault.illFormed.injEq, SurrogateRun.mk.injEq,
    reduceCtorEq] at h
  case malformedEscape => rw [h]
  case illFormed => rw [h]
  case strayBytes =>
    obtain ⟨rfl, same, rfl⟩ := h
    have same : 0x400 + UInt8.toNat _ = 0x400 + UInt8.toNat _ := congrArg Fin.val same
    rw [UInt8.toNat_inj.1 (Nat.add_left_cancel same)]

lemma digitsAhead_codePoints (a : Argument) : digitsAhead a.codePoints = startsWithDigits a := by
  match a with
  | [] => rfl
  | [u] => cases u <;> rfl
  | .stray _ :: _ :: _ => rfl
  | .char _ :: .stray _ :: _ => rfl
  | .char h :: .char l :: rest => rfl

lemma searchMalformed_codePoints (offset : Nat) (a : Argument) :
    searchMalformed offset a.codePoints = malformedFrom offset a := by
  induction a generalizing offset with
  | nil => rfl
  | cons u rest ih =>
    have percent : Argument.codePoint u = .char '%' ↔ u = .char '%' := by
      cases u <;> simp [Argument.codePoint]
    rw [malformedFrom, ← ih, ← digitsAhead_codePoints]
    simp only [Argument.codePoints, List.map_cons, searchMalformed, percent]
    simp

lemma map_spacedPoint_codePoints (a : Argument) :
    a.codePoints.map spacedPoint = Argument.codePoints (a.map spaced) := by
  simp only [Argument.codePoints, List.map_map]
  refine List.map_congr_left fun u _ => ?_
  cases u <;> rfl

lemma codePoints_of_text? {a : Argument} (h : a.text? = some cs) : a.codePoints = cs.map .char := by
  induction a generalizing cs with
  | nil =>
    cases h
    rfl
  | cons u rest ih =>
    cases u with
    | char c =>
      obtain ⟨cs', h', rfl⟩ := Option.map_eq_some_iff.1 h
      exact congrArg _ (ih h')
    | stray b => cases h

/-- The stray bytes of an argument are the surrogates of its text. -/
lemma encodeFrom_stray (offset : Nat) {a : Argument} (h : a.text? = none) :
    ∃ place first length, strayFrom offset a = some (.strayBytes place first length) ∧
      CodePoint.encodeFrom offset a.codePoints =
        .error ⟨place, Argument.strayIndex first, length⟩ := by
  induction a generalizing offset with
  | nil => cases h
  | cons u rest ih =>
    cases u with
    | char c =>
      obtain ⟨place, first, length, found, failed⟩ := ih (offset + 1) (Option.map_eq_none_iff.1 h)
      refine ⟨place, first, length, found, ?_⟩
      simp only [Argument.codePoints, List.map_cons, Argument.codePoint, CodePoint.encodeFrom]
      rw [← Argument.codePoints, failed]
      rfl
    | stray b =>
      refine ⟨_, _, _, rfl, ?_⟩
      simp only [Argument.codePoints, List.map_cons, Argument.codePoint, CodePoint.encodeFrom,
        List.takeWhile_map, List.length_map]
      congr
      funext u
      cases u <;> rfl

/-- On an argument the stages come to the single pass. -/
theorem decode_eq_decodeInStages (a : Argument) :
    (decode a).mapError .ofFault = decodeInStages a.codePoints := by
  cases searched : malformedFrom 0 a with
  | some offset =>
    simp only [decode, decodeInStages, searchMalformed_spaced, searchMalformed_codePoints, searched]
    rfl
  | none =>
    have noFault : searchMalformed 0 a.codePoints = none := by
      rw [searchMalformed_codePoints, searched]
    cases text : a.text? with
    | none =>
      have spacedText : Argument.text? (a.map spaced) = none := by simp [text?_spaced, text]
      obtain ⟨place, first, length, found, failed⟩ := encodeFrom_stray 0 spacedText
      rw [strayFrom_spaced] at found
      rw [← map_spacedPoint_codePoints] at failed
      simp only [decode, decodeInStages, searchMalformed_spaced, searched, noFault, text, found,
        failed]
      rfl
    | some cs =>
      have chars := codePoints_of_text? text
      rw [chars] at noFault ⊢
      rw [(standsFor_bytes ((searchMalformed_eq_none 0).1 noFault)).decodeInStages]
      simp only [decode, searched, text]
      cases Utf8.decode (bytes cs) <;> rfl

lemma decode_ofText (raw : List Char) :
    (decode (.ofText raw)).mapError TextFault.ofFault = decodeInStages (raw.map .char) := by
  rw [decode_eq_decodeInStages, codePoints_of_text? (Argument.text?_ofText raw)]

end Arguments

/-! ## Which texts are no form encodings -/

/-- Decoding fails exactly if a percent sign lacks its digits, or the text holds a surrogate, or the
bytes that it stands for are not those of a text. The first percent sign without digits is reported
before all else. Every other text decodes to the one text with these bytes, and no piece without
digits is met on the way: nothing is passed on undecoded, and nothing is decoded twice. -/
theorem decodeInStages_exact (text : List CodePoint) :
    ((∃ fault, decodeInStages text = .error fault) ↔
      (∃ place, LacksDigits text place) ∨ (∃ index, .surrogate index ∈ text) ∨
        ∃ bs, StandsFor text bs ∧ ∀ s, Utf8.encode s ≠ bs) ∧
    (∀ place, decodeInStages text = .error (.malformedEscape place) ↔
      LacksDigits text place ∧ ∀ before < place, ¬LacksDigits text before) ∧
    (∀ s, decodeInStages text = .ok s ↔
      ∃ bs, StandsFor text bs ∧ ∀ t, Utf8.encode t = bs ↔ t = s) ∧
    ((∀ place, ¬LacksDigits text place) →
      ∀ raw, CodePoint.encodeFrom 0 (text.map spacedPoint) = .ok raw →
        ∀ piece ∈ escapePieces raw, (leadingByte? piece).isSome) ∧
    ∀ a : Argument, a.codePoints = text →
      (decode a).mapError Fault.message = (decodeInStages text).mapError TextFault.message := by
  refine ⟨decodeInStages_eq_error, fun place => decodeInStages_eq_malformed, fun s => ?_,
    fun digits raw => isSome_leadingByte? digits, ?_⟩
  · rw [decodeInStages_eq_ok]
    exact exists_congr fun bs => and_congr_right fun _ => encode_eq_iff
  · rintro a rfl
    rw [← decode_eq_decodeInStages]
    cases decode a with
    | ok decoded => rfl
    | error fault => exact congrArg Except.error (message_ofFault fault).symm

/-- A surrogate stands before a percent sign whose digits are cut off: the percent sign is
reported. -/
example : decodeInStages [.surrogate 0, .char '%', .char '4'] = .error (.malformedEscape 1) := by
  decide

end SparqlFormat.FormEncoding
