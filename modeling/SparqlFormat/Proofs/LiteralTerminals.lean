import SparqlFormat.Proofs.Spelling
import SparqlFormat.Proofs.Terminals

/-!
# Identifiers and strings are read as their terminals say

An identifier and a string end with a delimiter that nothing inside them can be mistaken for. A
member of one of these terminals is therefore read whole in front of any text (`…_complete`), which
leaves room for one member only at any place (`PrefixUnique`); and what is read is a member
(`…_mem`).

The readers check the digits of a code point escape when they see its letter, and then pass over
them as over any other characters. The terminals have the escape as one piece. `codePoint_mem_kstar`
puts the pieces together again: the characters of an escape are pieces by themselves, so they can
be taken off a row one by one and put back as one.

Where the long form of a string is not found, none is there; the short form that is read in its
place is then the longest of all four.
-/

namespace SparqlFormat.Terminals

open Computability Lexeme

/-! ## Code point escapes -/

section Escapes

variable {l : Language Char} {c e z : Char} {u v x k : List Char}

lemma startsWithHex_iff {n : Nat} {cs : List Char} :
    startsWithHex n cs = true ↔ ∃ u v, cs = u ++ v ∧ u ∈ one isHex ^ n := by
  simp only [mem_one_pow, startsWithHex, Bool.and_eq_true, beq_iff_eq, List.all_eq_true]
  constructor
  · rintro ⟨length, all⟩
    exact ⟨cs.take n, cs.drop n, (List.take_append_drop n cs).symm, length, all⟩
  · rintro ⟨u, v, rfl, rfl, all⟩
    rw [List.take_left]
    exact ⟨rfl, all⟩

lemma startsCodePoint_iff {cs : List Char} :
    startsCodePoint cs = true ↔ ∃ u v, cs = u ++ v ∧ '\\' :: u ∈ codePoint := by
  constructor
  · intro h
    cases cs with
    | nil => cases h
    | cons c cs =>
      rcases startsCodePoint_cons h with ⟨rfl, digits⟩ | ⟨rfl, digits⟩
      · obtain ⟨u, v, rfl, hu⟩ := startsWithHex_iff.1 digits
        exact ⟨'u' :: u, v, rfl, .inl (mem_exactly_mul.2 ⟨u, hu, rfl⟩)⟩
      · obtain ⟨u, v, rfl, hu⟩ := startsWithHex_iff.1 digits
        exact ⟨'U' :: u, v, rfl, .inr (mem_exactly_mul.2 ⟨u, hu, rfl⟩)⟩
  · rintro ⟨u, v, rfl, hu | hu⟩
    · obtain ⟨digits, hdigits, split⟩ := mem_exactly_mul.1 hu
      obtain ⟨-, rfl⟩ := List.cons.inj split
      exact startsWithHex_iff.2 ⟨digits, v, rfl, hdigits⟩
    · obtain ⟨digits, hdigits, split⟩ := mem_exactly_mul.1 hu
      obtain ⟨-, rfl⟩ := List.cons.inj split
      exact startsWithHex_iff.2 ⟨digits, v, rfl, hdigits⟩

lemma mem_codePoint (member : v ∈ codePoint) :
    ∃ u, v = '\\' :: u ∧ u ≠ [] ∧ ∀ c ∈ u, isCodePointChar c = true := by
  have digits : ∀ {n : Nat} {w : List Char}, w ∈ one isHex ^ n →
      ∀ c ∈ w, isCodePointChar c = true := by
    intro n w hw c mem
    simp [isCodePointChar, (mem_one_pow.1 hw).2 c mem]
  rcases member with h | h
  · obtain ⟨w, hw, rfl⟩ := mem_exactly_mul.1 h
    exact ⟨'u' :: w, rfl, by simp, List.forall_mem_cons.2 ⟨by decide, digits hw⟩⟩
  · obtain ⟨w, hw, rfl⟩ := mem_exactly_mul.1 h
    exact ⟨'U' :: w, rfl, by simp, List.forall_mem_cons.2 ⟨by decide, digits hw⟩⟩

lemma mem_escape (member : v ∈ escape) :
    ∃ e, v = ['\\', e] ∧ stringEscapes.contains e = true := by
  obtain ⟨_, ⟨e, he, rfl⟩, rfl⟩ := mem_exactly_mul.1 member
  exact ⟨e, rfl, he⟩

lemma ne_of_isCodePointChar (part : isCodePointChar c = true)
    (notPart : isCodePointChar z = false) : c ≠ z := by
  rintro rfl
  rw [part] at notPart
  cases notPart

/-- A code point escape that is found in front of a character that is none of its own ends before
that character. -/
lemma exists_codePoint (notPart : isCodePointChar z = false)
    (found : startsCodePoint (x ++ z :: k) = true) :
    ∃ u v, x = u ++ v ∧ '\\' :: u ∈ codePoint := by
  obtain ⟨u, v, split, member⟩ := startsCodePoint_iff.1 found
  obtain ⟨_, tail, -, parts⟩ := mem_codePoint member
  obtain ⟨-, rfl⟩ := List.cons.inj tail
  rcases List.append_eq_append_iff.1 split with ⟨a, rfl, rest⟩ | ⟨a, rfl, -⟩
  · cases a with
    | nil => exact ⟨x, [], (List.append_nil x).symm, by simpa using member⟩
    | cons d a =>
      obtain ⟨rfl, -⟩ := List.cons.inj rest
      exact absurd rfl (ne_of_isCodePointChar (parts z (by simp)) notPart)
  · exact ⟨u, a, rfl, member⟩

/-- A backslash that a code point escape is found after can be put in front of a row in which the
characters of the escape are pieces by themselves. -/
lemma codePoint_mem_kstar (pieces : ∀ u ∈ codePoint, u ∈ l)
    (alone : ∀ c, isCodePointChar c = true → ∀ v, c :: v ∈ l → v = [])
    (notPart : isCodePointChar z = false) (found : startsCodePoint (x ++ z :: k) = true)
    (member : x ∈ l∗) : '\\' :: x ∈ l∗ := by
  obtain ⟨u, v, rfl, escaped⟩ := exists_codePoint notPart found
  obtain ⟨_, tail, -, parts⟩ := mem_codePoint escaped
  obtain ⟨-, rfl⟩ := List.cons.inj tail
  have rest := mem_kstar_of_append (fun c mem => alone c (parts c mem)) member
  exact append_mem_kstar (pieces _ escaped) rest

/-- The same for a backslash and the character after it, in a string. -/
lemma escape_mem_kstar (pieces : ∀ u ∈ escape + codePoint, u ∈ l)
    (single : ∀ c, isCodePointChar c = true → [c] ∈ l)
    (alone : ∀ c, isCodePointChar c = true → ∀ v, c :: v ∈ l → v = [])
    (notPart : isCodePointChar z = false) (found : startsEscape (e :: (x ++ z :: k)) = true)
    (member : x ∈ l∗) : '\\' :: e :: x ∈ l∗ := by
  simp only [startsEscape, Bool.or_eq_true] at found
  rcases found with simple | found
  · have written : ['\\', e] ∈ escape := mem_exactly_mul.2 ⟨[e], ⟨e, simple, rfl⟩, rfl⟩
    exact append_mem_kstar (pieces _ (.inl written)) member
  · have letter : isCodePointChar e = true := by
      rcases startsCodePoint_cons found with ⟨rfl, -⟩ | ⟨rfl, -⟩ <;> decide
    exact codePoint_mem_kstar (x := e :: x) (fun u hu => pieces u (.inr hu)) alone notPart found
      (append_mem_kstar (single e letter) member)

end Escapes

/-- A language whose members are each read whole, whatever follows them, has at most one member at
the head of a text. -/
lemma PrefixUnique.of_reader {l : Language Char} (read : List Char → Option (List Char))
    (complete : ∀ v ∈ l, ∀ k, read (v ++ k) = some v) : PrefixUnique l := by
  rintro text v hv w hw ⟨k, rfl⟩ ⟨k', split⟩
  have read₁ := complete v hv k
  have read₂ := complete w hw k'
  rw [split, read₁] at read₂
  exact Option.some.inj read₂

/-! ## Identifiers -/

section Identifiers

variable {cs body v : List Char} {c : Char}

lemma isIriChar_of_isCodePointChar (part : isCodePointChar c = true) : isIriChar c = true := by
  have excluded : c ∉ iriExcluded := fun mem =>
    List.any_eq_false.1 (by decide : iriExcluded.any isCodePointChar = false) c mem part
  have above : 0x20 < c.toNat := by
    simp only [isCodePointChar, Bool.or_eq_true, beq_iff_eq] at part
    rcases part with (hex | rfl) | rfl
    · simp only [isHex, hexValue?] at hex
      split_ifs at hex <;> first | omega | cases hex
    · decide
    · decide
  simp [isIriChar, above, excluded]

lemma iriPiece_alone (part : isCodePointChar c = true) (v : List Char)
    (member : c :: v ∈ one isIriChar + codePoint) : v = [] := by
  rcases member with h | h
  · exact (cons_mem_one.1 h).2
  · obtain ⟨u, split, -⟩ := mem_codePoint h
    exact absurd (List.cons.inj split).1 (ne_of_isCodePointChar part (by decide))

/-- Characters that stand for themselves are read one by one. -/
lemma iriBody?_append {u : List Char} (plain : ∀ c ∈ u, isIriChar c = true) (cs : List Char) :
    iriBody? (u ++ cs) = (iriBody? cs).map (u ++ ·) := by
  induction u with
  | nil => simp
  | cons c u ih =>
    obtain ⟨hc, others⟩ := List.forall_mem_cons.1 plain
    have notClosing : (c == '>') = false := by
      rw [beq_eq_false_iff_ne]
      rintro rfl
      exact absurd hc (by decide)
    rw [List.cons_append, iriBody?, notClosing, hc, ih others]
    simp [Function.comp_def]

lemma iriBody?_complete (member : body ∈ (one isIriChar + codePoint)∗) (k : List Char) :
    iriBody? (body ++ '>' :: k) = some body := by
  refine kstar_induction (motive := fun body => iriBody? (body ++ '>' :: k) = some body)
    (by simp [iriBody?]) ?_ member
  rintro u hu v - ih
  rcases hu with ⟨c, hc, rfl⟩ | hu
  · rw [List.append_assoc, iriBody?_append (by simpa using hc), ih]
    rfl
  · obtain ⟨u, rfl, -, parts⟩ := mem_codePoint hu
    have found : startsCodePoint (u ++ (v ++ '>' :: k)) = true :=
      startsCodePoint_iff.2 ⟨u, _, rfl, hu⟩
    have plain : ∀ c ∈ u, isIriChar c = true := fun c mem =>
      isIriChar_of_isCodePointChar (parts c mem)
    rw [List.append_assoc, List.cons_append, iriBody?, found, iriBody?_append plain, ih]
    simp

lemma iriBody?_mem (read : iriBody? cs = some body) : body ∈ (one isIriChar + codePoint)∗ := by
  fun_induction iriBody? cs generalizing body with
  | case1 => cases read
  | case2 c cs closes =>
    obtain rfl : body = [] := by simpa using read.symm
    exact Language.nil_mem_kstar _
  | case3 c cs _ piece ih =>
    obtain ⟨body, hbody, rfl⟩ := Option.map_eq_some_iff.1 read
    have rest := ih hbody
    obtain ⟨⟨k, rfl⟩, -⟩ := iriBody?_reread hbody
    rw [Bool.or_eq_true, Bool.and_eq_true, beq_iff_eq] at piece
    rcases piece with plain | ⟨rfl, found⟩
    · exact append_mem_kstar (u := [c]) (.inl ⟨c, plain, rfl⟩) rest
    · exact codePoint_mem_kstar (fun u hu => .inr hu) (fun _ => iriPiece_alone) (by decide)
        found rest
  | case4 => cases read

lemma prefixUnique_identifier : PrefixUnique identifier := by
  refine .of_reader (fun text => (iriBody? text.tail).map fun body => '<' :: (body ++ ['>']))
    fun v hv k => ?_
  obtain ⟨_, inside, rfl⟩ := mem_exactly_mul.1 hv
  obtain ⟨body, hbody, _, rfl, rfl⟩ := Language.mem_mul.1 inside
  have read := iriBody?_complete hbody k
  simp [read]

/-- What is read as an identifier is the longest one there. -/
lemma isLongest_identifier (read : iriBody? cs = some body) :
    IsLongest identifier ('<' :: (body ++ ['>'])) ('<' :: cs) := by
  obtain ⟨⟨k, rfl⟩, -⟩ := iriBody?_reread read
  refine prefixUnique_identifier.isLongest ?_ (by simp)
  exact mem_exactly_mul.2 ⟨_, Language.append_mem_mul (iriBody?_mem read) rfl, rfl⟩

end Identifiers

/-! ## Short strings -/

section Strings

variable {quote : Char} {cs body source v : List Char} {c : Char}

/-- A character of a code point escape stands for itself in a string. -/
lemma isLineBreak_of_isCodePointChar (part : isCodePointChar c = true) :
    isLineBreak c = false := by
  by_contra h
  simp only [isLineBreak, Bool.not_eq_false, Bool.or_eq_true, beq_iff_eq] at h
  rcases h with rfl | rfl <;> exact absurd part (by decide)

lemma stringPiece_alone {p : Char → Bool} (notBackslash : c ≠ '\\')
    (member : c :: v ∈ one p + (escape + codePoint)) : v = [] := by
  rcases member with h | h | h
  · exact (cons_mem_one.1 h).2
  · obtain ⟨e, split, -⟩ := mem_escape h
    exact absurd (List.cons.inj split).1 notBackslash
  · obtain ⟨u, split, -⟩ := mem_codePoint h
    exact absurd (List.cons.inj split).1 notBackslash

lemma startsEscape_of_mem {e : Char} {u : List Char} (member : '\\' :: e :: u ∈ escape + codePoint)
    (k : List Char) : startsEscape (e :: (u ++ k)) = true := by
  simp only [startsEscape, Bool.or_eq_true]
  rcases member with h | h
  · obtain ⟨e', split, mark⟩ := mem_escape h
    simp only [List.cons.injEq, true_and] at split
    exact .inl (split.1 ▸ mark)
  · exact .inr (startsCodePoint_iff.2 ⟨e :: u, k, rfl, h⟩)

lemma mem_escapes (member : v ∈ escape + codePoint) :
    ∃ e u, v = '\\' :: e :: u ∧ ∀ c ∈ u, isCodePointChar c = true := by
  rcases member with h | h
  · obtain ⟨e, rfl, -⟩ := mem_escape h
    exact ⟨e, [], rfl, List.forall_mem_nil _⟩
  · obtain ⟨u, rfl, nonempty, parts⟩ := mem_codePoint h
    obtain ⟨e, u, rfl⟩ := List.exists_cons_of_ne_nil nonempty
    exact ⟨e, u, rfl, (List.forall_mem_cons.1 parts).2⟩

lemma shortBody_append {u : List Char}
    (plain : ∀ c ∈ u, (c == quote || c == '\\' || isLineBreak c) = false) (cs : List Char) :
    shortBody quote (u ++ cs) = (shortBody quote cs).map (u ++ ·) := by
  induction u with
  | nil => simp
  | cons c u ih =>
    obtain ⟨hc, others⟩ := List.forall_mem_cons.1 plain
    simp only [Bool.or_eq_false_iff, beq_eq_false_iff_ne] at hc
    rw [List.cons_append, shortBody_cons hc.1.2 hc.2, ih others]
    simp [hc.1.1, Function.comp_def]

lemma plain_of_isCodePointChar (isMark : isQuote quote = true) (part : isCodePointChar c = true) :
    (c == quote || c == '\\' || isLineBreak c) = false := by
  have notMark := ne_of_isCodePointChar part (isCodePointChar_of_isQuote isMark)
  have notBackslash : c ≠ '\\' := ne_of_isCodePointChar part (by decide)
  simp [notMark, notBackslash, isLineBreak_of_isCodePointChar part]

/-- The inside of a short string is read up to its closing mark. -/
lemma shortBody_complete (isMark : isQuote quote = true) (member : body ∈ (shortUnit quote)∗)
    (k : List Char) : shortBody quote (body ++ quote :: k) = some (body ++ [quote]) := by
  refine kstar_induction
    (motive := fun body => shortBody quote (body ++ quote :: k) = some (body ++ [quote])) ?_ ?_
    member
  · rw [List.nil_append, shortBody_cons (ne_backslash_of_isQuote isMark)
      (isLineBreak_of_isQuote isMark)]
    simp
  rintro u hu v - ih
  rcases hu with ⟨c, hc, rfl⟩ | hu
  · rw [List.append_assoc, shortBody_append (by simpa using hc), ih]
    simp
  · obtain ⟨e, u, rfl, parts⟩ := mem_escapes hu
    have plain := fun c mem => plain_of_isCodePointChar isMark (parts c mem)
    rw [List.append_assoc, List.cons_append, List.cons_append,
      shortBody_escape (startsEscape_of_mem hu _), shortBody_append plain, ih]
    simp

lemma shortBody_mem (isMark : isQuote quote = true) (read : shortBody quote cs = some body) :
    ∃ inner ∈ (shortUnit quote)∗, body = inner ++ [quote] := by
  have notPart := isCodePointChar_of_isQuote isMark
  fun_induction shortBody quote cs generalizing body with
  | case1 => cases read
  | case2 e cs found ih =>
    obtain ⟨body, hbody, rfl⟩ := Option.map_eq_some_iff.1 read
    obtain ⟨inner, member, rfl⟩ := ih hbody
    obtain ⟨⟨k, rfl⟩, -⟩ := shortBody_isPrefix isMark hbody
    refine ⟨'\\' :: e :: inner, escape_mem_kstar (fun u hu => .inr hu) ?_ ?_ notPart
      (k := k) (by simpa using found) member, rfl⟩
    · exact fun c part => .inl ⟨c, by simp [plain_of_isCodePointChar isMark part], rfl⟩
    · exact fun c part v => stringPiece_alone (ne_of_isCodePointChar part (by decide))
  | case3 => cases read
  | case4 => cases read
  | case5 c cs _ _ closes =>
    obtain rfl : body = [quote] := by simpa using read.symm
    exact ⟨[], Language.nil_mem_kstar _, rfl⟩
  | case6 c cs _ plain notClosing ih =>
    obtain ⟨body, hbody, rfl⟩ := Option.map_eq_some_iff.1 read
    obtain ⟨inner, member, rfl⟩ := ih hbody
    have single : (c == quote || c == '\\' || isLineBreak c) = false := by
      simp_all [isLineBreak]
    exact ⟨c :: inner, append_mem_kstar (u := [c]) (.inl ⟨c, by simp [single], rfl⟩) member, rfl⟩

lemma shortString?_complete (isMark : isQuote quote = true) (member : v ∈ shortString quote)
    (k : List Char) : shortString? quote (v ++ k) = some v := by
  obtain ⟨_, inside, rfl⟩ := mem_exactly_mul.1 member
  obtain ⟨body, hbody, _, rfl, rfl⟩ := Language.mem_mul.1 inside
  have read := shortBody_complete isMark hbody k
  simp [shortString?, read]

lemma shortString?_mem (isMark : isQuote quote = true) (read : shortString? quote cs = some v) :
    v ∈ shortString quote := by
  obtain ⟨rest, body, rfl, hbody, rfl⟩ := shortString?_eq_some.1 read
  obtain ⟨inner, member, rfl⟩ := shortBody_mem isMark hbody
  exact mem_exactly_mul.2 ⟨_, Language.append_mem_mul member rfl, rfl⟩

lemma shortString?_marks (isMark : isQuote quote = true) (k : List Char) :
    shortString? quote (quote :: quote :: k) = some [quote, quote] := by
  rw [shortString?, if_pos (by simp), shortBody_cons (ne_backslash_of_isQuote isMark)
    (isLineBreak_of_isQuote isMark), if_pos (by simp)]
  rfl

lemma prefixUnique_shortString (isMark : isQuote quote = true) : PrefixUnique (shortString quote) :=
  .of_reader (shortString? quote) fun _ hv => shortString?_complete isMark hv

/-! ## Long strings -/

lemma head?_of_mem_longUnit (isMark : isQuote quote = true) (member : v ∈ longUnit quote) :
    ∃ c u, v = c :: u ∧ c ≠ quote := by
  rcases member with ⟨c, hc, rfl⟩ | h
  · refine ⟨c, [], rfl, ?_⟩
    rintro rfl
    simp at hc
  · obtain ⟨e, u, rfl, -⟩ := mem_escapes h
    exact ⟨'\\', e :: u, rfl, (ne_backslash_of_isQuote isMark).symm⟩

lemma longBody_append {u : List Char} (plain : ∀ c ∈ u, (c == quote || c == '\\') = false)
    (cs : List Char) : longBody quote (u ++ cs) = (longBody quote cs).map (u ++ ·) := by
  induction u with
  | nil => simp
  | cons c u ih =>
    obtain ⟨hc, others⟩ := List.forall_mem_cons.1 plain
    simp only [Bool.or_eq_false_iff, beq_eq_false_iff_ne] at hc
    rw [List.cons_append, longBody_cons hc.2, ih others]
    simp [hc.1, Function.comp_def]

lemma longBody_unit (isMark : isQuote quote = true) (member : v ∈ longUnit quote) (cs : List Char) :
    longBody quote (v ++ cs) = (longBody quote cs).map (v ++ ·) := by
  rcases member with ⟨c, hc, rfl⟩ | h
  · exact longBody_append (by simpa using hc) cs
  · obtain ⟨e, u, rfl, parts⟩ := mem_escapes h
    have plain : ∀ c ∈ u, (c == quote || c == '\\') = false := fun c mem =>
      (Bool.or_eq_false_iff.1 (plain_of_isCodePointChar isMark (parts c mem))).1
    rw [List.cons_append, List.cons_append, longBody_escape (startsEscape_of_mem h _),
      longBody_append plain]
    simp [Function.comp_def]

lemma longBody_mark (isMark : isQuote quote = true) (notClosing : cs.take 2 ≠ [quote, quote]) :
    longBody quote (quote :: cs) = (longBody quote cs).map (quote :: ·) := by
  rw [longBody_cons (ne_backslash_of_isQuote isMark)]
  simp [notClosing]

/-- The inside of a long string is read up to its closing marks. -/
lemma longBody_complete (isMark : isQuote quote = true) (member : body ∈ (longPiece quote)∗)
    (k : List Char) :
    longBody quote (body ++ quote :: quote :: quote :: k) =
      some (body ++ [quote, quote, quote]) := by
  refine kstar_induction (motive := fun body =>
    longBody quote (body ++ quote :: quote :: quote :: k) =
      some (body ++ [quote, quote, quote])) ?_ ?_ member
  · rw [List.nil_append, longBody_cons (ne_backslash_of_isQuote isMark)]
    simp
  intro u hu v _ ih
  obtain ⟨marks, hmarks, unit, hunit, rfl⟩ := Language.mem_mul.1 hu
  have read := longBody_unit isMark hunit (v ++ quote :: quote :: quote :: k)
  obtain ⟨c, w, rfl, notMark⟩ := head?_of_mem_longUnit isMark hunit
  rw [ih] at read
  rcases hmarks with rfl | rfl | rfl
  · simpa using read
  · rw [List.append_assoc, List.append_assoc, List.singleton_append,
      longBody_mark isMark (by simp [notMark]), read]
    simp
  · rw [List.append_assoc, List.append_assoc, List.cons_append, List.singleton_append,
      longBody_mark isMark (by simp [notMark]), longBody_mark isMark (by simp [notMark]), read]
    simp

lemma longUnit_mem_longPiece (member : v ∈ longUnit quote) : v ∈ longPiece quote :=
  ⟨[], .inl rfl, v, member, rfl⟩

/-- A mark in front of a row of pieces makes the marks of the first piece one more, unless there
are two of them already. -/
lemma mark_mem_kstar (member : v ∈ (longPiece quote)∗) (nonempty : v ≠ [])
    (notClosing : v.take 2 ≠ [quote, quote]) : quote :: v ∈ (longPiece quote)∗ := by
  obtain ⟨c, v, rfl⟩ := List.exists_cons_of_ne_nil nonempty
  obtain ⟨u, w, rfl, hu, hw⟩ := cons_mem_kstar.1 member
  obtain ⟨marks, hmarks, unit, hunit, split⟩ := Language.mem_mul.1 hu
  have longer : quote :: c :: u ∈ longPiece quote := by
    rw [← split]
    rcases hmarks with rfl | rfl | rfl
    · exact ⟨[quote], .inr (.inl rfl), unit, hunit, rfl⟩
    · exact ⟨[quote, quote], .inr (.inr rfl), unit, hunit, rfl⟩
    · refine absurd ?_ notClosing
      rw [← List.cons_append, ← split]
      rfl
  exact append_mem_kstar longer hw

lemma longPiece_alone (isMark : isQuote quote = true) (part : isCodePointChar c = true)
    (v : List Char) (member : c :: v ∈ longPiece quote) : v = [] := by
  obtain ⟨marks, hmarks, unit, hunit, split⟩ := Language.mem_mul.1 member
  have notMark := ne_of_isCodePointChar part (isCodePointChar_of_isQuote isMark)
  rcases hmarks with rfl | rfl | rfl
  · obtain rfl : unit = c :: v := split
    exact stringPiece_alone (ne_of_isCodePointChar part (by decide)) hunit
  · exact absurd (List.cons.inj split).1.symm notMark
  · exact absurd (List.cons.inj split).1.symm notMark

lemma longBody_mem (isMark : isQuote quote = true) (read : longBody quote cs = some body) :
    ∃ inner ∈ (longPiece quote)∗, body = inner ++ [quote, quote, quote] := by
  have notPart := isCodePointChar_of_isQuote isMark
  fun_induction longBody quote cs generalizing body with
  | case1 => cases read
  | case2 e cs found ih =>
    obtain ⟨body, hbody, rfl⟩ := Option.map_eq_some_iff.1 read
    obtain ⟨inner, member, rfl⟩ := ih hbody
    obtain ⟨⟨k, rfl⟩, -⟩ := longBody_isPrefix hbody
    refine ⟨'\\' :: e :: inner, escape_mem_kstar ?_ ?_ ?_ notPart
      (k := quote :: quote :: k) (by simpa using found) member, rfl⟩
    · exact fun u hu => longUnit_mem_longPiece (.inr hu)
    · refine fun c part => longUnit_mem_longPiece (.inl ⟨c, ?_, rfl⟩)
      simp [(Bool.or_eq_false_iff.1 (plain_of_isCodePointChar isMark part)).1]
    · exact fun c part v => longPiece_alone isMark part v
  | case3 => cases read
  | case4 => cases read
  | case5 c cs _ _ closes =>
    obtain rfl : body = [quote, quote, quote] := by simpa using read.symm
    exact ⟨[], Language.nil_mem_kstar _, rfl⟩
  | case6 c cs notEscape notBackslash notClosing ih =>
    obtain ⟨body, hbody, rfl⟩ := Option.map_eq_some_iff.1 read
    obtain ⟨inner, member, rfl⟩ := ih hbody
    obtain ⟨⟨k, rfl⟩, -⟩ := longBody_isPrefix hbody
    refine ⟨c :: inner, ?_, rfl⟩
    by_cases isQuote : c = quote
    · subst isQuote
      have open' : (inner ++ [c, c, c] ++ k).take 2 ≠ [c, c] := by simpa using notClosing
      refine mark_mem_kstar member ?_ ?_
      · rintro rfl
        exact open' rfl
      · intro closing
        have long : 2 ≤ inner.length := by
          have := congrArg List.length closing
          simp at this
          omega
        rw [List.append_assoc, List.take_append_of_le_length long] at open'
        exact open' closing
    · refine append_mem_kstar (u := [c]) (longUnit_mem_longPiece (.inl ⟨c, ?_, rfl⟩)) member
      simp_all

lemma longString?_complete (isMark : isQuote quote = true) (member : v ∈ longString quote)
    (k : List Char) : longString? quote (v ++ k) = some v := by
  obtain ⟨_, inside, rfl⟩ := mem_exactly_mul.1 member
  obtain ⟨body, hbody, _, rfl, rfl⟩ := Language.mem_mul.1 inside
  have read := longBody_complete isMark hbody k
  simp [longString?, read]

lemma longString?_mem (isMark : isQuote quote = true) (read : longString? quote cs = some v) :
    v ∈ longString quote := by
  obtain ⟨rest, body, rfl, hbody, rfl⟩ := longString?_eq_some.1 read
  obtain ⟨inner, member, rfl⟩ := longBody_mem isMark hbody
  exact mem_exactly_mul.2 ⟨_, Language.append_mem_mul member rfl, rfl⟩

lemma prefixUnique_longString (isMark : isQuote quote = true) : PrefixUnique (longString quote) :=
  .of_reader (longString? quote) fun _ hv => longString?_complete isMark hv

/-! ## The four forms -/

lemma mem_string_iff (isMark : isQuote quote = true) (start : v.head? = some quote) :
    v ∈ string ↔ v ∈ shortString quote ∨ v ∈ longString quote := by
  have short : ∀ {q : Char}, v ∈ shortString q → q = quote := by
    intro q h
    obtain ⟨w, -, rfl⟩ := mem_exactly_mul.1 h
    simpa using start
  have long : ∀ {q : Char}, v ∈ longString q → q = quote := by
    intro q h
    obtain ⟨w, -, rfl⟩ := mem_exactly_mul.1 h
    simpa using start
  constructor
  · rintro ((h | h) | h | h)
    · exact .inl (short h ▸ h)
    · exact .inl (short h ▸ h)
    · exact .inr (long h ▸ h)
    · exact .inr (long h ▸ h)
  · simp only [isQuote, Bool.or_eq_true, beq_iff_eq] at isMark
    rcases isMark with rfl | rfl
    · rintro (h | h)
      · exact .inl (.inr h)
      · exact .inr (.inr h)
    · rintro (h | h)
      · exact .inl (.inl h)
      · exact .inr (.inl h)

lemma ne_nil_of_mem_string (member : v ∈ string) : v ≠ [] := by
  rintro rfl
  rcases member with (h | h) | h | h <;> obtain ⟨w, -, split⟩ := mem_exactly_mul.1 h <;> cases split

/-- What is read as a string is the longest of the four forms there. -/
lemma isLongest_string (isMark : isQuote quote = true) (read : string? quote cs = some source) :
    IsLongest string source cs := by
  obtain ⟨atHead, start⟩ := string?_isPrefix isMark read
  have sameMark : ∀ {v : List Char}, v ∈ string → v <+: cs →
      v ∈ shortString quote ∨ v ∈ longString quote := by
    intro v hv hprefix
    obtain ⟨c, w, rfl⟩ := List.exists_cons_of_ne_nil (ne_nil_of_mem_string hv)
    refine (mem_string_iff isMark ?_).1 hv
    obtain ⟨k, rfl⟩ := hprefix
    obtain ⟨k', split⟩ := atHead
    cases source with
    | nil => cases start
    | cons d source =>
      obtain ⟨rfl, -⟩ := List.cons.inj split
      exact start
  unfold string? at read
  cases long : longString? quote cs with
  | some w =>
    obtain rfl : w = source := by simpa [long] using read
    have member := longString?_mem isMark long
    refine ⟨(mem_string_iff isMark start).2 (.inr member), atHead, fun v hv hprefix => ?_⟩
    rcases sameMark hv hprefix with h | h
    · -- the only short string in front of three marks is the empty one
      obtain ⟨k, split⟩ := hprefix
      have short := shortString?_complete isMark h k
      obtain ⟨rest, body, rfl, -, rfl⟩ := longString?_eq_some.1 long
      rw [split, shortString?_marks isMark] at short
      obtain rfl := Option.some.inj short
      simp
    · exact (prefixUnique_longString isMark cs v h w member hprefix atHead ▸ le_rfl)
  | none =>
    have short : shortString? quote cs = some source := by simpa [long] using read
    have member := shortString?_mem isMark short
    refine ⟨(mem_string_iff isMark start).2 (.inl member), atHead, fun v hv hprefix => ?_⟩
    rcases sameMark hv hprefix with h | h
    · exact (prefixUnique_shortString isMark cs v h source member hprefix atHead ▸ le_rfl)
    · obtain ⟨k, rfl⟩ := hprefix
      rw [longString?_complete isMark h k] at long
      cases long

end Strings

end SparqlFormat.Terminals
