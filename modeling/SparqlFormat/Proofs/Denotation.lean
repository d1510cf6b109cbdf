import SparqlFormat.Proofs.Expansion

/-!
# What a string literal denotes

A string literal denotes the characters between its quotation marks, a backslash and what follows
it standing for one character: a letter or mark for a character of its own, `u` or `U` with its
digits for the code point they denote. Characters are given by their code points, since an escape
may denote a code point that is no character.

Two facts matter. Every text that is read as a string denotes something (`literalValue?_isSome`):
no backslash in it is without its escape. And a string whose raw line breaks are written as escapes
denotes what it did before (`literalValue?_escapesBreaks`), wherever in the literal they stand.
-/

namespace SparqlFormat

open Lexeme Grammar

/-! ## Reading escapes -/

/-- The code point that a letter or mark stands for after a backslash. -/
def charEscape? : Char → Option Nat
  | 't' => some 0x09
  | 'b' => some 0x08
  | 'n' => some 0x0A
  | 'r' => some 0x0D
  | 'f' => some 0x0C
  | '\\' => some 0x5C
  | '"' => some 0x22
  | '\'' => some 0x27
  | _ => none

/-- The escape that a text after a backslash starts with: how many characters it takes, and the
code point it denotes. -/
def escape? : List Char → Option (Nat × Nat)
  | [] => none
  | c :: cs =>
    match charEscape? c with
    | some n => some (1, n)
    | none => (codePoint? (c :: cs)).map fun (width, n) => (width + 1, n)

/-- The code points that a text denotes of which the first `skip` characters belong to an escape
already read; none if a backslash in it starts no escape. -/
def codePointsFrom : Nat → List Char → Option (List Nat)
  | _, [] => some []
  | skip + 1, _ :: cs => codePointsFrom skip cs
  | 0, c :: cs =>
    if c == '\\' then
      match escape? cs with
      | some (width, n) => (codePointsFrom width cs).map (n :: ·)
      | none => none
    else (codePointsFrom 0 cs).map (c.toNat :: ·)

/-- What stands between the quotation marks of a literal, three or one on either side. -/
def literalBody (quote : Char) (source : List Char) : List Char :=
  let width := if source.take 3 == [quote, quote, quote] then 3 else 1
  (source.drop width).take (source.length - 2 * width)

/-- The code points that a string literal denotes; none if the text is not one string literal. -/
def literalValue? : List Char → Option (List Nat)
  | [] => none
  | quote :: cs =>
    if isQuote quote && string? quote (quote :: cs) == some (quote :: cs) then
      codePointsFrom 0 (literalBody quote (quote :: cs))
    else none

/-! ## Backslashes and their escapes -/

lemma charEscape?_isSome (c : Char) : (charEscape? c).isSome = stringEscapes.contains c := by
  unfold charEscape?
  split <;> simp_all [stringEscapes]

lemma codePointsFrom_escape {cs : List Char} {width n : Nat} (h : escape? cs = some (width, n)) :
    codePointsFrom 0 ('\\' :: cs) = (codePointsFrom width cs).map (n :: ·) := by
  simp [codePointsFrom, h]

/-- An escape takes characters that stand in no other place of a string: no backslash after the
first of them, and no line break. -/
lemma escape?_eq_some {cs : List Char} {width n : Nat} (h : escape? cs = some (width, n)) :
    ∃ c w rest, cs = c :: (w ++ rest) ∧ width = w.length + 1 ∧ isLineBreak c = false ∧
      (∀ d ∈ w, isCodePointChar d = true) ∧ ∀ k, escape? (c :: (w ++ k)) = some (width, n) := by
  cases cs with
  | nil => simp [escape?] at h
  | cons c cs =>
    cases simple : charEscape? c with
    | some m =>
      simp only [escape?, simple, Option.some.injEq, Prod.mk.injEq] at h
      obtain ⟨rfl, rfl⟩ := h
      have admitted : stringEscapes.contains c = true := by
        rw [← charEscape?_isSome, simple]
        rfl
      have starts : startsEscape (c :: cs) = true := by
        simp only [startsEscape, admitted, Bool.true_or]
      have notBreak := isLineBreak_of_startsEscape starts
      exact ⟨c, [], cs, rfl, rfl, notBreak, by simp, fun k => by simp [escape?, simple]⟩
    | none =>
      simp only [escape?, simple, Option.map_eq_some_iff, Prod.mk.injEq, Prod.exists] at h
      obtain ⟨digits, m, found, rfl, rfl⟩ := h
      obtain ⟨w, rest, cut, length, parts, again⟩ := codePoint?_append found
      cases w with
      | nil => simp at length
      | cons d w =>
        obtain ⟨rfl, rfl⟩ := List.cons.inj cut
        obtain ⟨isPart, parts⟩ := List.forall_mem_cons.1 parts
        refine ⟨c, w, rest, rfl, by rw [← length, List.length_cons],
          isLineBreak_of_isCodePointChar isPart, parts, fun k => ?_⟩
        have again := again k
        rw [List.cons_append] at again
        simp [escape?, simple, again]

lemma escape?_isSome {e : Char} {cs : List Char} (h : startsEscape (e :: cs) = true) :
    (escape? (e :: cs)).isSome = true := by
  cases simple : charEscape? e with
  | some n => simp [escape?, simple]
  | none =>
    have notAdmitted : stringEscapes.contains e = false := by
      rw [← charEscape?_isSome, simple]
      rfl
    simp only [startsEscape, notAdmitted, Bool.false_or] at h
    simp [escape?, simple, codePoint?_isSome, h]

/-- A text in which every backslash starts an escape. -/
inductive Escaped : List Char → Prop
  | nil : Escaped []
  | plain {c : Char} {cs : List Char} : c ≠ '\\' → Escaped cs → Escaped (c :: cs)
  | escape {e : Char} {cs : List Char} : startsEscape (e :: cs) = true → Escaped cs →
      Escaped ('\\' :: e :: cs)

/-- A text in which every backslash starts an escape denotes something, also from the middle of an
escape on. -/
lemma Escaped.codePointsFrom_isSome {cs : List Char} (h : Escaped cs) {skip : Nat}
    (inside : ∀ c ∈ cs.take skip, c ≠ '\\') : (codePointsFrom skip cs).isSome = true := by
  induction h generalizing skip with
  | nil => cases skip <;> rfl
  | @plain c cs notBackslash _ ih =>
    cases skip with
    | zero =>
      have rest : (codePointsFrom 0 cs).isSome = true := ih (by simp)
      simpa [codePointsFrom, notBackslash] using rest
    | succ skip =>
      rw [List.take_succ_cons, List.forall_mem_cons] at inside
      exact ih inside.2
  | @escape e cs starts _ ih =>
    cases skip with
    | succ skip => simp at inside
    | zero =>
      obtain ⟨⟨width, n⟩, found⟩ := Option.isSome_iff_exists.1 (escape?_isSome starts)
      obtain ⟨c, w, rest, cut, rfl, -, parts, -⟩ := escape?_eq_some found
      obtain ⟨rfl, rfl⟩ := List.cons.inj cut
      rw [codePointsFrom_escape found, Option.isSome_map]
      refine ih ?_
      rw [List.take_left]
      rintro d mem rfl
      exact absurd (parts _ mem) (by decide)

/-! ## Bodies of literals -/

lemma startsWithHex_of_append_cons {n : Nat} {u r : List Char} {z : Char}
    (notHex : isHex z = false) (h : startsWithHex n (u ++ z :: r) = true) :
    startsWithHex n u = true := by
  induction n generalizing u with
  | zero => simp
  | succ n ih =>
    cases u with
    | nil => simp [notHex] at h
    | cons c u =>
      simp only [List.cons_append, startsWithHex_succ_cons, Bool.and_eq_true] at h ⊢
      exact ⟨h.1, ih h.2⟩

/-- An escape in front of a quotation mark ends before it. -/
lemma startsEscape_of_append_quote {quote e : Char} (isMark : isQuote quote = true)
    {u r : List Char} (h : startsEscape (e :: (u ++ quote :: r)) = true) :
    startsEscape (e :: u) = true := by
  have notHex : isHex quote = false := by
    have notPart := isCodePointChar_of_isQuote isMark
    simp only [isCodePointChar, Bool.or_eq_false_iff] at notPart
    exact notPart.1.1
  simp only [startsEscape, Bool.or_eq_true] at h ⊢
  refine h.imp_right fun codePoint => ?_
  rcases startsCodePoint_cons codePoint with ⟨rfl, digits⟩ | ⟨rfl, digits⟩ <;>
    simp [startsCodePoint, startsWithHex_of_append_cons notHex digits]

section Bodies

variable {quote : Char} {cs body : List Char}

lemma longBody_escaped (isMark : isQuote quote = true) (h : longBody quote cs = some body) :
    ∃ inner, body = inner ++ [quote, quote, quote] ∧ Escaped inner := by
  fun_induction longBody quote cs generalizing body with
  | case1 => simp at h
  | case2 e cs escape ih =>
    obtain ⟨body, hbody, rfl⟩ := Option.map_eq_some_iff.1 h
    obtain ⟨inner, rfl, escaped⟩ := ih hbody
    obtain ⟨r, rfl⟩ := (longBody_isPrefix hbody).1
    rw [List.append_assoc] at escape
    exact ⟨'\\' :: e :: inner, rfl, .escape (startsEscape_of_append_quote isMark escape) escaped⟩
  | case3 => simp at h
  | case4 => simp at h
  | case5 => exact ⟨[], by simpa using h.symm, .nil⟩
  | case6 c cs _ notBackslash _ ih =>
    obtain ⟨body, hbody, rfl⟩ := Option.map_eq_some_iff.1 h
    obtain ⟨inner, rfl, escaped⟩ := ih hbody
    exact ⟨c :: inner, rfl, .plain (by simpa using notBackslash) escaped⟩

lemma shortBody_escaped (isMark : isQuote quote = true) (h : shortBody quote cs = some body) :
    ∃ inner, body = inner ++ [quote] ∧ Escaped inner := by
  fun_induction shortBody quote cs generalizing body with
  | case1 => simp at h
  | case2 e cs escape ih =>
    obtain ⟨body, hbody, rfl⟩ := Option.map_eq_some_iff.1 h
    obtain ⟨inner, rfl, escaped⟩ := ih hbody
    obtain ⟨r, rfl⟩ := (shortBody_isPrefix isMark hbody).1
    rw [List.append_assoc] at escape
    exact ⟨'\\' :: e :: inner, rfl, .escape (startsEscape_of_append_quote isMark escape) escaped⟩
  | case3 => simp at h
  | case4 => simp at h
  | case5 => exact ⟨[], by simpa using h.symm, .nil⟩
  | case6 c cs _ plain _ ih =>
    obtain ⟨body, hbody, rfl⟩ := Option.map_eq_some_iff.1 h
    obtain ⟨inner, rfl, escaped⟩ := ih hbody
    refine ⟨c :: inner, rfl, .plain ?_ escaped⟩
    rintro rfl
    simp at plain

lemma literalBody_long (inner : List Char) :
    literalBody quote (quote :: quote :: quote :: (inner ++ [quote, quote, quote])) = inner := by
  simp [literalBody]

lemma literalBody_short {inner : List Char} (isMark : isQuote quote = true)
    (h : shortBody quote cs = some (inner ++ [quote])) :
    literalBody quote (quote :: (inner ++ [quote])) = inner := by
  -- a body that starts with its mark is over, so there are no three marks in a row
  have short : (inner ++ [quote]).take 2 ≠ [quote, quote] := by
    intro two
    cases inner with
    | nil => simp at two
    | cons c inner =>
      obtain rfl : c = quote := by
        simp only [List.cons_append, List.take_succ_cons, List.cons.injEq] at two
        exact two.1
      exact absurd (shortBody_head isMark h) (by simp)
  simp [literalBody, short]

end Bodies

/-! ## Literals -/

section Literals

variable {quote : Char} {source : List Char}

lemma literalValue?_eq (isMark : isQuote quote = true)
    (h : string? quote source = some source) :
    literalValue? source = codePointsFrom 0 (literalBody quote source) := by
  have start := (string?_isPrefix isMark h).2
  cases source with
  | nil => simp at start
  | cons c cs =>
    obtain rfl : c = quote := by simpa using start
    simp [literalValue?, isMark, h]

lemma literalValue?_eq_some {value : List Nat} (h : literalValue? source = some value) :
    ∃ quote, isQuote quote = true ∧ string? quote source = some source ∧
      codePointsFrom 0 (literalBody quote source) = some value := by
  cases source with
  | nil => simp [literalValue?] at h
  | cons quote cs =>
    simp only [literalValue?, Option.ite_none_right_eq_some, Bool.and_eq_true, beq_iff_eq] at h
    exact ⟨quote, h.1.1, h.1.2, h.2⟩

/-- A string literal denotes something. -/
theorem literalValue?_isSome (isMark : isQuote quote = true)
    (h : string? quote source = some source) : (literalValue? source).isSome = true := by
  rw [literalValue?_eq isMark h]
  rcases string?_eq_some h with long | short
  · obtain ⟨rest, body, -, hbody, rfl⟩ := longString?_eq_some.1 long
    obtain ⟨inner, rfl, escaped⟩ := longBody_escaped isMark hbody
    rw [literalBody_long]
    exact escaped.codePointsFrom_isSome (by simp)
  · obtain ⟨rest, body, -, hbody, rfl⟩ := shortString?_eq_some.1 short
    obtain ⟨inner, rfl, escaped⟩ := shortBody_escaped isMark hbody
    rw [literalBody_short isMark hbody]
    exact escaped.codePointsFrom_isSome (by simp)

/-- An escape that the grammar does not know denotes nothing, and neither does its text. -/
example : literalValue? "'a\\u0041\\t'".toList = some [0x61, 0x41, 0x09] ∧
    literalValue? "'a\\d'".toList = none := by
  decide

/-! ## Line breaks as escapes -/

namespace Lexeme.EscapesBreaks

lemma of_append {w x y : List Char} (noBreak : ∀ c ∈ w, isLineBreak c = false)
    (h : EscapesBreaks (w ++ x) y) : ∃ z, y = w ++ z ∧ EscapesBreaks x z := by
  induction w generalizing y with
  | nil => exact ⟨y, rfl, h⟩
  | cons c w ih =>
    obtain ⟨first, others⟩ := List.forall_mem_cons.1 noBreak
    obtain ⟨_, rfl, escaped⟩ := (cons_iff first).1 h
    obtain ⟨z, rfl, behind⟩ := ih others escaped
    exact ⟨z, rfl, behind⟩

lemma of_append_right {x w y : List Char} (noBreak : ∀ c ∈ w, isLineBreak c = false)
    (h : EscapesBreaks (x ++ w) y) : ∃ z, y = z ++ w ∧ EscapesBreaks x z := by
  induction x generalizing y with
  | nil => exact ⟨[], h.eq_of_no_break noBreak, .nil⟩
  | cons c x ih =>
    cases h with
    | keep _ escaped =>
      obtain ⟨z, rfl, front⟩ := ih escaped
      exact ⟨c :: z, rfl, .keep c front⟩
    | «return» escaped =>
      obtain ⟨z, rfl, front⟩ := ih escaped
      exact ⟨'\\' :: 'r' :: z, rfl, .return front⟩
    | feed escaped =>
      obtain ⟨z, rfl, front⟩ := ih escaped
      exact ⟨'\\' :: 'n' :: z, rfl, .feed front⟩

/-- No escape holds a line break, and the escapes of line breaks denote them. -/
lemma codePointsFrom_eq {x y : List Char} (h : EscapesBreaks x y) {skip : Nat}
    (inside : ∀ c ∈ x.take skip, isLineBreak c = false) {value : List Nat}
    (denotes : codePointsFrom skip x = some value) : codePointsFrom skip y = some value := by
  fun_induction codePointsFrom skip x generalizing y value with
  | case1 skip =>
    cases h
    rw [← denotes]
    cases skip <;> rfl
  | case2 skip c cs ih =>
    rw [List.take_succ_cons, List.forall_mem_cons] at inside
    obtain ⟨z, rfl, escaped⟩ := (cons_iff inside.1).1 h
    exact ih escaped inside.2 denotes
  | case3 c cs isBackslash width n found ih =>
    obtain rfl : c = '\\' := by simpa using isBackslash
    obtain ⟨value, rest, rfl⟩ := Option.map_eq_some_iff.1 denotes
    obtain ⟨e, w, r, rfl, rfl, notBreak, parts, again⟩ := escape?_eq_some found
    have noBreak : ∀ d ∈ e :: w, isLineBreak d = false :=
      List.forall_mem_cons.2 ⟨notBreak, fun d mem => isLineBreak_of_isCodePointChar (parts d mem)⟩
    obtain ⟨z, rfl, escaped⟩ := (cons_iff (by decide)).1 h
    obtain ⟨z', rfl, -⟩ := of_append (w := e :: w) noBreak escaped
    have inside : ∀ d ∈ (e :: (w ++ r)).take (w.length + 1), isLineBreak d = false := by
      rwa [← List.cons_append, ← List.length_cons, List.take_left]
    rw [List.cons_append] at escaped ⊢
    rw [codePointsFrom_escape (again z'), ih escaped inside rest, Option.map_some]
  | case4 => contradiction
  | case5 c cs notBackslash ih =>
    obtain ⟨value, rest, rfl⟩ := Option.map_eq_some_iff.1 denotes
    cases h with
    | keep _ escaped => simp [codePointsFrom, notBackslash, ih escaped (by simp) rest]
    | «return» escaped =>
      simp [codePointsFrom, escape?, charEscape?, ih escaped (by simp) rest]
    | feed escaped => simp [codePointsFrom, escape?, charEscape?, ih escaped (by simp) rest]

end Lexeme.EscapesBreaks

/-- A string literal with some of its line breaks written as escapes denotes what it did. -/
theorem literalValue?_escapesBreaks {x y : List Char} (h : EscapesBreaks x y) {value : List Nat}
    (denotes : literalValue? x = some value) : literalValue? y = some value := by
  obtain ⟨quote, isMark, hx, denotes⟩ := literalValue?_eq_some denotes
  have notBreak := isLineBreak_of_isQuote isMark
  have hy := string?_reread (k := []) isMark hx h (by simp)
  rw [List.append_nil] at hy
  rw [literalValue?_eq isMark hy]
  rcases string?_eq_some hx with long | short
  · obtain ⟨rest, body, -, hbody, rfl⟩ := longString?_eq_some.1 long
    obtain ⟨inner, rfl, -⟩ := longBody_escaped isMark hbody
    have noBreak : ∀ c ∈ [quote, quote, quote], isLineBreak c = false := by simp [notBreak]
    obtain ⟨z, rfl, behind⟩ := EscapesBreaks.of_append noBreak h
    obtain ⟨inner', rfl, between⟩ := behind.of_append_right noBreak
    rw [literalBody_long] at denotes
    rw [← between.codePointsFrom_eq (by simp) denotes]
    exact congrArg (codePointsFrom 0) (literalBody_long inner')
  · obtain ⟨rest, body, -, hbody, rfl⟩ := shortString?_eq_some.1 short
    have noBreak := (shortBody_isPrefix isMark hbody).2.2
    rwa [h.eq_of_no_break (List.forall_mem_cons.2 ⟨notBreak, noBreak⟩)]

end Literals

end SparqlFormat
