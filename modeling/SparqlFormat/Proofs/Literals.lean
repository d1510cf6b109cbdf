import Mathlib.Tactic.Common
import Mathlib.Tactic.Lemma
import SparqlFormat.Lexeme.Literal
import SparqlFormat.Layout.Basic
import SparqlFormat.Text.Blank

/-!
# Strings and identifiers are read back

A string or an identifier ends with a delimiter of its own, so it is found again in front of
almost any text; only an empty short string must not be followed by a third quotation mark. The
one look-ahead that reaches past the next character is that of code point escapes, and it stops
at the closing delimiter (`startsCodePoint_of_append`).

A string is also found again after some of its raw line breaks are written as escapes
(`EscapesBreaks`): long strings may hold raw line breaks, and no other form can
(`string?_reread`).
-/

namespace SparqlFormat

/-! ## Hexadecimal look-ahead -/

@[simp] lemma startsWithHex_zero (cs : List Char) : startsWithHex 0 cs = true := by
  simp [startsWithHex]

@[simp] lemma startsWithHex_succ_nil (n : Nat) : startsWithHex (n + 1) [] = false := by
  simp [startsWithHex]

@[simp] lemma startsWithHex_succ_cons (n : Nat) (c : Char) (cs : List Char) :
    startsWithHex (n + 1) (c :: cs) = (isHex c && startsWithHex n cs) := by
  simp only [startsWithHex, List.take_succ_cons, List.length_cons, List.all_cons]
  cases isHex c <;> simp

lemma startsWithHex_append {n : Nat} {u : List Char} (h : startsWithHex n u = true)
    (k : List Char) : startsWithHex n (u ++ k) = true := by
  induction n generalizing u with
  | zero => simp
  | succ n ih =>
    cases u with
    | nil => simp at h
    | cons c u =>
      simp only [startsWithHex_succ_cons, Bool.and_eq_true] at h
      simp [h.1, ih h.2]

/-- The look-ahead does not go past a character that is no digit. -/
lemma startsWithHex_of_append {n : Nat} {u r : List Char} {z : Char} (mem : z ∈ u)
    (notHex : isHex z = false) (h : startsWithHex n (u ++ r) = true) :
    startsWithHex n u = true := by
  induction n generalizing u with
  | zero => simp
  | succ n ih =>
    cases u with
    | nil => simp at mem
    | cons c u =>
      simp only [List.cons_append, startsWithHex_succ_cons, Bool.and_eq_true] at h ⊢
      refine ⟨h.1, ih ?_ h.2⟩
      rcases List.mem_cons.1 mem with rfl | mem
      · rw [h.1] at notHex
        contradiction
      · exact mem

namespace Lexeme

/-- A character of a code point escape after its backslash. -/
def isCodePointChar (c : Char) : Bool :=
  isHex c || c == 'u' || c == 'U'

lemma startsCodePoint_cons {c : Char} {cs : List Char} (h : startsCodePoint (c :: cs) = true) :
    (c = 'u' ∧ startsWithHex 4 cs = true) ∨ c = 'U' ∧ startsWithHex 8 cs = true := by
  unfold startsCodePoint at h
  split at h
  · next e =>
    obtain ⟨rfl, rfl⟩ := List.cons.inj e
    exact .inl ⟨rfl, h⟩
  · next e =>
    obtain ⟨rfl, rfl⟩ := List.cons.inj e
    exact .inr ⟨rfl, h⟩
  · simp at h

lemma startsCodePoint_append {u : List Char} (h : startsCodePoint u = true) (k : List Char) :
    startsCodePoint (u ++ k) = true := by
  cases u with
  | nil => simp [startsCodePoint] at h
  | cons c u =>
    rcases startsCodePoint_cons h with ⟨rfl, digits⟩ | ⟨rfl, digits⟩ <;>
      simp [startsCodePoint, startsWithHex_append digits]

lemma startsCodePoint_of_append {u r : List Char} {z : Char} (mem : z ∈ u)
    (notPart : isCodePointChar z = false) (h : startsCodePoint (u ++ r) = true) :
    startsCodePoint u = true := by
  simp only [isCodePointChar, Bool.or_eq_false_iff, beq_eq_false_iff_ne] at notPart
  obtain ⟨⟨notHex, notShort⟩, notLong⟩ := notPart
  cases u with
  | nil => simp at mem
  | cons c u =>
    rcases startsCodePoint_cons h with ⟨rfl, digits⟩ | ⟨rfl, digits⟩
    · have mem : z ∈ u := (List.mem_cons.1 mem).resolve_left notShort
      simp [startsCodePoint, startsWithHex_of_append mem notHex digits]
    · have mem : z ∈ u := (List.mem_cons.1 mem).resolve_left notLong
      simp [startsCodePoint, startsWithHex_of_append mem notHex digits]

/-! ## Identifiers -/

/-- The body of an identifier is followed by its closing bracket, and is found again in front of
any text after that. -/
lemma iriBody?_reread {cs body : List Char} (h : iriBody? cs = some body) :
    (∃ rest, cs = body ++ '>' :: rest) ∧ ∀ k, iriBody? (body ++ '>' :: k) = some body := by
  fun_induction iriBody? cs generalizing body with
  | case1 => simp at h
  | case2 c cs closes =>
    obtain rfl : c = '>' := by simpa using closes
    obtain rfl : body = [] := by simpa using h.symm
    exact ⟨⟨cs, rfl⟩, fun k => by simp [iriBody?]⟩
  | case3 c cs notClosing member ih =>
    obtain ⟨body, hbody, rfl⟩ := Option.map_eq_some_iff.1 h
    obtain ⟨⟨rest, rfl⟩, reread⟩ := ih hbody
    refine ⟨⟨rest, rfl⟩, fun k => ?_⟩
    have member' : (isIriChar c || (c == '\\' && startsCodePoint (body ++ '>' :: k))) = true := by
      simp only [Bool.or_eq_true, Bool.and_eq_true] at member ⊢
      rcases member with plain | ⟨backslash, escape⟩
      · exact .inl plain
      · have cut : body ++ '>' :: rest = (body ++ ['>']) ++ rest := by simp
        rw [cut] at escape
        have inside := startsCodePoint_of_append (z := '>') (by simp) (by decide) escape
        exact .inr ⟨backslash, by simpa using startsCodePoint_append inside k⟩
    rw [List.cons_append, iriBody?, if_neg notClosing, if_pos member', reread k]
    rfl
  | case4 => simp at h

/-- The body of an identifier is made of its characters and of backslashes. -/
lemma iriBody?_chars {cs body : List Char} (h : iriBody? cs = some body) :
    ∀ c ∈ body, (isIriChar c || c == '\\') = true := by
  fun_induction iriBody? cs generalizing body with
  | case2 =>
    obtain rfl : body = [] := by simpa using h.symm
    exact List.forall_mem_nil _
  | case3 c cs _ member ih =>
    obtain ⟨body, hbody, rfl⟩ := Option.map_eq_some_iff.1 h
    refine List.forall_mem_cons.2 ⟨?_, ih hbody⟩
    simp only [Bool.or_eq_true, Bool.and_eq_true] at member ⊢
    exact member.imp_right And.left
  | _ => contradiction

/-! ## Line breaks as escapes -/

/-- The second text is the first with some of its line breaks written as escapes. -/
inductive EscapesBreaks : List Char → List Char → Prop
  | nil : EscapesBreaks [] []
  | keep (c : Char) {x y : List Char} : EscapesBreaks x y → EscapesBreaks (c :: x) (c :: y)
  | return {x y : List Char} : EscapesBreaks x y → EscapesBreaks ('\r' :: x) ('\\' :: 'r' :: y)
  | feed {x y : List Char} : EscapesBreaks x y → EscapesBreaks ('\n' :: x) ('\\' :: 'n' :: y)

namespace EscapesBreaks

lemma refl (x : List Char) : EscapesBreaks x x := by
  induction x with
  | nil => exact .nil
  | cons c x ih => exact .keep c ih

lemma cons_iff {c : Char} {x y : List Char} (notBreak : isLineBreak c = false) :
    EscapesBreaks (c :: x) y ↔ ∃ z, y = c :: z ∧ EscapesBreaks x z := by
  constructor
  · intro h
    cases h with
    | keep _ h => exact ⟨_, rfl, h⟩
    | «return» h => exact absurd notBreak (by decide)
    | feed h => exact absurd notBreak (by decide)
  · rintro ⟨z, rfl, h⟩
    exact .keep c h

lemma eq_of_no_break {x y : List Char} (h : EscapesBreaks x y)
    (noBreak : ∀ c ∈ x, isLineBreak c = false) : y = x := by
  induction h with
  | nil => rfl
  | keep c h ih => rw [ih fun d mem => noBreak d (by simp [mem])]
  | «return» h ih => exact absurd (noBreak '\r' (by simp)) (by decide)
  | feed h ih => exact absurd (noBreak '\n' (by simp)) (by decide)

lemma startsWithHex_eq {n : Nat} {x y : List Char} (h : EscapesBreaks x y) :
    startsWithHex n y = startsWithHex n x := by
  induction n generalizing x y with
  | zero => simp
  | succ n ih =>
    cases h with
    | nil => rfl
    | keep c h => rw [startsWithHex_succ_cons, startsWithHex_succ_cons, ih h]
    | «return» h => simp [show isHex '\r' = false by decide, show isHex '\\' = false by decide]
    | feed h => simp [show isHex '\n' = false by decide, show isHex '\\' = false by decide]

lemma startsCodePoint_eq {x y : List Char} (h : EscapesBreaks x y) :
    startsCodePoint y = startsCodePoint x := by
  cases h with
  | nil => rfl
  | keep c h =>
    by_cases short : c = 'u'
    · subst short
      exact h.startsWithHex_eq
    · by_cases long : c = 'U'
      · subst long
        exact h.startsWithHex_eq
      · simp [startsCodePoint, short, long]
  | «return» h => rfl
  | feed h => rfl

end EscapesBreaks

lemma escapesBreaks_escapeLineBreaks (x : List Char) :
    EscapesBreaks x (Layout.escapeLineBreaks x) := by
  induction x with
  | nil => exact .nil
  | cons c x ih =>
    simp only [Layout.escapeLineBreaks, List.flatMap_cons] at ih ⊢
    by_cases hr : c = '\r'
    · subst hr
      exact .return ih
    · by_cases hn : c = '\n'
      · subst hn
        exact .feed ih
      · simpa [hr, hn] using EscapesBreaks.keep c ih

/-! ## Bodies of strings -/

/-- An escape of a string is found again in front of other text, if the text between it and the
closing mark is kept but for its line breaks. -/
lemma startsEscape_reread {e z : Char} {x y r : List Char} (mem : z ∈ x)
    (notPart : isCodePointChar z = false) (h : EscapesBreaks x y)
    (escape : startsEscape (e :: (x ++ r)) = true) (k : List Char) :
    startsEscape (e :: (y ++ k)) = true := by
  simp only [startsEscape, Bool.or_eq_true] at escape ⊢
  rcases escape with simple | codePoint
  · exact .inl simple
  · have inside : startsCodePoint (e :: x) = true :=
      startsCodePoint_of_append (List.mem_cons_of_mem e mem) notPart codePoint
    have escaped : startsCodePoint (e :: y) = true := by
      rw [(EscapesBreaks.keep e h).startsCodePoint_eq, inside]
    exact .inr (startsCodePoint_append escaped k)

/-- What follows a backslash in a string is no line break. -/
lemma isLineBreak_of_startsEscape {e : Char} {cs : List Char}
    (escape : startsEscape (e :: cs) = true) : isLineBreak e = false := by
  by_contra h
  simp only [isLineBreak, Bool.not_eq_false, Bool.or_eq_true, beq_iff_eq] at h
  rcases h with rfl | rfl
  · exact absurd escape (by simp [startsEscape, stringEscapes, startsCodePoint])
  · exact absurd escape (by simp [startsEscape, stringEscapes, startsCodePoint])

/-- A quotation mark. -/
def isQuote (c : Char) : Bool :=
  c == '"' || c == '\''

section Bodies

variable {quote : Char}

lemma isCodePointChar_of_isQuote (h : isQuote quote = true) : isCodePointChar quote = false := by
  simp only [isQuote, Bool.or_eq_true, beq_iff_eq] at h
  rcases h with rfl | rfl <;> decide

lemma isLineBreak_of_isQuote (h : isQuote quote = true) : isLineBreak quote = false := by
  simp only [isQuote, Bool.or_eq_true, beq_iff_eq] at h
  rcases h with rfl | rfl <;> decide

lemma ne_backslash_of_isQuote (h : isQuote quote = true) : quote ≠ '\\' := by
  rintro rfl
  exact absurd h (by decide)

lemma longBody_cons {c : Char} (notBackslash : c ≠ '\\') (cs : List Char) :
    longBody quote (c :: cs) =
      if c == quote && cs.take 2 == [quote, quote] then some [quote, quote, quote]
      else (longBody quote cs).map (c :: ·) := by
  rw [longBody]
  · simp [notBackslash]
  · intro e cs' h
    exact absurd h notBackslash

lemma longBody_escape {e : Char} {cs : List Char} (escape : startsEscape (e :: cs) = true) :
    longBody quote ('\\' :: e :: cs) = (longBody quote cs).map ('\\' :: e :: ·) := by
  rw [longBody, if_pos escape]

lemma longBody_isPrefix {cs body : List Char} (h : longBody quote cs = some body) :
    body <+: cs ∧ ∃ inner, body = inner ++ [quote, quote, quote] := by
  fun_induction longBody quote cs generalizing body with
  | case1 => simp at h
  | case2 e cs escape ih =>
    obtain ⟨body, hbody, rfl⟩ := Option.map_eq_some_iff.1 h
    obtain ⟨atHead, inner, rfl⟩ := ih hbody
    exact ⟨by simpa using atHead, '\\' :: e :: inner, by simp⟩
  | case3 => simp at h
  | case4 => simp at h
  | case5 c cs notBackslash _ closes =>
    obtain rfl : body = [quote, quote, quote] := by simpa using h.symm
    simp only [Bool.and_eq_true, beq_iff_eq] at closes
    obtain ⟨rfl, closing⟩ := closes
    refine ⟨?_, [], rfl⟩
    rw [← List.take_append_drop 2 cs, closing]
    exact List.prefix_append [_, _, _] _
  | case6 c cs _ _ notClosing ih =>
    obtain ⟨body, hbody, rfl⟩ := Option.map_eq_some_iff.1 h
    obtain ⟨atHead, inner, rfl⟩ := ih hbody
    exact ⟨by simpa using atHead, c :: inner, by simp⟩

/-- Two marks in a row stay two marks in a row, and none arise. -/
lemma take_two_of_escapesBreaks (isMark : isQuote quote = true) {x y k : List Char}
    (h : EscapesBreaks x y) (long : 3 ≤ x.length) (pair : (y ++ k).take 2 = [quote, quote]) :
    x.take 2 = [quote, quote] := by
  have notBackslash := ne_backslash_of_isQuote isMark
  cases h with
  | nil => simp at long
  | «return» h =>
    simp only [List.cons_append, List.take_succ_cons, List.cons.injEq] at pair
    exact absurd pair.1.symm notBackslash
  | feed h =>
    simp only [List.cons_append, List.take_succ_cons, List.cons.injEq] at pair
    exact absurd pair.1.symm notBackslash
  | keep c h =>
    cases h with
    | nil => simp at long
    | keep d h => simpa using pair
    | «return» h =>
      simp only [List.cons_append, List.take_succ_cons, List.cons.injEq] at pair
      exact absurd pair.2.1.symm notBackslash
    | feed h =>
      simp only [List.cons_append, List.take_succ_cons, List.cons.injEq] at pair
      exact absurd pair.2.1.symm notBackslash

/-- A long body is found again in front of any text, also with line breaks as escapes. -/
lemma longBody_reread (isMark : isQuote quote = true) {cs body body' : List Char}
    (h : longBody quote cs = some body) (escaped : EscapesBreaks body body') (k : List Char) :
    longBody quote (body' ++ k) = some body' := by
  have notBackslash := ne_backslash_of_isQuote isMark
  have notBreak := isLineBreak_of_isQuote isMark
  have notPart := isCodePointChar_of_isQuote isMark
  fun_induction longBody quote cs generalizing body body' with
  | case1 => simp at h
  | case2 e cs escape ih =>
    obtain ⟨body, hbody, rfl⟩ := Option.map_eq_some_iff.1 h
    obtain ⟨tail', rfl, afterBackslash⟩ := (EscapesBreaks.cons_iff (by decide)).1 escaped
    obtain ⟨rest', rfl, afterEscape⟩ :=
      (EscapesBreaks.cons_iff (isLineBreak_of_startsEscape escape)).1 afterBackslash
    obtain ⟨⟨r, rfl⟩, inner, hinner⟩ := longBody_isPrefix hbody
    have escape' := startsEscape_reread (z := quote) (by simp [hinner]) notPart afterEscape
      escape k
    rw [List.cons_append, List.cons_append, longBody_escape escape', ih hbody afterEscape]
    rfl
  | case3 => simp at h
  | case4 => simp at h
  | case5 c cs _ _ closes =>
    obtain rfl : body = [quote, quote, quote] := by simpa using h.symm
    obtain rfl := escaped.eq_of_no_break (by simpa using notBreak)
    simp [longBody_cons notBackslash]
  | case6 c cs _ _ notClosing ih =>
    obtain ⟨body, hbody, rfl⟩ := Option.map_eq_some_iff.1 h
    obtain ⟨⟨r, rfl⟩, inner, hinner⟩ := longBody_isPrefix hbody
    cases escaped with
    | «return» escaped =>
      rw [List.cons_append, List.cons_append,
        longBody_escape (by simp [startsEscape, stringEscapes]), ih hbody escaped]
      rfl
    | feed escaped =>
      rw [List.cons_append, List.cons_append,
        longBody_escape (by simp [startsEscape, stringEscapes]), ih hbody escaped]
      rfl
    | @keep _ _ body' escaped =>
      have long : 3 ≤ body.length := by simp [hinner]
      have notBackslash' : c ≠ '\\' := by
        rintro rfl
        simp_all
      have notClosing' : ¬(c == quote && (body' ++ k).take 2 == [quote, quote]) = true := by
        intro closes
        apply notClosing
        simp only [Bool.and_eq_true, beq_iff_eq] at closes ⊢
        refine ⟨closes.1, ?_⟩
        rw [List.take_append_of_le_length (by omega)]
        exact take_two_of_escapesBreaks isMark escaped long closes.2
      rw [List.cons_append, longBody_cons notBackslash', if_neg notClosing', ih hbody escaped]
      rfl

lemma shortBody_cons {c : Char} (notBackslash : c ≠ '\\') (notBreak : isLineBreak c = false)
    (cs : List Char) :
    shortBody quote (c :: cs) =
      if c == quote then some [quote] else (shortBody quote cs).map (c :: ·) := by
  simp only [isLineBreak, Bool.or_eq_false_iff, beq_eq_false_iff_ne] at notBreak
  rw [shortBody]
  · simp [notBackslash, notBreak]
  · intro e cs' h
    exact absurd h notBackslash

lemma shortBody_escape {e : Char} {cs : List Char} (escape : startsEscape (e :: cs) = true) :
    shortBody quote ('\\' :: e :: cs) = (shortBody quote cs).map ('\\' :: e :: ·) := by
  rw [shortBody, if_pos escape]

lemma shortBody_isPrefix (isMark : isQuote quote = true) {cs body : List Char}
    (h : shortBody quote cs = some body) :
    body <+: cs ∧ (∃ inner, body = inner ++ [quote]) ∧ ∀ c ∈ body, isLineBreak c = false := by
  have markNotBreak := isLineBreak_of_isQuote isMark
  fun_induction shortBody quote cs generalizing body with
  | case1 => simp at h
  | case2 e cs escape ih =>
    obtain ⟨body, hbody, rfl⟩ := Option.map_eq_some_iff.1 h
    obtain ⟨atHead, ⟨inner, rfl⟩, noBreak⟩ := ih hbody
    have noBreak' := isLineBreak_of_startsEscape escape
    exact ⟨by simpa using atHead, ⟨'\\' :: e :: inner, by simp⟩,
      List.forall_mem_cons.2 ⟨by decide, List.forall_mem_cons.2 ⟨noBreak', noBreak⟩⟩⟩
  | case3 => simp at h
  | case4 => simp at h
  | case5 c cs _ _ closes =>
    obtain rfl : body = [quote] := by simpa using h.symm
    obtain rfl : c = quote := by simpa using closes
    exact ⟨by simp, ⟨[], rfl⟩, by simpa using markNotBreak⟩
  | case6 c cs _ plain _ ih =>
    obtain ⟨body, hbody, rfl⟩ := Option.map_eq_some_iff.1 h
    obtain ⟨atHead, ⟨inner, rfl⟩, noBreak⟩ := ih hbody
    have noBreak' : isLineBreak c = false := by
      simp_all [isLineBreak]
    exact ⟨by simpa using atHead, ⟨c :: inner, by simp⟩,
      List.forall_mem_cons.2 ⟨noBreak', noBreak⟩⟩

/-- A short body is found again in front of any text. -/
lemma shortBody_reread (isMark : isQuote quote = true) {cs body : List Char}
    (h : shortBody quote cs = some body) (k : List Char) :
    shortBody quote (body ++ k) = some body := by
  have notPart := isCodePointChar_of_isQuote isMark
  fun_induction shortBody quote cs generalizing body with
  | case1 => simp at h
  | case2 e cs escape ih =>
    obtain ⟨body, hbody, rfl⟩ := Option.map_eq_some_iff.1 h
    obtain ⟨⟨r, rfl⟩, ⟨inner, hinner⟩, -⟩ := shortBody_isPrefix isMark hbody
    have escape' := startsEscape_reread (z := quote) (by simp [hinner]) notPart (.refl body)
      escape k
    rw [List.cons_append, List.cons_append, shortBody_escape escape', ih hbody]
    rfl
  | case3 => simp at h
  | case4 => simp at h
  | case5 c cs _ _ closes =>
    obtain rfl : body = [quote] := by simpa using h.symm
    rw [List.cons_append, shortBody_cons (ne_backslash_of_isQuote isMark)
      (isLineBreak_of_isQuote isMark)]
    simp
  | case6 c cs _ plain notClosing ih =>
    obtain ⟨body, hbody, rfl⟩ := Option.map_eq_some_iff.1 h
    have notBackslash : c ≠ '\\' := by
      rintro rfl
      simp at plain
    have notBreak : isLineBreak c = false := by
      simp_all [isLineBreak]
    rw [List.cons_append, shortBody_cons notBackslash notBreak, if_neg notClosing, ih hbody]
    rfl

lemma shortBody_head (isMark : isQuote quote = true) {cs rest : List Char}
    (h : shortBody quote cs = some (quote :: rest)) : rest = [] := by
  fun_induction shortBody quote cs generalizing rest with
  | case1 => simp at h
  | case2 e cs escape ih =>
    obtain ⟨body, -, hbody⟩ := Option.map_eq_some_iff.1 h
    exact absurd (List.cons.inj hbody).1.symm (ne_backslash_of_isQuote isMark)
  | case3 => simp at h
  | case4 => simp at h
  | case5 c cs _ _ closes => simpa using h.symm
  | case6 c cs _ plain notClosing ih =>
    obtain ⟨body, -, hbody⟩ := Option.map_eq_some_iff.1 h
    simp [(List.cons.inj hbody).1] at notClosing

/-! ## Strings -/

lemma longString?_eq_some {cs source : List Char} :
    longString? quote cs = some source ↔
      ∃ rest body, cs = quote :: quote :: quote :: rest ∧ longBody quote rest = some body ∧
        source = quote :: quote :: quote :: body := by
  unfold longString?
  constructor
  · intro h
    split at h
    · next opens =>
      obtain ⟨body, hbody, rfl⟩ := Option.map_eq_some_iff.1 h
      refine ⟨cs.drop 3, body, ?_, hbody, rfl⟩
      conv_lhs => rw [← List.take_append_drop 3 cs, eq_of_beq opens]
      rfl
    · simp at h
  · rintro ⟨rest, body, rfl, hbody, rfl⟩
    simp [hbody]

lemma shortString?_eq_some {cs source : List Char} :
    shortString? quote cs = some source ↔
      ∃ rest body, cs = quote :: rest ∧ shortBody quote rest = some body ∧
        source = quote :: body := by
  cases cs with
  | nil => simp [shortString?]
  | cons c cs =>
    simp only [shortString?, Option.ite_none_right_eq_some, beq_iff_eq, Option.map_eq_some_iff,
      List.cons.injEq]
    constructor
    · rintro ⟨rfl, body, hbody, rfl⟩
      exact ⟨cs, body, ⟨rfl, rfl⟩, hbody, rfl⟩
    · rintro ⟨rest, body, ⟨rfl, rfl⟩, hbody, rfl⟩
      exact ⟨rfl, body, hbody, rfl⟩

lemma string?_eq_some {cs source : List Char} (h : string? quote cs = some source) :
    longString? quote cs = some source ∨ shortString? quote cs = some source := by
  unfold string? at h
  cases hl : longString? quote cs with
  | none => exact .inr (by simpa [hl] using h)
  | some s => exact .inl (by simpa [hl] using h)

lemma string?_isPrefix (isMark : isQuote quote = true) {cs source : List Char}
    (h : string? quote cs = some source) : source <+: cs ∧ source.head? = some quote := by
  rcases string?_eq_some h with long | short
  · obtain ⟨rest, body, rfl, hbody, rfl⟩ := longString?_eq_some.1 long
    exact ⟨by simpa using (longBody_isPrefix hbody).1, rfl⟩
  · obtain ⟨rest, body, rfl, hbody, rfl⟩ := shortString?_eq_some.1 short
    exact ⟨by simpa using (shortBody_isPrefix isMark hbody).1, rfl⟩

lemma string?_last (isMark : isQuote quote = true) {cs source : List Char}
    (h : string? quote cs = some source) : ∃ inner, source = inner ++ [quote] := by
  rcases string?_eq_some h with long | short
  · obtain ⟨rest, body, rfl, hbody, rfl⟩ := longString?_eq_some.1 long
    obtain ⟨-, inner, rfl⟩ := longBody_isPrefix hbody
    exact ⟨quote :: quote :: quote :: (inner ++ [quote, quote]), by simp⟩
  · obtain ⟨rest, body, rfl, hbody, rfl⟩ := shortString?_eq_some.1 short
    obtain ⟨-, ⟨inner, rfl⟩, -⟩ := shortBody_isPrefix isMark hbody
    exact ⟨quote :: inner, by simp⟩

/-- A string is found again in front of any text that does not start with its mark, also with
line breaks written as escapes. -/
lemma string?_reread (isMark : isQuote quote = true) {cs source source' k : List Char}
    (h : string? quote cs = some source) (escaped : EscapesBreaks source source')
    (stop : k.head? ≠ some quote) : string? quote (source' ++ k) = some source' := by
  have notBreak := isLineBreak_of_isQuote isMark
  rcases string?_eq_some h with long | short
  · obtain ⟨rest, body, -, hbody, rfl⟩ := longString?_eq_some.1 long
    obtain ⟨_, rfl, escaped₁⟩ := (EscapesBreaks.cons_iff notBreak).1 escaped
    obtain ⟨_, rfl, escaped₂⟩ := (EscapesBreaks.cons_iff notBreak).1 escaped₁
    obtain ⟨body', rfl, escaped₃⟩ := (EscapesBreaks.cons_iff notBreak).1 escaped₂
    have reread := longBody_reread isMark hbody escaped₃ k
    have hlong := longString?_eq_some.2 ⟨body' ++ k, body', rfl, reread, rfl⟩
    simp only [List.cons_append, string?, hlong, Option.some_or]
  · obtain ⟨rest, body, -, hbody, rfl⟩ := shortString?_eq_some.1 short
    obtain ⟨-, ⟨inner, hinner⟩, noBreak⟩ := shortBody_isPrefix isMark hbody
    obtain rfl := escaped.eq_of_no_break (List.forall_mem_cons.2 ⟨notBreak, noBreak⟩)
    -- three marks in a row would make the string empty and the next character a mark
    have hlong : longString? quote (quote :: body ++ k) = none := by
      rw [Option.eq_none_iff_forall_not_mem]
      intro s mem
      obtain ⟨rest', body', split, -, -⟩ := longString?_eq_some.1 mem
      have split' : body ++ k = quote :: quote :: rest' := by simpa using split
      cases body with
      | nil => simp at hinner
      | cons d ds =>
        obtain ⟨rfl, split''⟩ := List.cons.inj split'
        obtain rfl := shortBody_head isMark hbody
        exact stop (by rw [show k = d :: rest' from split'']; rfl)
    have hshort := shortString?_eq_some.2
      ⟨body ++ k, body, rfl, shortBody_reread isMark hbody k, rfl⟩
    rw [string?, hlong, Option.none_or]
    exact hshort

end Bodies

end Lexeme

end SparqlFormat
