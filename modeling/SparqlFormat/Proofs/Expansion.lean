import Mathlib.Data.List.Basic
import SparqlFormat.Grammar.CodePointEscape
import SparqlFormat.Proofs.Literals

/-!
# Code point escapes replaced

`Expansion cs ds` says that `ds` is `cs` with its code point escapes replaced; it has one rule for
a character that stays and one for an escape, and holds exactly when `expandCodePoints` gives `ds`
(`expansion_iff`).

An escape could begin in one piece of a text and end in the next. `Firm` rules that out, and
texts are then expanded piece by piece (`Expansion.append`). A piece is firm if it ends with a
character that no escape holds, or if what follows starts with one, or if it is `Plain`: no
backslash in it stands before the letter of an escape.
-/

namespace SparqlFormat

open Lexeme Grammar

/-! ## Escapes -/

lemma hexNumber?_isSome {ds : List Char} (digits : ∀ c ∈ ds, isHex c = true) :
    (hexNumber? ds).isSome = true := by
  have run : ∀ (acc : Option Nat), acc.isSome = true → (ds.foldl
      (fun acc c => acc.bind fun n => (hexValue? c).map (n * 16 + ·)) acc).isSome = true := by
    induction ds with
    | nil => exact fun acc h => h
    | cons d ds ih =>
      obtain ⟨digit, digits⟩ := List.forall_mem_cons.1 digits
      intro acc hacc
      obtain ⟨n, rfl⟩ := Option.isSome_iff_exists.1 hacc
      obtain ⟨v, hv⟩ := Option.isSome_iff_exists.1 digit
      refine ih digits _ ?_
      simp [hv]
  exact run (some 0) rfl

lemma startsWithHex_iff {n : Nat} {cs : List Char} :
    startsWithHex n cs = true ↔ (cs.take n).length = n ∧ ∀ c ∈ cs.take n, isHex c = true := by
  simp [startsWithHex]

lemma codePoint?_isSome (cs : List Char) : (codePoint? cs).isSome = startsCodePoint cs := by
  cases cs with
  | nil => rfl
  | cons c cs =>
    have width : ∀ n, startsWithHex n cs = true →
        ((hexNumber? (cs.take n)).map fun m => (n, m)).isSome = true := by
      intro n digits
      simpa using hexNumber?_isSome (startsWithHex_iff.1 digits).2
    by_cases short : c = 'u'
    · subst short
      cases digits : startsWithHex 4 cs <;> simp [codePoint?, startsCodePoint, digits, width]
    · by_cases long : c = 'U'
      · subst long
        cases digits : startsWithHex 8 cs <;> simp [codePoint?, startsCodePoint, digits, width]
      · simp [codePoint?, startsCodePoint, short, long]

lemma codePoint?_append {cs : List Char} {width n : Nat} (h : codePoint? cs = some (width, n)) :
    ∃ w rest, cs = w ++ rest ∧ w.length = width + 1 ∧ (∀ c ∈ w, isCodePointChar c = true) ∧
      ∀ k, codePoint? (w ++ k) = some (width, n) := by
  refine ⟨cs.take (width + 1), cs.drop (width + 1), (List.take_append_drop _ _).symm, ?_⟩
  cases cs with
  | nil => simp [codePoint?] at h
  | cons c cs =>
    simp only [codePoint?, Option.ite_none_right_eq_some, Bool.and_eq_true, Option.map_eq_some_iff,
      Prod.mk.injEq] at h
    obtain ⟨⟨letter, digits⟩, m, number, hwidth, rfl⟩ := h
    rw [hwidth] at letter digits number
    obtain ⟨length, all⟩ := startsWithHex_iff.1 digits
    have isLetter : isCodePointChar c = true := by
      by_contra notPart
      simp only [isCodePointChar, Bool.not_eq_true, Bool.or_eq_false_iff] at notPart
      rw [notPart.1.2, notPart.2] at hwidth
      obtain rfl : width = 0 := by simpa using hwidth.symm
      simp at letter
    refine ⟨by simp [length], ?_, fun k => ?_⟩
    · rw [List.take_succ_cons, List.forall_mem_cons]
      exact ⟨isLetter, fun d mem => by simp [isCodePointChar, all d mem]⟩
    have again : startsWithHex width (cs.take width ++ k) = true := by
      refine startsWithHex_append ?_ k
      rw [startsWithHex_iff, List.take_take, Nat.min_self]
      exact ⟨length, all⟩
    have taken : (cs.take width ++ k).take width = cs.take width := by
      rw [List.take_append_of_le_length (by omega), List.take_take, Nat.min_self]
    simp only [List.take_succ_cons, List.cons_append, codePoint?, hwidth, again, letter, taken,
      number]
    simp

/-! ## Expansion -/

/-- A text that, after a backslash, is the escape of a character. -/
def EscapeOf (w : List Char) (d : Char) : Prop :=
  ∃ width n, w.length = width + 1 ∧ (∀ c ∈ w, isCodePointChar c = true) ∧
    (∀ k, codePoint? (w ++ k) = some (width, n)) ∧ charOfCodePoint? n = some d

/-- The second text is the first with its escapes replaced. -/
inductive Expansion : List Char → List Char → Prop
  | nil : Expansion [] []
  | keep {c : Char} {cs ds : List Char} : (c = '\\' → startsCodePoint cs = false) →
      Expansion cs ds → Expansion (c :: cs) (c :: ds)
  | escape {w cs ds : List Char} {d : Char} : EscapeOf w d → Expansion cs ds →
      Expansion ('\\' :: (w ++ cs)) (d :: ds)

/-- The characters of an escape already replaced are passed over. -/
lemma expandFrom_append (w cs : List Char) :
    expandFrom w.length (w ++ cs) = expandFrom 0 cs := by
  induction w with
  | nil => rfl
  | cons c w ih => simpa [expandFrom] using ih

lemma expansion_of_expandFrom {skip : Nat} {cs ds : List Char}
    (h : expandFrom skip cs = some ds) : Expansion (cs.drop skip) ds := by
  fun_induction expandFrom skip cs generalizing ds with
  | case1 =>
    obtain rfl : ds = [] := by simpa using h.symm
    simpa using Expansion.nil
  | case2 skip c cs ih => exact ih h
  | case3 c cs backslash width n found d value ih =>
    obtain rfl : c = '\\' := by simpa using backslash
    obtain ⟨ds, expanded, rfl⟩ := Option.map_eq_some_iff.1 h
    obtain ⟨w, rest, rfl, length, parts, again⟩ := codePoint?_append found
    have rest := ih expanded
    rw [← length, List.drop_left] at rest
    exact .escape ⟨width, n, length, parts, again, value⟩ rest
  | case4 => contradiction
  | case5 c cs backslash none ih =>
    obtain ⟨ds, expanded, rfl⟩ := Option.map_eq_some_iff.1 h
    refine .keep (fun _ => ?_) (ih expanded)
    rw [← codePoint?_isSome, none]
    rfl
  | case6 c cs notBackslash ih =>
    obtain ⟨ds, expanded, rfl⟩ := Option.map_eq_some_iff.1 h
    exact .keep (fun backslash => absurd (beq_iff_eq.2 backslash) notBackslash) (ih expanded)

lemma Expansion.expandFrom {cs ds : List Char} (h : Expansion cs ds) :
    expandFrom 0 cs = some ds := by
  induction h with
  | nil => rfl
  | @keep c cs ds notEscape h ih =>
    rw [Grammar.expandFrom]
    by_cases backslash : c = '\\'
    · have none : codePoint? cs = none := by
        rw [← Option.isNone_iff_eq_none, ← Option.not_isSome, codePoint?_isSome,
          notEscape backslash]
        rfl
      simp [backslash, none, ih]
    · simp [backslash, ih]
  | @escape w cs ds d escape h ih =>
    obtain ⟨width, n, length, -, found, value⟩ := escape
    rw [Grammar.expandFrom, if_pos (by decide)]
    simp only [found cs, value]
    rw [← length, expandFrom_append, ih]
    rfl

/-- A text is expanded exactly as the relation says. -/
theorem expansion_iff {cs ds : List Char} :
    Expansion cs ds ↔ expandCodePoints cs = some ds :=
  ⟨Expansion.expandFrom, expansion_of_expandFrom⟩

/-! ## Piece by piece -/

/-- No escape begins in the first text and ends in the second. -/
def Firm (u k : List Char) : Prop :=
  ∀ v w, u = v ++ '\\' :: w → startsCodePoint w = false → startsCodePoint (w ++ k) = false

/-- No escape begins in the text. -/
def EscapeFree (u : List Char) : Prop :=
  ∀ v w, u = v ++ '\\' :: w → startsCodePoint w = false

/-- Every backslash of a text stands before a character that is the letter of no escape. -/
def Plain (u : List Char) : Prop :=
  ∀ v w, u = v ++ '\\' :: w → ∃ e rest, w = e :: rest ∧ e ≠ 'u' ∧ e ≠ 'U'

lemma Firm.of_cons {c : Char} {u k : List Char} (h : Firm (c :: u) k) : Firm u k := by
  intro v w hcut
  exact h (c :: v) w (by rw [hcut, List.cons_append])

/-- Texts are expanded piece by piece, if no escape lies across the seam. -/
theorem Expansion.append {u u' k k' : List Char} (firm : Firm u k) (hu : Expansion u u')
    (hk : Expansion k k') : Expansion (u ++ k) (u' ++ k') := by
  induction hu with
  | nil => exact hk
  | @keep c cs ds notEscape h ih =>
    refine .keep (fun backslash => ?_) (ih firm.of_cons)
    subst backslash
    exact firm [] cs rfl (notEscape rfl)
  | @escape w cs ds d escape h ih =>
    have rest : Firm cs k := by
      intro v x hcut
      exact firm ('\\' :: (w ++ v)) x (by simp [hcut])
    simpa using Expansion.escape escape (ih rest)

lemma startsCodePoint_of_letter {e : Char} (letter : e ≠ 'u' ∧ e ≠ 'U') (rest : List Char) :
    startsCodePoint (e :: rest) = false := by
  unfold startsCodePoint
  split <;> simp_all

lemma Plain.firm {u : List Char} (h : Plain u) (k : List Char) : Firm u k := by
  intro v w hcut _
  obtain ⟨e, rest, rfl, letter⟩ := h v w hcut
  exact startsCodePoint_of_letter letter (rest ++ k)

lemma Plain.escapeFree {u : List Char} (h : Plain u) : EscapeFree u := by
  intro v w hcut
  obtain ⟨e, rest, rfl, letter⟩ := h v w hcut
  exact startsCodePoint_of_letter letter rest

/-- A text in which no escape begins is left as it is. -/
lemma EscapeFree.expansion {u : List Char} (h : EscapeFree u) : Expansion u u := by
  induction u with
  | nil => exact .nil
  | cons c u ih =>
    have rest : EscapeFree u := fun v w hcut => h (c :: v) w (by rw [hcut, List.cons_append])
    exact .keep (fun backslash => h [] u (by rw [backslash, List.nil_append])) (ih rest)

lemma EscapeFree.of_infix {u part : List Char} (h : EscapeFree u) (inside : part <:+: u) :
    EscapeFree part := by
  obtain ⟨left, right, rfl⟩ := inside
  intro v w hcut
  have whole := h (left ++ v) (w ++ right) (by simp [hcut])
  by_contra starts
  rw [startsCodePoint_append (by simpa using starts)] at whole
  contradiction

lemma Plain.cons {c : Char} {u : List Char} (other : c ≠ '\\') (h : Plain u) : Plain (c :: u) := by
  intro v w hcut
  cases v with
  | nil => exact absurd (List.cons.inj hcut).1 other
  | cons d v => exact h v w (List.cons.inj hcut).2

lemma Plain.escape {e : Char} {u : List Char} (other : e ≠ '\\') (letter : e ≠ 'u' ∧ e ≠ 'U')
    (h : Plain u) : Plain ('\\' :: e :: u) := by
  intro v w hcut
  cases v with
  | nil => exact ⟨e, u, (List.cons.inj hcut).2.symm, letter⟩
  | cons d v => exact h.cons other v w (List.cons.inj hcut).2

lemma plain_nil : Plain [] := by
  intro v w hcut
  simp at hcut

lemma Plain.append {v u : List Char} (other : ∀ c ∈ v, c ≠ '\\') (h : Plain u) :
    Plain (v ++ u) := by
  induction v with
  | nil => exact h
  | cons c v ih =>
    obtain ⟨first, rest⟩ := List.forall_mem_cons.1 other
    exact (ih rest).cons first

lemma plain_of_notMem {u : List Char} (none : '\\' ∉ u) : Plain u := by
  simpa using plain_nil.append fun c mem => ne_of_mem_of_not_mem mem none

/-- A text that ends with a character of no escape is firm. -/
lemma firm_of_last {u : List Char} {z : Char} (notPart : isCodePointChar z = false)
    (notBackslash : z ≠ '\\') (k : List Char) : Firm (u ++ [z]) k := by
  intro v w hcut none
  have mem : z ∈ w := by
    have last := congrArg List.getLast? hcut
    cases w with
    | nil => exact absurd (by simpa using last) notBackslash
    | cons c w =>
      rw [List.getLast?_concat, List.getLast?_append_cons, List.getLast?_cons_cons] at last
      exact List.mem_of_getLast? last.symm
  by_contra starts
  rw [startsCodePoint_of_append mem notPart (by simpa using starts)] at none
  contradiction

/-- A text is firm before a character of no escape. -/
lemma firm_of_head (u : List Char) {k : List Char} {z : Char}
    (notPart : isCodePointChar z = false) : Firm u (z :: k) := by
  intro v w _ none
  simp only [isCodePointChar, Bool.or_eq_false_iff, beq_eq_false_iff_ne] at notPart
  obtain ⟨⟨notHex, notShort⟩, notLong⟩ := notPart
  have digits : ∀ n (x : List Char), startsWithHex n (x ++ z :: k) = true →
      startsWithHex n x = true := by
    intro n
    induction n with
    | zero => simp
    | succ n ih =>
      intro x h
      cases x with
      | nil => simp [notHex] at h
      | cons c x =>
        simp only [List.cons_append, startsWithHex_succ_cons, Bool.and_eq_true] at h ⊢
        exact ⟨h.1, ih x h.2⟩
  by_contra starts
  have starts : startsCodePoint (w ++ z :: k) = true := by simpa using starts
  cases w with
  | nil =>
    rw [List.nil_append, startsCodePoint_of_letter ⟨notShort, notLong⟩] at starts
    contradiction
  | cons c w =>
    rcases startsCodePoint_cons starts with ⟨rfl, h⟩ | ⟨rfl, h⟩ <;>
      simp [startsCodePoint, digits _ _ h] at none

/-! ## Expansion of a string on one line -/

section Breaks

/-- A line break is no part of an escape. -/
lemma isLineBreak_of_isCodePointChar {c : Char} (h : isCodePointChar c = true) :
    isLineBreak c = false := by
  by_contra isBreak
  simp only [isLineBreak, Bool.not_eq_false, Bool.or_eq_true, beq_iff_eq] at isBreak
  rcases isBreak with rfl | rfl <;> revert h <;> decide

lemma escapeLineBreaks_cons {c : Char} (notBreak : isLineBreak c = false) (cs : List Char) :
    Layout.escapeLineBreaks (c :: cs) = c :: Layout.escapeLineBreaks cs := by
  simp only [isLineBreak, Bool.or_eq_false_iff, beq_eq_false_iff_ne] at notBreak
  simp [Layout.escapeLineBreaks, notBreak]

lemma escapeLineBreaks_append {w : List Char} (noBreak : ∀ c ∈ w, isLineBreak c = false)
    (cs : List Char) :
    Layout.escapeLineBreaks (w ++ cs) = w ++ Layout.escapeLineBreaks cs := by
  induction w with
  | nil => rfl
  | cons c w ih =>
    obtain ⟨first, rest⟩ := List.forall_mem_cons.1 noBreak
    rw [List.cons_append, escapeLineBreaks_cons first, ih rest, List.cons_append]

/-- A text with its line breaks escaped is expanded to the text expanded, with some of its line
breaks escaped: all but those that an escape stood for. -/
lemma Expansion.escapeLineBreaks {cs ds : List Char} (h : Expansion cs ds) :
    ∃ es, Expansion (Layout.escapeLineBreaks cs) es ∧ EscapesBreaks ds es := by
  -- the two characters that stand for a line break are no code point escape
  have written : ∀ {e : Char} {es fs : List Char}, e = 'r' ∨ e = 'n' → Expansion es fs →
      Expansion ('\\' :: e :: es) ('\\' :: e :: fs) := by
    intro e es fs letter h
    refine .keep (fun _ => ?_) (.keep (fun backslash => ?_) h)
    · rcases letter with rfl | rfl <;> rfl
    · rcases letter with rfl | rfl <;> contradiction
  induction h with
  | nil => exact ⟨[], .nil, .nil⟩
  | @keep c cs ds notEscape h ih =>
    obtain ⟨es, expanded, escaped⟩ := ih
    by_cases isReturn : c = '\r'
    · subst isReturn
      exact ⟨_, written (.inl rfl) expanded, .return escaped⟩
    by_cases isFeed : c = '\n'
    · subst isFeed
      exact ⟨_, written (.inr rfl) expanded, .feed escaped⟩
    rw [escapeLineBreaks_cons (by simp [isLineBreak, isReturn, isFeed])]
    refine ⟨c :: es, .keep (fun backslash => ?_) expanded, .keep c escaped⟩
    rw [(escapesBreaks_escapeLineBreaks cs).startsCodePoint_eq, notEscape backslash]
  | @escape w cs ds d escape h ih =>
    obtain ⟨es, expanded, escaped⟩ := ih
    obtain ⟨width, n, length, parts, found, value⟩ := escape
    rw [escapeLineBreaks_cons (by decide), escapeLineBreaks_append fun c mem =>
      isLineBreak_of_isCodePointChar (parts c mem)]
    exact ⟨d :: es, .escape ⟨width, n, length, parts, found, value⟩ expanded, .keep d escaped⟩

lemma holdsCodePointEscape_cons {c : Char} (notBackslash : c ≠ '\\') (cs : List Char) :
    holdsCodePointEscape (c :: cs) = holdsCodePointEscape cs := by
  rw [holdsCodePointEscape]
  simp [notBackslash]

/-- Writing line breaks as escapes makes no code point escape. -/
lemma holdsCodePointEscape_of_escapesBreaks {x y : List Char} (h : EscapesBreaks x y)
    (none : holdsCodePointEscape x = false) : holdsCodePointEscape y = false := by
  fun_induction holdsCodePointEscape x generalizing y with
  | case1 =>
    cases h
    rfl
  | case2 c cs ih =>
    simp only [Bool.or_eq_false_iff] at none
    obtain ⟨z, rfl, behind⟩ := (EscapesBreaks.cons_iff (by decide)).1 h
    cases behind with
    | keep _ behind => simp [holdsCodePointEscape, none.1, ih behind none.2]
    | «return» behind => simp [holdsCodePointEscape, ih behind none.2]
    | feed behind => simp [holdsCodePointEscape, ih behind none.2]
  | case3 c cs alone ih =>
    cases h with
    | keep _ behind =>
      by_cases backslash : c = '\\'
      · subst backslash
        cases behind with
        | nil => rfl
        | keep e _ => exact absurd rfl (alone e _ rfl)
        | «return» _ => exact absurd rfl (alone _ _ rfl)
        | feed _ => exact absurd rfl (alone _ _ rfl)
      · rw [holdsCodePointEscape_cons backslash]
        exact ih behind none
    | «return» behind => simp [holdsCodePointEscape, ih behind none]
    | feed behind => simp [holdsCodePointEscape, ih behind none]

end Breaks

end SparqlFormat
