import Mathlib.Tactic.Common
import Mathlib.Tactic.Lemma
import SparqlFormat.Layout.Spacing

/-!
# Properly nested rows

A row of tokens is nested properly if a stack of open brackets takes it in: an opening brace or
parenthesis is put on the stack, and a closing one takes its like off (`openFrom`). What is on the
stack is what is open, so a row splits at the bracket on top into what stands before that bracket
and a nested part behind it (`exists_opening`).

The layout counts instead, and its counts need no proper nesting (`openBraces`, `openParens`).
Where there is proper nesting the two agree: as many brackets are open as are on the stack.
-/

namespace SparqlFormat.Layout

/-! ## A stack of open brackets -/

/-- The kinds of bracket that indent. -/
inductive Bracket
  | brace
  | paren
  deriving DecidableEq

namespace Bracket

/-- The mark that opens a bracket. -/
def opening : Bracket → Mark
  | brace => .openBrace
  | paren => .openParen

/-- The mark that closes a bracket. -/
def closing : Bracket → Mark
  | brace => .closeBrace
  | paren => .closeParen

/-- The open brackets, the innermost first, with the innermost one closed. -/
def close (b : Bracket) : List Bracket → Option (List Bracket)
  | [] => none
  | top :: outer => if top = b then some outer else none

lemma close_eq_some {b : Bracket} {opened outer : List Bracket} :
    b.close opened = some outer ↔ opened = b :: outer := by
  cases opened with
  | nil => simp [close]
  | cons top rest =>
    simp only [close, Option.ite_none_right_eq_some, Option.some.injEq, List.cons.injEq]

end Bracket

/-- The open brackets after a token; none if it closes what is not open. -/
def stack (opened : List Bracket) : Token → Option (List Bracket)
  | .mark .openBrace => some (.brace :: opened)
  | .mark .openParen => some (.paren :: opened)
  | .mark .closeBrace => Bracket.brace.close opened
  | .mark .closeParen => Bracket.paren.close opened
  | _ => some opened

/-- The brackets that are open after a row of tokens, given those open before it. -/
def openFrom (opened : List Bracket) (ts : List Token) : Option (List Bracket) :=
  ts.foldlM stack opened

/-- Whether every bracket of a row is closed in it, and in the right order. -/
def Nested (ts : List Token) : Prop :=
  openFrom [] ts = some []

instance (ts : List Token) : Decidable (Nested ts) :=
  inferInstanceAs (Decidable (openFrom [] ts = some []))

section Stack

variable {opened opened' : List Bracket} {t : Token} {ts us : List Token} {b : Bracket}

@[simp] lemma openFrom_nil : openFrom opened [] = some opened := rfl

@[simp] lemma openFrom_cons :
    openFrom opened (t :: ts) = (stack opened t).bind fun opened => openFrom opened ts := rfl

@[simp] lemma openFrom_append :
    openFrom opened (ts ++ us) = (openFrom opened ts).bind fun opened => openFrom opened us := by
  simp only [openFrom, List.foldlM_append]
  rfl

lemma stack_opening (b : Bracket) (opened : List Bracket) :
    stack opened (.mark b.opening) = some (b :: opened) := by
  cases b <;> rfl

lemma stack_closing (b : Bracket) (opened : List Bracket) :
    stack opened (.mark b.closing) = b.close opened := by
  cases b <;> rfl

/-- A token opens a bracket, or closes one, or leaves the stack alone. -/
lemma stack_cases (t : Token) :
    (∃ b : Bracket, t = .mark b.opening) ∨ (∃ b : Bracket, t = .mark b.closing) ∨
      (∀ opened, stack opened t = some opened) ∧
        ∀ b : Bracket, t ≠ .mark b.opening ∧ t ≠ .mark b.closing := by
  cases t with
  | mark m =>
    cases m with
    | openBrace => exact .inl ⟨.brace, rfl⟩
    | openParen => exact .inl ⟨.paren, rfl⟩
    | closeBrace => exact .inr (.inl ⟨.brace, rfl⟩)
    | closeParen => exact .inr (.inl ⟨.paren, rfl⟩)
    | _ => exact .inr (.inr ⟨fun _ => rfl, fun b => by cases b <;> decide⟩)
  | _ => exact .inr (.inr ⟨fun _ => rfl, fun b => by simp⟩)

/-- What is open outside a row plays no part in it. -/
lemma openFrom_outer (outer : List Bracket) (h : openFrom opened ts = some opened') :
    openFrom (opened ++ outer) ts = some (opened' ++ outer) := by
  induction ts generalizing opened with
  | nil =>
    obtain rfl := Option.some.inj h
    rfl
  | cons t ts ih =>
    obtain ⟨middle, first, rest⟩ := Option.bind_eq_some_iff.1 h
    refine Option.bind_eq_some_iff.2 ⟨middle ++ outer, ?_, ih rest⟩
    rcases stack_cases t with ⟨b, rfl⟩ | ⟨b, rfl⟩ | ⟨same, -⟩
    · rw [stack_opening] at first ⊢
      obtain rfl := Option.some.inj first
      rfl
    · rw [stack_closing, Bracket.close_eq_some] at first ⊢
      rw [first]
      rfl
    · rw [same] at first ⊢
      obtain rfl := Option.some.inj first
      rfl

/-- A nested row leaves what is open as it is. -/
lemma Nested.openFrom (h : Nested ts) (opened : List Bracket) :
    openFrom opened ts = some opened :=
  openFrom_outer opened h

/-- A row splits at the bracket that is open last: what stands before it leaves the others open,
and what stands behind it is nested. -/
lemma exists_opening (h : openFrom [] ts = some (b :: outer)) :
    ∃ before inner, ts = before ++ .mark b.opening :: inner ∧ openFrom [] before = some outer ∧
      Nested inner := by
  -- by the length of the row, read from its end: what is closed there is opened further back
  induction hlength : ts.length using Nat.strongRecOn generalizing ts b outer with
  | _ length ih =>
    subst hlength
    rcases List.eq_nil_or_concat ts with rfl | ⟨ts, t, rfl⟩
    · cases h
    rw [List.concat_eq_append] at h ih ⊢
    have shorter : ∀ {us : List Token}, us.length ≤ ts.length →
        us.length < (ts ++ [t]).length := by
      intro us le
      rw [List.length_append, List.length_singleton]
      omega
    rw [openFrom_append] at h
    obtain ⟨middle, first, last⟩ := Option.bind_eq_some_iff.1 h
    have last : stack middle t = some (b :: outer) := by simpa using last
    have grow : ∀ {inner : List Token}, Nested inner → ∀ {us : List Token}, Nested us →
        Nested (inner ++ us) := by
      intro inner hinner us hus
      rw [Nested, openFrom_append, hinner]
      exact hus
    rcases stack_cases t with ⟨b', rfl⟩ | ⟨b', rfl⟩ | ⟨same, -⟩
    · rw [stack_opening] at last
      obtain ⟨rfl, rfl⟩ := List.cons.inj (Option.some.inj last)
      exact ⟨ts, [], rfl, first, rfl⟩
    · rw [stack_closing, Bracket.close_eq_some] at last
      subst last
      obtain ⟨before, inner, rfl, hbefore, hinner⟩ :=
        ih ts.length (shorter (Nat.le_refl _)) first rfl
      have le : before.length ≤ (before ++ .mark b'.opening :: inner).length := by simp
      obtain ⟨before, inner', rfl, hbefore, hinner'⟩ :=
        ih before.length (shorter le) hbefore rfl
      refine ⟨before, inner' ++ (.mark b'.opening :: inner ++ [.mark b'.closing]), by simp,
        hbefore, grow hinner' ?_⟩
      rw [Nested, List.cons_append, openFrom_cons, stack_opening, Option.bind_some,
        openFrom_append, hinner.openFrom, Option.bind_some, openFrom_cons, stack_closing,
        Bracket.close_eq_some.2 rfl]
      rfl
    · rw [same] at last
      obtain rfl := Option.some.inj last
      obtain ⟨before, inner, rfl, hbefore, hinner⟩ :=
        ih ts.length (shorter (Nat.le_refl _)) first rfl
      refine ⟨before, inner ++ [t], by simp, hbefore, grow hinner ?_⟩
      rw [Nested, openFrom_cons, same]
      rfl

/-- A closing bracket has one opening bracket: only one splits a row with a nested part behind
it. -/
lemma opening_unique {outer outer' inner inner' : List Token}
    (same : outer ++ .mark b.opening :: inner = outer' ++ .mark b.opening :: inner')
    (nested : Nested inner) (nested' : Nested inner') : outer = outer' := by
  -- a bracket that is opened inside a nested part is closed there
  have closed : ∀ {part inner inner' : List Token}, Nested inner → Nested inner' →
      inner' ≠ part ++ .mark b.opening :: inner := by
    rintro part inner inner' nested nested' rfl
    rw [Nested, openFrom_append, Option.bind_eq_some_iff] at nested'
    obtain ⟨opened, -, rest⟩ := nested'
    rw [openFrom_cons, stack_opening, Option.bind_some, nested.openFrom] at rest
    cases rest
  rcases List.append_eq_append_iff.1 same with ⟨part, rfl, h⟩ | ⟨part, rfl, h⟩
  · cases part with
    | nil => simp
    | cons u part => exact absurd (List.cons.inj h).2 (closed nested' nested)
  · cases part with
    | nil => simp
    | cons u part => exact absurd (List.cons.inj h).2 (closed nested nested')

end Stack

/-! ## Counts of open brackets -/

/-- How many more braces a row opens than it closes. -/
def openBraces (ts : List Token) : Int :=
  ts.count (.mark .openBrace) - ts.count (.mark .closeBrace)

/-- How many more parentheses a row opens than it closes. -/
def openParens (ts : List Token) : Int :=
  ts.count (.mark .openParen) - ts.count (.mark .closeParen)

/-- How many more braces and parentheses a row opens than it closes. -/
def openCount (ts : List Token) : Int :=
  openBraces ts + openParens ts

section Counts

variable {opened opened' : List Bracket} {ts us : List Token}

@[simp] lemma openBraces_append : openBraces (ts ++ us) = openBraces ts + openBraces us := by
  simp only [openBraces, List.count_append]
  omega

@[simp] lemma openParens_append : openParens (ts ++ us) = openParens ts + openParens us := by
  simp only [openParens, List.count_append]
  omega

@[simp] lemma openCount_append : openCount (ts ++ us) = openCount ts + openCount us := by
  simp only [openCount, openBraces_append, openParens_append]
  omega

lemma openCount_opening (b : Bracket) : openCount [.mark b.opening] = 1 := by
  cases b <;> decide

lemma openCount_closing (b : Bracket) : openCount [.mark b.closing] = -1 := by
  cases b <;> decide

/-- What is neither a brace nor a parenthesis is not counted. -/
lemma openCount_other {t : Token}
    (other : ∀ b : Bracket, t ≠ .mark b.opening ∧ t ≠ .mark b.closing) : openCount [t] = 0 := by
  obtain ⟨openBrace, closeBrace⟩ := other .brace
  obtain ⟨openParen, closeParen⟩ := other .paren
  simp only [Bracket.opening, Bracket.closing] at openBrace closeBrace openParen closeParen
  simp [openCount, openBraces, openParens, openBrace, closeBrace, openParen, closeParen]

/-- As many brackets are open as the counts say. -/
lemma length_of_openFrom (h : openFrom opened ts = some opened') :
    (opened'.length : Int) = opened.length + openCount ts := by
  induction ts generalizing opened with
  | nil =>
    obtain rfl := Option.some.inj h
    simp [openCount, openBraces, openParens]
  | cons t ts ih =>
    obtain ⟨middle, first, rest⟩ := Option.bind_eq_some_iff.1 h
    rw [ih rest, ← List.singleton_append, openCount_append]
    have step : (middle.length : Int) = opened.length + openCount [t] := by
      rcases stack_cases t with ⟨b, rfl⟩ | ⟨b, rfl⟩ | ⟨same, other⟩
      · rw [stack_opening] at first
        obtain rfl := Option.some.inj first
        rw [openCount_opening, List.length_cons]
        omega
      · rw [stack_closing, Bracket.close_eq_some] at first
        rw [first, openCount_closing, List.length_cons]
        omega
      · rw [same] at first
        obtain rfl := Option.some.inj first
        rw [openCount_other other]
        omega
    omega

end Counts

end SparqlFormat.Layout
