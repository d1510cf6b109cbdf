import SparqlFormat.Proofs.Nested
import SparqlFormat.Proofs.Validity

/-!
# Rows of the language are nested

What a rule of the grammar does to a stack of open brackets is computed from the rule alone
(`Rule.effect`): a call of a nonterminal is taken to do nothing, alternatives have to do the same,
and what is repeated or left out has to do nothing. Every production does nothing to the empty
stack, which bears the guess out, so a row that the grammar derives is nested
(`nested_of_derives`).

Comments and the texts of tokens play no part in it. A text whose layout is made of a row of the
language is therefore laid out from a nested row (`nested_of_layoutForm?`).
-/

namespace SparqlFormat.Grammar

open Layout

/-! ## What a rule does to the open brackets -/

/-- The open brackets after whatever a rule covers; none if they depend on what it covers. -/
def Rule.effect (opened : List Bracket) : Rule Nonterminal Terminal → Option (List Bracket)
  | .empty => some opened
  | .terminal (.mark m) => stack opened (.mark m)
  | .terminal _ => some opened
  | .call _ => some opened
  | .seq r s => (r.effect opened).bind fun opened => s.effect opened
  | .alt r s => if r.effect opened = s.effect opened then r.effect opened else none
  | .star r => if r.effect opened = some opened then some opened else none
  | .opt r => if r.effect opened = some opened then some opened else none

/-- Every production closes the brackets that it opens. -/
lemma production_effect (n : Nonterminal) : (production n).effect [] = some [] := by
  cases n <;> decide +kernel

/-- A token does to the open brackets what the terminal does that covers it. -/
lemma stack_of_covers {x : Terminal} {t : Token} (covers : x.covers t = true)
    (opened : List Bracket) : stack opened t = Rule.effect opened (.terminal x) := by
  cases x with
  | mark m =>
    obtain rfl := (Token.isMark_iff m t).1 covers
    rfl
  | _ => cases t <;> first | rfl | simp [Terminal.covers] at covers

/-- A row does to the open brackets what the rule does that covers it. -/
lemma openFrom_of_derives {r : Rule Nonterminal Terminal} {row : List Token}
    (h : Derives sparql r row) {opened opened' : List Bracket}
    (effect : r.effect opened = some opened') : openFrom opened row = some opened' := by
  induction h generalizing opened opened' with
  | empty => exact effect
  | @terminal x t covers =>
    rw [openFrom_cons, stack_of_covers covers, effect]
    rfl
  | @call n w _ ih =>
    obtain rfl := Option.some.inj effect
    have nested : Nested w := ih (production_effect n)
    exact nested.openFrom opened
  | seq _ _ ihr ihs =>
    obtain ⟨middle, first, second⟩ := Option.bind_eq_some_iff.1 effect
    rw [openFrom_append, ihr first]
    exact ihs second
  | altLeft _ ih =>
    rw [Rule.effect, Option.ite_none_right_eq_some] at effect
    exact ih effect.2
  | altRight _ ih =>
    rw [Rule.effect, Option.ite_none_right_eq_some] at effect
    exact ih (effect.1 ▸ effect.2)
  | starNil =>
    rw [Rule.effect, Option.ite_none_right_eq_some] at effect
    exact effect.2
  | starCons _ _ ihr ihs =>
    have again := effect
    rw [Rule.effect, Option.ite_none_right_eq_some] at effect
    rw [openFrom_append, ihr effect.1]
    exact ihs again
  | optNone =>
    rw [Rule.effect, Option.ite_none_right_eq_some] at effect
    exact effect.2
  | optSome _ ih =>
    rw [Rule.effect, Option.ite_none_right_eq_some] at effect
    exact ih (effect.1.trans effect.2)

/-- A row that the grammar derives from a nonterminal is nested. -/
theorem nested_of_derives {n : Nonterminal} {row : List Token}
    (h : Derives sparql (.call n) row) : Nested row :=
  openFrom_of_derives h rfl

/-! ## Rows that the grammar accepts -/

section Accepted

variable {ts us : List Token}

lemma openFrom_closeEmptyBrackets (opened : List Bracket) (ts : List Token) :
    openFrom opened (closeEmptyBrackets ts) = openFrom opened ts := by
  induction ts using hollowInduction generalizing opened with
  | nil => rfl
  | singleton t => rw [closeEmptyBrackets_singleton]
  | full left right ts full ih =>
    rw [closeEmptyBrackets_of_full full, openFrom_cons, openFrom_cons]
    exact Option.bind_congr fun opened _ => ih opened
  | parens ts ih =>
    rw [closeEmptyBrackets_parens]
    exact ih opened
  | brackets ts ih =>
    rw [closeEmptyBrackets_brackets]
    exact ih opened

/-- A row that is a query or an update is nested. -/
theorem nested_of_formOfTokens? {form : Form} (h : formOfTokens? ts = some form) : Nested ts := by
  obtain ⟨n, derived⟩ := derives_of_formOfTokens? h
  rw [Nested, ← openFrom_closeEmptyBrackets]
  exact nested_of_derives derived

/-- Only the shapes of tokens decide on what is open. -/
lemma openFrom_of_shape (h : us.map Token.shape = ts.map Token.shape) (opened : List Bracket) :
    openFrom opened us = openFrom opened ts := by
  have onShapes : ∀ (vs : List Token) (opened : List Bracket),
      openFrom opened (vs.map Token.shape) = openFrom opened vs := by
    intro vs
    induction vs with
    | nil => exact fun _ => rfl
    | cons v vs ih =>
      intro opened
      have alike : stack opened v.shape = stack opened v := by
        cases v <;> rfl
      rw [List.map_cons, openFrom_cons, alike, openFrom_cons]
      exact Option.bind_congr fun opened _ => ih opened
  rw [← onShapes us, h, onShapes]

lemma openFrom_withoutComments (opened : List Bracket) (ts : List Token) :
    openFrom opened (withoutComments ts) = openFrom opened ts := by
  induction ts generalizing opened with
  | nil => rfl
  | cons t ts ih =>
    by_cases isComment : t.isComment = true
    · obtain ⟨body, rfl⟩ := (Token.isComment_iff t).1 isComment
      exact ih opened
    · rw [withoutComments_cons (by simpa using isComment), openFrom_cons, openFrom_cons]
      exact Option.bind_congr fun opened _ => ih opened

end Accepted

end SparqlFormat.Grammar

namespace SparqlFormat

open Lexeme Layout Grammar

/-- A text whose layout is made of a row of the language is laid out from a nested row. -/
theorem nested_of_layoutForm? {text : List Char} {form : Form} {ts : List Token}
    (accepted : layoutForm? text = some form) (read : Reads ⟨true, false⟩ text ts) :
    Nested ts := by
  obtain ⟨row, laidOut, acceptedRow⟩ := Option.bind_eq_some_iff.1 accepted
  obtain ⟨us, read', expands⟩ := layoutTokens?_eq_some.1 laidOut
  obtain rfl : us = ts := read'.unique read
  have nested := nested_of_formOfTokens? acceptedRow
  rwa [Nested, openFrom_withoutComments, openFrom_of_shape expands.map_shape] at nested

end SparqlFormat
