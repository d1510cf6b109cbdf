import SparqlFormat.Lexeme.Stream

/-!
# Lexemes one by one

`stream` says what a text comes to once the scan is over, and of a scan that fails it keeps the
failure alone. The scan can also be looked at while it goes on: it yields one lexeme after the
other until the text ends or no token starts (`yieldFrom`). What was yielded before a failure is
then there to be spoken of.
-/

namespace SparqlFormat.Lexeme

/-- What a scan yields: lexemes, and the failure that ended it if one did. -/
structure Yield where
  found : List Lexeme
  failure : Option Failure
  deriving DecidableEq

namespace Yield

/-- A lexeme is yielded before all others. -/
def after (l : Lexeme) (y : Yield) : Yield :=
  { y with found := l :: y.found }

/-- What is left once the scan is over: a failure leaves nothing of what was found before. -/
def outcome (y : Yield) : Except Failure (List Lexeme) :=
  match y.failure with
  | some failure => .error failure
  | none => .ok y.found

end Yield

/-- What the scan of a text yields, of which the first `skip` characters belong to a lexeme already
found; `offset` counts the characters before it. -/
def yieldFrom (manner : Manner) : Nat → Nat → List Char → Yield
  | _, _, [] => ⟨[], none⟩
  | skip + 1, offset, _ :: cs => yieldFrom manner skip (offset + 1) cs
  | 0, offset, c :: cs =>
    if isBlank c then yieldFrom manner 0 (offset + 1) cs
    else if c == '#' then
      let (token, source) := comment cs
      let others := yieldFrom manner (source.length - 1) (offset + 1) cs
      if manner.keepComments then others.after ⟨token, source, offset⟩ else others
    else
      match first manner.pointFirst (c :: cs) with
      | .error fault => ⟨[], some ⟨fault, offset⟩⟩
      | .ok (token, source) =>
        (yieldFrom manner (source.length - 1) (offset + 1) cs).after ⟨token, source, offset⟩

/-- Once the scan is over, what it yielded comes to the lexemes of the text or to the failure. -/
theorem outcome_yieldFrom (manner : Manner) (skip offset : Nat) (cs : List Char) :
    (yieldFrom manner skip offset cs).outcome = streamFrom manner skip offset cs := by
  induction cs generalizing skip offset with
  | nil => cases skip <;> rfl
  | cons c cs ih =>
    cases skip with
    | succ skip => exact ih skip (offset + 1)
    | zero =>
      rw [yieldFrom, streamFrom]
      split
      · exact ih 0 (offset + 1)
      split
      · dsimp only
        rw [← ih]
        cases h : (yieldFrom manner ((comment cs).2.length - 1) (offset + 1) cs).failure <;>
          split <;> simp [Yield.outcome, Yield.after, h]
      · cases read : first manner.pointFirst (c :: cs) with
        | error fault => rfl
        | ok reading =>
          obtain ⟨token, source⟩ := reading
          dsimp only
          rw [← ih]
          cases h : (yieldFrom manner (source.length - 1) (offset + 1) cs).failure <;>
            simp [Yield.outcome, Yield.after, h]

end SparqlFormat.Lexeme
