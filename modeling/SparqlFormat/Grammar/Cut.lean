import SparqlFormat.Grammar.CodePointEscape
import SparqlFormat.Lexeme.Stream

/-!
# Cutting a text for the grammar

The grammar is put to the tokens of a text whose code point escapes are expanded. Each token is the
longest that stands where the one before it ended, blanks and comments apart. `terminal?` finds it
with the reader of tokens that layouts use, which differs in three things: a number may start with
its point, no string or identifier holds an escape of a code point any more, and a word may run
into the next, so that of a row of letters the longest keyword is taken that it starts with.
-/

namespace SparqlFormat.Grammar

open Lexeme

/-- A token where it stands: with the text right behind it. -/
structure Stretch where
  token : Token
  behind : List Char
  deriving DecidableEq

/-- The longest word of at most `n` characters that a row of letters starts with. -/
def longestWord (cs : List Char) : Nat → Option Reading
  | 0 => none
  | n + 1 =>
    match ofWord (cs.take (n + 1)) with
    | .ok t => some (t, cs.take (n + 1))
    | .error _ => longestWord cs n

/-- What is left of a string or an identifier that holds an escape of a code point: its first two
quotation marks, if they stand next to each other, or the operator that its bracket is. -/
def withoutEscape : List Char → Option Reading
  | '<' :: cs => (operator '<' cs).toOption
  | c :: d :: _ => if c == d then some (.string [c, d], [c, d]) else none
  | _ => none

/-- The longest token that a text starts with. -/
def terminal? (cs : List Char) : Option Reading :=
  match first true cs with
  | .ok (t, s) => if isEscaped t then withoutEscape s else some (t, s)
  | .error _ => (word? cs).bind fun w => longestWord w w.length

/-- The tokens of a text of which the first `skip` characters belong to a token or comment already
found. -/
def cutFrom : Nat → List Char → Option (List Stretch)
  | _, [] => some []
  | skip + 1, _ :: cs => cutFrom skip cs
  | 0, c :: cs =>
    if isBlank c then cutFrom 0 cs
    else if c == '#' then cutFrom ((comment cs).2.length - 1) cs
    else
      match terminal? (c :: cs) with
      | none => none
      | some (t, s) =>
        (cutFrom (s.length - 1) cs).map (⟨t, (c :: cs).drop s.length⟩ :: ·)

/-- The tokens of a text. -/
def cut (text : List Char) : Option (List Stretch) :=
  cutFrom 0 text

end SparqlFormat.Grammar
