import SparqlFormat.Lexeme.Class
import SparqlFormat.Token.Basic

/-!
# Numbers

A number is an optional sign, digits with at most one point among them, and an optional exponent.
With an exponent it is a double; without one but with a digit after the point, a decimal; with
digits alone, an integer. A point that no digit follows is left to the text after the number,
unless an exponent makes it part of a double.
-/

namespace SparqlFormat.Lexeme

/-- The sign at the head of a text, or nothing. -/
def sign (cs : List Char) : List Char :=
  match cs with
  | '+' :: _ => ['+']
  | '-' :: _ => ['-']
  | _ => []

/-- The exponent at the head of a text: the letter, an optional sign and at least one digit. -/
def exponent? : List Char → Option (List Char)
  | [] => none
  | c :: cs =>
    if c == 'e' || c == 'E' then
      let s := sign cs
      match (cs.drop s.length).takeWhile isDigit with
      | [] => none
      | digits => some (c :: (s ++ digits))
    else none

/-- The number without a sign at the head of a text. -/
def unsigned? (cs : List Char) : Option (NumberKind × List Char) :=
  let whole := cs.takeWhile isDigit
  match cs.dropWhile isDigit with
  | '.' :: rest =>
    let fraction := rest.takeWhile isDigit
    let mantissa := whole ++ '.' :: fraction
    match exponent? (rest.dropWhile isDigit) with
    | some e =>
      if whole.isEmpty && fraction.isEmpty then none else some (.double, mantissa ++ e)
    | none =>
      if !fraction.isEmpty then some (.decimal, mantissa)
      else if !whole.isEmpty then some (.integer, whole)
      else none
  | rest =>
    if whole.isEmpty then none
    else match exponent? rest with
      | some e => some (.double, whole ++ e)
      | none => some (.integer, whole)

/-- The number at the head of a text, with its sign. -/
def number? (cs : List Char) : Option (NumberKind × List Char) :=
  let s := sign cs
  (unsigned? (cs.drop s.length)).map fun (kind, digits) => (kind, s ++ digits)

end SparqlFormat.Lexeme
