import SparqlFormat.Lexeme.Class

/-!
# Strings and identifiers

Both are texts between delimiters in which a backslash starts an escape. A code point escape is
checked for its digits when its letter is read; the digits themselves then pass as ordinary
characters.

A string comes in a long form, between two runs of three quotation marks, and a short form,
between two single ones, for either quotation mark. The long form may hold line breaks and up to
two marks in a row. Where the long form does not come to its end, the short form is tried: three
marks with no end in sight are an empty short string and one mark more.
-/

namespace SparqlFormat.Lexeme

/-- Whether the text after a backslash is an escape of a string literal. -/
def startsEscape (cs : List Char) : Bool :=
  match cs with
  | [] => false
  | c :: _ => stringEscapes.contains c || startsCodePoint cs

/-- The body of a long string and the three marks that end it. -/
def longBody (quote : Char) : List Char → Option (List Char)
  | [] => none
  | '\\' :: e :: cs =>
    if startsEscape (e :: cs) then (longBody quote cs).map ('\\' :: e :: ·) else none
  | c :: cs =>
    if c == '\\' then none
    else if c == quote && cs.take 2 == [quote, quote] then some [quote, quote, quote]
    else (longBody quote cs).map (c :: ·)

/-- The body of a short string and the mark that ends it. -/
def shortBody (quote : Char) : List Char → Option (List Char)
  | [] => none
  | '\\' :: e :: cs =>
    if startsEscape (e :: cs) then (shortBody quote cs).map ('\\' :: e :: ·) else none
  | c :: cs =>
    if c == '\\' || c == '\n' || c == '\r' then none
    else if c == quote then some [quote]
    else (shortBody quote cs).map (c :: ·)

/-- The long string at the head of a text. -/
def longString? (quote : Char) (cs : List Char) : Option (List Char) :=
  if cs.take 3 == [quote, quote, quote] then
    (longBody quote (cs.drop 3)).map ([quote, quote, quote] ++ ·)
  else none

/-- The short string at the head of a text. -/
def shortString? (quote : Char) : List Char → Option (List Char)
  | [] => none
  | c :: cs => if c == quote then (shortBody quote cs).map (quote :: ·) else none

/-- The string at the head of a text, in the long form if there is one. -/
def string? (quote : Char) (cs : List Char) : Option (List Char) :=
  (longString? quote cs).or (shortString? quote cs)

/-- The body of an identifier up to its closing bracket, which must be there. -/
def iriBody? : List Char → Option (List Char)
  | [] => none
  | c :: cs =>
    if c == '>' then some []
    else if isIriChar c || (c == '\\' && startsCodePoint cs) then (iriBody? cs).map (c :: ·)
    else none

end SparqlFormat.Lexeme
