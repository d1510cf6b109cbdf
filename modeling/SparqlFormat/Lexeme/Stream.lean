import SparqlFormat.Lexeme.Basic
import SparqlFormat.Text.Position
import SparqlFormat.Text.Quoted

/-!
# Texts as streams of tokens

A text is a row of lexemes with blanks between them. `Lexeme.stream` finds them from left to
right, comments kept or dropped, and fails at the first place where no token starts; `tokenize`
adds to a failure the line, the column and the characters found there.

The scan recurs on the text itself: after a lexeme is found at its first character, `skip`
counts the characters of it still to be passed over.
-/

namespace SparqlFormat

/-- A token where it stands: the characters it is read from and how many precede them. -/
structure Lexeme where
  token : Token
  source : List Char
  offset : Nat
  deriving DecidableEq

namespace Lexeme

/-- A place where no token starts. -/
structure Failure where
  fault : Fault
  offset : Nat
  deriving DecidableEq

/-- The comment at the head of a text that follows its sign: the sign and all up to the next line
break, of which the token keeps the trimmed body. -/
def comment (cs : List Char) : Reading :=
  let body := cs.takeWhile fun c => !isLineBreak c
  (.comment (trim body), '#' :: body)

/-- How a text is read. -/
structure Manner where
  /-- Whether comments are tokens or blanks. -/
  keepComments : Bool
  /-- Whether a number may start with its point. -/
  pointFirst : Bool
  deriving DecidableEq

/-- The lexemes of a text of which the first `skip` characters belong to a lexeme already found;
`offset` counts the characters before it. -/
def streamFrom (manner : Manner) : Nat → Nat → List Char → Except Failure (List Lexeme)
  | _, _, [] => .ok []
  | skip + 1, offset, _ :: cs => streamFrom manner skip (offset + 1) cs
  | 0, offset, c :: cs =>
    if isBlank c then streamFrom manner 0 (offset + 1) cs
    else if c == '#' then
      let (token, source) := comment cs
      match streamFrom manner (source.length - 1) (offset + 1) cs with
      | .ok rest => .ok (if manner.keepComments then ⟨token, source, offset⟩ :: rest else rest)
      | .error failure => .error failure
    else
      match first manner.pointFirst (c :: cs) with
      | .error fault => .error ⟨fault, offset⟩
      | .ok (token, source) =>
        match streamFrom manner (source.length - 1) (offset + 1) cs with
        | .ok rest => .ok (⟨token, source, offset⟩ :: rest)
        | .error failure => .error failure

/-- The lexemes of a text. -/
def stream (manner : Manner) (text : List Char) : Except Failure (List Lexeme) :=
  streamFrom manner 0 0 text

end Lexeme

/-! ## Failures as they are reported -/

/-- What is reported of a text that is no row of tokens: the fault, its place, and up to twenty
characters from there on. -/
structure TokenError where
  fault : Lexeme.Fault
  position : Position
  excerpt : List Char
  deriving DecidableEq

namespace TokenError

/-- How many characters of the text a report shows. -/
def excerptLength : Nat := 20

/-- The report of a failure in a text. -/
def ofFailure (text : List Char) (f : Lexeme.Failure) : TokenError where
  fault := f.fault
  position := Position.after (text.take f.offset)
  excerpt := (text.drop f.offset).take excerptLength

/-- Names the fault, quotes the excerpt and gives line and column. -/
def message (e : TokenError) : String :=
  e.fault.describe ++ " near " ++ String.ofList (Quoted.quote e.excerpt) ++ " at " ++
    e.position.render

end TokenError

/-- The lexemes of a text, or the report of the first place where no token starts. -/
def tokenize (keepComments : Bool) (text : List Char) : Except TokenError (List Lexeme) :=
  match Lexeme.stream ⟨keepComments, false⟩ text with
  | .ok lexemes => .ok lexemes
  | .error failure => .error (TokenError.ofFailure text failure)

end SparqlFormat
