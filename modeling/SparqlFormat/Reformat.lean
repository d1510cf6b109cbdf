import SparqlFormat.Grammar.Check
import SparqlFormat.Layout.Basic

/-!
# Reformatting

A text is checked if that is asked for, cut into tokens, and laid out anew. Comments survive only
in the many-line layout, since a comment ends its line. A text without any token but comments has
nothing to lay out.
-/

namespace SparqlFormat

/-- Why a text is not reformatted. -/
inductive Rejection
  /-- It is neither a query nor an update; the message says why it is no query. -/
  | ungrammatical (message : String)
  /-- It is no row of tokens. -/
  | untokenizable (error : TokenError)
  /-- It holds no token but comments. -/
  | blank
  /-- A formatter other than the one below has a reason of its own. -/
  | refused (message : String)
  deriving DecidableEq

/-- The rejection as it is reported. -/
def Rejection.message : Rejection → String
  | .ungrammatical message => "Failed to parse query: " ++ message
  | .untokenizable error => "Failed to tokenize query: " ++ error.message
  | .blank => "Query is empty"
  | .refused message => message

/-- The form of a text, which must be a query or else an update. -/
def checkForm (checker : Checker) (text : List Char) : Except Rejection Grammar.Form :=
  match checker.query text with
  | .ok () => .ok .query
  | .error message =>
    match checker.update text with
    | .ok () => .ok .update
    | .error _ => .error (.ungrammatical message)

/-- Whether a layout keeps comments. -/
def Mode.keepsComments : Mode → Bool
  | .pretty => true
  | .concise => false

/-- A text cut into tokens and laid out, without a check of its grammar. -/
def relayout (mode : Mode) (text : List Char) : Except Rejection (List Char) :=
  match tokenize mode.keepsComments text with
  | .error error => .error (.untokenizable error)
  | .ok lexemes =>
    let tokens := lexemes.map Lexeme.token
    if tokens.all Token.isComment then .error .blank else .ok (Layout.render mode tokens)

/-- The reformatted text, which must be in the language if there is a checker. -/
def reformat (checker? : Option Checker) (mode : Mode) (text : List Char) :
    Except Rejection (List Char) :=
  match checker? with
  | none => relayout mode text
  | some checker =>
    match checkForm checker text with
    | .error rejection => .error rejection
    | .ok _ => relayout mode text

/-- Reformats again and again, each time what the step before gave; a step that fails leaves the
text as it was. -/
def reformatChain (checker? : Option Checker) :
    List Mode → List Char → List (Except Rejection (List Char))
  | [], _ => []
  | mode :: modes, text =>
    match reformat checker? mode text with
    | .ok output => .ok output :: reformatChain checker? modes output
    | .error rejection => .error rejection :: reformatChain checker? modes text

end SparqlFormat
