import SparqlFormat.Layout.Gap
import SparqlFormat.Layout.Nesting

/-!
# Spacing rules

How a token is set depends on the token, on the one after it and on the nesting: whether it
starts a line of its own, and what follows it. `spacing` states the rules in order of precedence;
the first that applies decides.

The rules that break lines come first. Of those that keep a line together, the ones that let two
tokens touch are collected in `touches`.
-/

namespace SparqlFormat.Layout

/-! ## Groups of words -/

/-- Words that stand at the start of a line. -/
def lineStarters : List (List Char) :=
  words
    ["BASE", "PREFIX", "SELECT", "ASK", "CONSTRUCT", "DESCRIBE", "FROM", "INSERT", "DELETE",
     "LOAD", "CLEAR", "DROP", "CREATE", "ADD", "MOVE", "COPY", "WITH"]

/-- Words that open a solution modifier. -/
def modifiers : List (List Char) :=
  words ["GROUP", "HAVING", "ORDER", "LIMIT", "OFFSET"]

/-- Words that stay on the line of the block they introduce. -/
def blockWords : List (List Char) :=
  words ["EXISTS", "OPTIONAL", "UNION", "MINUS"]

/-- Words that may follow a closing brace on its line. -/
def continuations : List (List Char) :=
  words ["UNION", "MINUS"]

/-- Words that take a bracketed expression and have a line of their own. -/
def callWords : List (List Char) :=
  words ["FILTER", "BIND"]

/-- Directions of a sort. -/
def sortWords : List (List Char) :=
  words ["ASC", "DESC"]

/-- Words that an argument list follows directly. -/
def applicableWords : List (List Char) :=
  aggregateWords ++ functionWords

/-! ## The tokens that the rules look at -/

/-- Whether the following token is a given mark. -/
def isNextMark (m : Mark) (next : Option Token) : Bool :=
  next.any (Token.isMark m)

/-- Whether the following token is one of the given words. -/
def isNextWord (ws : List (List Char)) (next : Option Token) : Bool :=
  next.any (Token.isWord ws)

/-- Whether the following token names a resource. -/
def isNextName (next : Option Token) : Bool :=
  next.any Token.isName

/-- The marks that modify the element of a property path they follow. -/
def isPathModifier (t : Token) : Bool :=
  t.isMark .star || t.isMark .plus || t.isMark .question

/-- Whether an argument list follows the token directly: a function, an aggregate, or a prefixed
name in the place of a function. -/
def isApplicable (t : Token) : Bool :=
  match t with
  | .prefixed _ => true
  | _ => t.isWord applicableWords

/-! ## The rules -/

/-- How a token is set: the level of the line that it starts, if it starts one, and the gap that
it leaves after itself. -/
structure Spacing where
  leading : Option Int
  after : Gap
  deriving DecidableEq

/-- A token that continues its line. -/
def Spacing.inline (after : Gap) : Spacing := ⟨none, after⟩

/-- Whether a token touches the next one on the same line. -/
def touches (n : Nesting) (t : Token) (next : Option Token) : Bool :=
  t.isMark .typed || t.isWord sortWords ||
    isNextMark .closeParen next || t.isMark .openParen ||
    (isNextMark .openParen next && isApplicable t) ||
    isNextMark .typed next || next.any Token.isLanguage ||
    (t.isMark .caret && isNextName next) ||
    (t.isMark .closeParen && next.any isPathModifier && n.parens == 1) ||
    (t.isName && next.any isPathModifier) ||
    t.isMark .bar || isNextMark .bar next ||
    (t.isName && isNextMark .slash next) ||
    (t.isMark .slash && isNextName next) ||
    (isPathModifier t && isNextMark .slash next)

/-- How a token is set, given its nesting and the token after it. -/
def spacing (n : Nesting) (t : Token) (next : Option Token) : Spacing :=
  let level := n.level
  if t.isComment then .inline (.line level)
  else if t.isMark .openBrace then .inline (.line (level + 1))
  else if n.braces == 0 && isNextMark .openBrace next then .inline .space
  else if t.isMark .closeBrace && isNextWord continuations next then ⟨some level, .space⟩
  else if t.isMark .closeBrace then ⟨some level, .line level⟩
  else if t.isWord blockWords && isNextMark .openBrace next then ⟨some level, .space⟩
  else if t.isMark .bang then .inline .touch
  else if t.isMark .closeParen && isNextMark .openBrace next then .inline .space
  else if t.isWord (words ["WHERE"]) && isNextMark .openBrace next then .inline .space
  else if isNextMark .openBrace next then .inline (.line level)
  else if isNextWord lineStarters next then .inline (.line level)
  else if t.isName && isNextWord (words ["WHERE"]) next then .inline (.line level)
  else if t.isWord (words ["ORDER"]) && decide (0 < n.parens) then .inline .space
  else if t.isWord modifiers then ⟨some level, .space⟩
  else if t.isMark .dot then .inline (.line level)
  else if t.isMark .semicolon && isNextWord (words ["SEPARATOR"]) next then .inline .space
  else if t.isMark .semicolon then .inline (.line (level + 1))
  else if t.isWord callWords && isNextMark .openParen next then ⟨some level, .touch⟩
  else if t.isWord callWords then ⟨some level, .space⟩
  else if touches n t next then .inline .touch
  else if t.isWord (words ["VALUES"]) then ⟨some level, .space⟩
  else .inline .space

/-! ## A list of tokens -/

/-- A token with the way it is set. -/
structure Placed where
  token : Token
  spacing : Spacing
  deriving DecidableEq

/-- Sets the tokens of a list one after the other, from a nesting on. -/
def placeFrom (n : Nesting) : List Token → List Placed
  | [] => []
  | t :: ts =>
    let here := n.enter t
    ⟨t, spacing here t ts.head?⟩ :: placeFrom (here.leave t) ts

/-- Sets the tokens of a list. -/
def place (ts : List Token) : List Placed :=
  placeFrom .outermost ts

theorem placeFrom_map_token (n : Nesting) (ts : List Token) :
    (placeFrom n ts).map Placed.token = ts := by
  induction ts generalizing n with
  | nil => rfl
  | cons t ts ih => simp [placeFrom, ih]

@[simp] theorem place_map_token (ts : List Token) : (place ts).map Placed.token = ts :=
  placeFrom_map_token _ ts

end SparqlFormat.Layout
