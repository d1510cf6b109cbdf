import SparqlFormat.Layout.CallBreak

/-!
# The two layouts

Both layouts put the texts of the tokens in a row and differ in the gaps between them. The
many-line layout (`pretty`) follows the spacing rules and breaks lines after calls as well; the
one-line layout (`concise`) follows the same rules with every line break turned into a space,
except that a comment always ends its line.

Three sources can ask for white space between two tokens: a call that ends at the left one, the
rule of the left one and the rule of the right one. A line break wins over a space, and of several
line breaks the last one counts (`settle`).
-/

namespace SparqlFormat

/-- The layout of reformatted text. -/
inductive Mode
  /-- Many lines, comments kept. -/
  | pretty
  /-- One line, comments dropped. -/
  | concise
  deriving DecidableEq

namespace Layout

/-- One level of indentation: four spaces. -/
def defaultIndent : List Char := [' ', ' ', ' ', ' ']

/-! ## Many lines -/

/-- One gap out of the break after a call, the gap after the left token and the line that the
right token starts. -/
def settle (callBreak : Option Int) (after : Gap) (leading : Option Int) : Gap :=
  match leading, after, callBreak with
  | some level, _, _ => .line level
  | none, .line level, _ => .line level
  | none, _, some level => .line level
  | none, gap, none => gap

/-- Whether two texts stay on one line where the rules would part them: a closing brace before
`OPTIONAL` or `UNION`, and `NOT` before `EXISTS`. -/
def staysJoined (left right : List Char) : Bool :=
  (left == ['}'] && (words ["OPTIONAL", "UNION"]).contains right) ||
    (left == "NOT".toList && right == "EXISTS".toList)

/-- A line break becomes a space between texts that stay joined. -/
def rejoin (left right : List Char) : Gap → Gap
  | .line level => if staysJoined left right then .space else .line level
  | gap => gap

/-- The gap between two neighbours in the many-line layout. -/
def prettyGap (left : Placed) (callBreak : Option Int) (right : Placed) : Gap :=
  rejoin left.token.text right.token.text
    (settle callBreak left.spacing.after right.spacing.leading)

/-- The gaps between the neighbours of a list. -/
def prettyGaps : List Placed → List (Option Int) → List Gap
  | left :: right :: rest, found :: others =>
    prettyGap left found right :: prettyGaps (right :: rest) others
  | _, _ => []

/-- The many-line layout of a token list. -/
def pretty (indent : List Char) (ts : List Token) : List Char :=
  let placed := place ts
  weave indent (ts.map Token.text) (prettyGaps placed (callBreaks placed))

/-! ## One line -/

/-- Line breaks inside a literal, written as escapes. Only a long literal can hold them. -/
def escapeLineBreaks (source : List Char) : List Char :=
  source.flatMap fun c =>
    if c == '\r' then ['\\', 'r'] else if c == '\n' then ['\\', 'n'] else [c]

/-- The text of a token on a single line. -/
def conciseText : Token → List Char
  | .string source => escapeLineBreaks source
  | t => t.text

/-- The gap between two neighbours in the one-line layout. -/
def conciseGap (left right : Placed) : Gap :=
  if left.token.isComment then .line 0
  else if left.spacing.after == .touch && right.spacing.leading.isNone then .touch
  else .space

/-- The gaps between the neighbours of a list. -/
def conciseGaps : List Placed → List Gap
  | left :: right :: rest => conciseGap left right :: conciseGaps (right :: rest)
  | _ => []

/-- The one-line layout of a token list. -/
def concise (ts : List Token) : List Char :=
  weave [] (ts.map conciseText) (conciseGaps (place ts))

/-- The layout of a token list in a given mode, with the usual indentation. -/
def render : Mode → List Token → List Char
  | .pretty, ts => pretty defaultIndent ts
  | .concise, ts => concise ts

end Layout

end SparqlFormat
