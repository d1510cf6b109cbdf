import SparqlFormat.Layout.Passes

/-!
# Counting along the row

The level of indentation is the number of open braces and parentheses (`Nesting.level`). A loop over
the tokens need not add them up each time: it can keep the level as a counter of its own beside the
two numbers and move it with every bracket. `Counters` is what such a loop keeps,
`Counters.segments` are the spacing rules as it applies them, and `emitFrom` is the loop.

The level and the numbers are moved apart from each other, and the rules read all three. That they
stay together, and that the loop therefore emits what `place` sets, is shown in
`Proofs/Indentation`.
-/

namespace SparqlFormat.Layout

/-- The counters of the loop. -/
structure Counters where
  /-- The level of indentation. -/
  level : Int
  /-- The number of open parentheses. -/
  parens : Int
  /-- The number of open braces. -/
  braces : Int
  deriving DecidableEq

namespace Counters

/-- Before the first token. -/
def initial : Counters := ⟨0, 0, 0⟩

/-- The counters that a token is set at. -/
def enter (c : Counters) : Token → Counters
  | .mark .closeBrace => { c with braces := c.braces - 1, level := c.level - 1 }
  | _ => c

/-- The counters after a token, given those it was set at. -/
def leave (c : Counters) : Token → Counters
  | .mark .openBrace => { c with level := c.level + 1, braces := c.braces + 1 }
  | .mark .openParen => { c with parens := c.parens + 1, level := c.level + 1 }
  | .mark .closeParen => { c with parens := c.parens - 1, level := c.level - 1 }
  | _ => c

/-- The counters after one more token. -/
def step (c : Counters) (t : Token) : Counters :=
  (c.enter t).leave t

/-- The counters after a row of tokens. -/
def run (ts : List Token) : Counters :=
  ts.foldl step initial

/-- The brackets that have been counted. -/
def nesting (c : Counters) : Nesting :=
  ⟨c.braces, c.parens⟩

/-- The segments of a token that is set at these counters, given the token after it. -/
def segments (c : Counters) (t : Token) (next : Option Token) : List Segment :=
  let here := Segment.text t.text
  let line := Segment.line c.level
  if t.isComment then [here, line]
  else if t.isMark .openBrace then [here, .line (c.level + 1)]
  else if c.braces == 0 && isNextMark .openBrace next then [here, .space]
  else if t.isMark .closeBrace && isNextWord continuations next then [line, here, .space]
  else if t.isMark .closeBrace then [line, here, line]
  else if t.isWord blockWords && isNextMark .openBrace next then [line, here, .space]
  else if t.isMark .bang then [here]
  else if t.isMark .closeParen && isNextMark .openBrace next then [here, .space]
  else if t.isWord (words ["WHERE"]) && isNextMark .openBrace next then [here, .space]
  else if isNextMark .openBrace next then [here, line]
  else if isNextWord lineStarters next then [here, line]
  else if t.isName && isNextWord (words ["WHERE"]) next then [here, line]
  else if t.isWord (words ["ORDER"]) && decide (0 < c.parens) then [here, .space]
  else if t.isWord modifiers then [line, here, .space]
  else if t.isMark .dot then [here, line]
  else if t.isMark .semicolon && isNextWord (words ["SEPARATOR"]) next then [here, .space]
  else if t.isMark .semicolon then [here, .line (c.level + 1)]
  else if t.isWord callWords && isNextMark .openParen next then [line, here]
  else if t.isWord callWords then [line, here, .space]
  else if touches c.nesting t next then [here]
  else if t.isWord (words ["VALUES"]) then [line, here, .space]
  else [here, .space]

/-- The segments of a row of tokens from these counters on, each with the token it is of. -/
def emitFrom (c : Counters) : List Token → List (Token × Segment)
  | [] => []
  | t :: ts => ((c.enter t).segments t ts.head?).map (t, ·) ++ emitFrom (c.step t) ts

end Counters

end SparqlFormat.Layout
