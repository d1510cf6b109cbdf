import SparqlFormat.Layout.Spacing

/-!
# Line breaks after calls

A `FILTER` or `BIND` with a bracketed expression ends its line where the brackets close. Calls can
be nested (a filter inside the block of another), so the pass over the tokens keeps how many calls
are waiting for their end, at which depths of parentheses they began, and the indentation of the
last line begun at each depth; the line after a call is indented like that.

No line is broken where a dot or a sort direction follows on the same line.
-/

namespace SparqlFormat.Layout

/-- What the pass remembers. -/
structure Calls where
  /-- How many calls wait for their end. -/
  waiting : Nat
  /-- The depths at which they began, each once. -/
  starts : List Int
  /-- How many parentheses are open inside the waiting calls. -/
  depth : Int
  /-- The indentation of the last line begun at each depth. -/
  indents : List (Int × Int)
  deriving DecidableEq

namespace Calls

/-- Before the first token. -/
def initial : Calls := ⟨0, [], 0, []⟩

/-- The indentation of the last line begun at the present depth, or none of it. -/
def indent (c : Calls) : Int :=
  (c.indents.lookup c.depth).getD 0

/-- Remembers that a line with this indentation has begun. -/
def beginLine (c : Calls) (level : Int) : Calls :=
  { c with indents := (c.depth, level) :: c.indents.filter fun entry => entry.1 != c.depth }

/-- Remembers the line that a gap begins, if it begins one. -/
def afterGap (c : Calls) : Gap → Calls
  | .line level => c.beginLine level
  | _ => c

/-- A call begins at the present depth. -/
def beginCall (c : Calls) : Calls :=
  { c with
    waiting := c.waiting + 1
    starts := if c.starts.contains c.depth then c.starts else c.depth :: c.starts }

/-- One more parenthesis is open. -/
def openParen (c : Calls) : Calls :=
  { c with depth := c.depth + 1 }

/-- One parenthesis less is open. -/
def closeParen (c : Calls) : Calls :=
  { c with depth := c.depth - 1 }

/-- Whether a call ends at the present depth. -/
def endsHere (c : Calls) : Bool :=
  c.starts.contains c.depth || c.depth == 0

/-- A call ends at the present depth. -/
def endCall (c : Calls) : Calls :=
  { c with
    waiting := c.waiting - 1
    starts := c.starts.filter fun start => start != c.depth }

/-- An empty argument list ends a call that began at depth zero and leaves its start on record. -/
def endEmptyCall (c : Calls) : Calls :=
  { c with waiting := c.waiting - 1 }

end Calls

/-- Whether the line of a call goes on after its closing parenthesis. -/
def callContinues (after : Gap) (next : Option Token) : Bool :=
  after == .space && (isNextMark .dot next || isNextWord sortWords next)

/-- The text of one token: the indentation of the line that is broken right after it, if one is,
and what is remembered then. -/
def callBreak (c : Calls) (t : Token) (after : Gap) (next : Option Token) : Option Int × Calls :=
  if t.isWord callWords then (none, c.beginCall)
  else if t.isMark .openParen && c.waiting != 0 then (none, c.openParen)
  else if t.isMark .closeParen && c.waiting != 0 then
    let outer := c.closeParen
    if outer.endsHere then
      (if callContinues after next then none else some outer.indent, outer.endCall)
    else (none, outer)
  else if t.isMark .emptyParens && c.waiting != 0 && c.depth == 0 then
    (some c.indent, c.endEmptyCall)
  else (none, c)

/-- The breaks after the tokens of a list, one entry for each token. -/
def callBreaksFrom (c : Calls) : List Placed → List (Option Int)
  | [] => []
  | p :: ps =>
    let begun := match p.spacing.leading with
      | some level => c.beginLine level
      | none => c
    let (found, after) := callBreak begun p.token p.spacing.after (ps.head?.map Placed.token)
    found :: callBreaksFrom (after.afterGap p.spacing.after) ps

/-- The breaks after calls in a list of placed tokens, one entry for each token. -/
def callBreaks (ps : List Placed) : List (Option Int) :=
  callBreaksFrom .initial ps

end SparqlFormat.Layout
