import SparqlFormat.Token.Basic

/-!
# Nesting

How many braces and parentheses are open at a token. Both counts are integers: in a token list
that is not nested properly they go below zero, and the layout is still defined.

A closing brace already belongs to the level it returns to, so it is counted before it is set
(`enter`); every other bracket is counted after (`leave`).
-/

namespace SparqlFormat.Layout

/-- The numbers of open braces and open parentheses. -/
structure Nesting where
  braces : Int
  parens : Int
  deriving DecidableEq

namespace Nesting

/-- Before the first token. -/
def outermost : Nesting := ⟨0, 0⟩

/-- The level of indentation: one for each open brace and each open parenthesis. -/
def level (n : Nesting) : Int :=
  n.braces + n.parens

/-- The nesting that a token is set at. -/
def enter (n : Nesting) : Token → Nesting
  | .mark .closeBrace => { n with braces := n.braces - 1 }
  | _ => n

/-- The nesting after a token, given the one it was set at. -/
def leave (n : Nesting) : Token → Nesting
  | .mark .openBrace => { n with braces := n.braces + 1 }
  | .mark .openParen => { n with parens := n.parens + 1 }
  | .mark .closeParen => { n with parens := n.parens - 1 }
  | _ => n

end Nesting

end SparqlFormat.Layout
