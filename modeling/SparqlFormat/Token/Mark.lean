/-!
# Marks

The tokens of the query language with one spelling each: brackets, separators and operators.
Every mark has a text of one or two characters, and no two marks share one.
-/

namespace SparqlFormat

/-- A token with a fixed text. -/
inductive Mark
  /-- The empty pair of parentheses, one token whatever blanks it holds. -/
  | emptyParens
  /-- The empty pair of brackets, one token whatever blanks it holds. -/
  | emptyBrackets
  | typed
  | openParen
  | closeParen
  | openBrace
  | closeBrace
  | openBracket
  | closeBracket
  | equal
  | notEqual
  | bang
  | atMost
  | atLeast
  | below
  | above
  | both
  | either
  | semicolon
  | dot
  | comma
  | plus
  | minus
  | star
  | slash
  | caret
  | question
  | bar
  deriving DecidableEq

/-- The text of a mark. -/
def Mark.text : Mark → List Char
  | .emptyParens => ['(', ')']
  | .emptyBrackets => ['[', ']']
  | .typed => ['^', '^']
  | .openParen => ['(']
  | .closeParen => [')']
  | .openBrace => ['{']
  | .closeBrace => ['}']
  | .openBracket => ['[']
  | .closeBracket => [']']
  | .equal => ['=']
  | .notEqual => ['!', '=']
  | .bang => ['!']
  | .atMost => ['<', '=']
  | .atLeast => ['>', '=']
  | .below => ['<']
  | .above => ['>']
  | .both => ['&', '&']
  | .either => ['|', '|']
  | .semicolon => [';']
  | .dot => ['.']
  | .comma => [',']
  | .plus => ['+']
  | .minus => ['-']
  | .star => ['*']
  | .slash => ['/']
  | .caret => ['^']
  | .question => ['?']
  | .bar => ['|']

/-- No mark is invisible. -/
theorem Mark.text_ne_nil (m : Mark) : m.text ≠ [] := by
  cases m <;> simp [Mark.text]

end SparqlFormat
