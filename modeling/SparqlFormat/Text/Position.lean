/-!
# Lines and columns

A place in a text is reported by line and column, both counted from one. Only a line feed ends
a line; a carriage return is a character like any other.
-/

namespace SparqlFormat

/-- A place in a text. -/
structure Position where
  line : Nat
  column : Nat
  deriving DecidableEq

namespace Position

/-- The place right after the given text: one line more than it has line feeds, one column more
than it has characters after the last of them. -/
def after (before : List Char) : Position where
  line := before.count '\n' + 1
  column := (before.reverse.takeWhile fun c => c != '\n').length + 1

@[simp] theorem after_nil : after [] = ⟨1, 1⟩ := rfl

/-- Written as `line:column`. -/
def render (p : Position) : String :=
  toString p.line ++ ":" ++ toString p.column

end Position

end SparqlFormat
