import SparqlFormat.Text.CharRange

/-!
# Blanks

Three notions of blank meet in this library, and they are different sets.

* `isBlank`: the white space of the query language, which separates tokens.
* `isLineBreak`: the two characters that end a comment.
* `isWhiteSpace`: Unicode white space together with the four information separators; it is
  trimmed from both ends of a comment's body.
-/

namespace SparqlFormat

/-- The white space of the query language: space, tab, carriage return, line feed. -/
def isBlank (c : Char) : Bool :=
  c == ' ' || c == '\t' || c == '\r' || c == '\n'

/-- A comment runs up to a carriage return or a line feed. -/
def isLineBreak (c : Char) : Bool :=
  c == '\r' || c == '\n'

/-- Unicode white space and the information separators U+001C to U+001F. -/
def whiteSpaceTable : List CharRange :=
  [⟨0x09, 0x0D⟩, ⟨0x1C, 0x20⟩, ⟨0x85, 0x85⟩, ⟨0xA0, 0xA0⟩, ⟨0x1680, 0x1680⟩, ⟨0x2000, 0x200A⟩,
   ⟨0x2028, 0x2029⟩, ⟨0x202F, 0x202F⟩, ⟨0x205F, 0x205F⟩, ⟨0x3000, 0x3000⟩]

/-- White space in the wide sense. -/
def isWhiteSpace (c : Char) : Bool :=
  CharRange.anyContains whiteSpaceTable c

/-- A text without the white space at its two ends. -/
def trim (cs : List Char) : List Char :=
  ((cs.dropWhile isWhiteSpace).reverse.dropWhile isWhiteSpace).reverse

/-- Every line break is a blank. -/
theorem isBlank_of_isLineBreak {c : Char} (h : isLineBreak c = true) : isBlank c = true := by
  simp only [isLineBreak, Bool.or_eq_true, beq_iff_eq] at h
  rcases h with rfl | rfl <;> rfl

end SparqlFormat
