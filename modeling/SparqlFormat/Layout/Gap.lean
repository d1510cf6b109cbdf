/-!
# Gaps

What a layout puts between two neighbouring tokens: nothing, one space, or a line feed and the
indentation of the next line. A layout is a row of token texts with a row of gaps between them,
and `weave` puts the two together.
-/

namespace SparqlFormat.Layout

/-- What stands between two neighbouring tokens. -/
inductive Gap
  | touch
  | space
  /-- A new line, indented by so many levels; a negative number indents as zero does. -/
  | line (depth : Int)
  deriving DecidableEq

/-- The characters of a gap, given one level of indentation. -/
def Gap.render (indent : List Char) : Gap → List Char
  | .touch => []
  | .space => [' ']
  | .line depth => '\n' :: (List.replicate depth.toNat indent).flatten

/-- Texts with gaps between them; there is nothing before the first and after the last. -/
def weave (indent : List Char) : List (List Char) → List Gap → List Char
  | [], _ => []
  | t :: ts, [] => t ++ weave indent ts []
  | t :: ts, g :: gs => t ++ (if ts.isEmpty then [] else g.render indent) ++ weave indent ts gs

@[simp] theorem weave_nil (indent : List Char) (gs : List Gap) : weave indent [] gs = [] := by
  simp [weave]

@[simp] theorem weave_singleton (indent t : List Char) (gs : List Gap) :
    weave indent [t] gs = t := by
  cases gs <;> simp [weave]

end SparqlFormat.Layout
