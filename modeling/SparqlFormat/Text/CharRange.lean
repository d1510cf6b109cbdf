/-!
# Sets of characters as ranges of code points

Character classes of a grammar, the white space of a standard and the characters without a
visible shape are all given as tables of closed ranges. A table is a list of `CharRange`, and
`CharRange.anyContains` is membership in it.
-/

namespace SparqlFormat

/-- The code points from `first` to `last`, both included. -/
structure CharRange where
  first : Nat
  last : Nat

namespace CharRange

/-- Whether a character lies in the range. -/
def contains (r : CharRange) (c : Char) : Bool :=
  decide (r.first ≤ c.toNat) && decide (c.toNat ≤ r.last)

/-- Whether a character lies in one of the ranges of a table. -/
def anyContains (table : List CharRange) (c : Char) : Bool :=
  table.any fun r => r.contains c

theorem contains_iff (r : CharRange) (c : Char) :
    r.contains c = true ↔ r.first ≤ c.toNat ∧ c.toNat ≤ r.last := by
  simp [contains]

theorem anyContains_iff (table : List CharRange) (c : Char) :
    anyContains table c = true ↔ ∃ r ∈ table, r.first ≤ c.toNat ∧ c.toNat ≤ r.last := by
  simp [anyContains, contains_iff]

end CharRange

end SparqlFormat
