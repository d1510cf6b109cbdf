/-!
# Grammars

A grammar maps each nonterminal to a `Rule`, a regular expression over terminals and nonterminals.
`Derives` says which token rows a rule covers. The recogniser reads a row from left to right and
keeps the list of all stacks of rules that the rest of the row may still be an instance of; with
a grammar that needs one token of look-ahead that list stays short.

A stack is advanced over a token by recursion on its first rule. A nonterminal at the front is
replaced by its production, and again by that of a nonterminal in front there, and so on; the
grammar bounds how often (`System.depth`). For a grammar that tells correctly which nonterminals
cover nothing and that is not left-recursive (`Grounded`) this loses nothing: the recogniser
decides what is derived (`recognise_iff` in `Grammar/Derivation.lean`).
-/

namespace SparqlFormat.Grammar

/-- A regular expression over nonterminals `N` and terminals `T`. -/
inductive Rule (N T : Type) where
  | empty
  | terminal (t : T)
  | call (n : N)
  | seq (first second : Rule N T)
  | alt (left right : Rule N T)
  | star (body : Rule N T)
  | opt (body : Rule N T)

namespace Rule

variable {N T : Type}

/-- Rules one after the other. -/
def row : List (Rule N T) → Rule N T
  | [] => .empty
  | [r] => r
  | r :: rs => .seq r (row rs)

/-- One of several rules; of none of them, the empty one. -/
def oneOf : List (Rule N T) → Rule N T
  | [] => .empty
  | [r] => r
  | r :: rs => .alt r (oneOf rs)

/-- A rule once or more. -/
def plus (r : Rule N T) : Rule N T :=
  .seq r (.star r)

/-- A rule once or more, with a separator in between. -/
def separated (separator r : Rule N T) : Rule N T :=
  .seq r (.star (.seq separator r))

/-- Whether a rule covers nothing, by the nonterminals that do. -/
def vanishes (p : N → Bool) : Rule N T → Bool
  | .empty => true
  | .terminal _ => false
  | .call n => p n
  | .seq r s => r.vanishes p && s.vanishes p
  | .alt r s => r.vanishes p || s.vanishes p
  | .star _ => true
  | .opt _ => true

end Rule

/-! ## Derivations -/

/-- A grammar over tokens `α`: what each nonterminal stands for and which tokens a terminal
covers. The recogniser is told which nonterminals cover nothing and how many productions it may
go into before the next token. -/
structure System (N T α : Type) where
  production : N → Rule N T
  covers : T → α → Bool
  vanishes : N → Bool
  depth : Nat

variable {N T α : Type}

/-- The token rows that a rule covers. -/
inductive Derives (g : System N T α) : Rule N T → List α → Prop
  | empty : Derives g .empty []
  | terminal {t : T} {a : α} : g.covers t a = true → Derives g (.terminal t) [a]
  | call {n : N} {w : List α} : Derives g (g.production n) w → Derives g (.call n) w
  | seq {r s : Rule N T} {v w : List α} : Derives g r v → Derives g s w →
      Derives g (.seq r s) (v ++ w)
  | altLeft {r s : Rule N T} {w : List α} : Derives g r w → Derives g (.alt r s) w
  | altRight {r s : Rule N T} {w : List α} : Derives g s w → Derives g (.alt r s) w
  | starNil {r : Rule N T} : Derives g (.star r) []
  | starCons {r : Rule N T} {v w : List α} : Derives g r v → Derives g (.star r) w →
      Derives g (.star r) (v ++ w)
  | optNone {r : Rule N T} : Derives g (.opt r) []
  | optSome {r : Rule N T} {w : List α} : Derives g r w → Derives g (.opt r) w

/-! ## Recognition -/

/-- Rules that the rest of a row has to cover one after the other. -/
abbrev Stack (N T : Type) := List (Rule N T)

variable (g : System N T α)

/-- The stacks left after a token is covered by a rule in front of a stack, given those left by a
nonterminal. -/
def advanceRule (a : α) (ofCall : N → Stack N T → List (Stack N T)) :
    Rule N T → Stack N T → List (Stack N T)
  | .empty, _ => []
  | .terminal t, rest => if g.covers t a then [rest] else []
  | .call n, rest => ofCall n rest
  | .seq r s, rest =>
    advanceRule a ofCall r (s :: rest) ++
      if r.vanishes g.vanishes then advanceRule a ofCall s rest else []
  | .alt r s, rest => advanceRule a ofCall r rest ++ advanceRule a ofCall s rest
  | .star r, rest => advanceRule a ofCall r (.star r :: rest)
  | .opt r, rest => advanceRule a ofCall r rest

/-- The stacks left after a token is covered by a nonterminal in front of a stack. -/
def advanceCall (a : α) : Nat → N → Stack N T → List (Stack N T)
  | 0, _, _ => []
  | depth + 1, n, rest => advanceRule g a (advanceCall a depth) (g.production n) rest

/-- The stacks left after a token is covered by the first rule of a stack that covers more than
nothing. -/
def advance (a : α) : Stack N T → List (Stack N T)
  | [] => []
  | r :: rest =>
    advanceRule g a (advanceCall g a g.depth) r rest ++
      if r.vanishes g.vanishes then advance a rest else []

/-- Whether one of several stacks covers a row. -/
def recogniseFrom : List (Stack N T) → List α → Bool
  | candidates, [] => candidates.any fun s => s.all fun r => r.vanishes g.vanishes
  | candidates, a :: rest => recogniseFrom (candidates.flatMap (advance g a)) rest

/-- Whether a nonterminal covers a row of tokens. -/
def recognise (n : N) (row : List α) : Bool :=
  recogniseFrom g [[.call n]] row

/-! ## Grammars that are recognised -/

/-- Whether every nonterminal that can stand at the front of a rule has a property. -/
def Rule.leftmost (p : N → Bool) : Rule N T → Bool
  | .empty => true
  | .terminal _ => true
  | .call n => p n
  | .seq r s => r.leftmost p && (!r.vanishes g.vanishes || s.leftmost p)
  | .alt r s => r.leftmost p && s.leftmost p
  | .star r => r.leftmost p
  | .opt r => r.leftmost p

/-- Whether no chain of nonterminals, each at the front of the production of the one before, is
longer than a bound. -/
def reaches : Nat → N → Bool
  | 0, _ => false
  | depth + 1, n => (g.production n).leftmost g (reaches depth)

/-- What the recogniser is told is right. -/
structure Grounded : Prop where
  vanishes : ∀ n, (g.production n).vanishes g.vanishes = g.vanishes n
  reaches : ∀ n, reaches g g.depth n = true

end SparqlFormat.Grammar
