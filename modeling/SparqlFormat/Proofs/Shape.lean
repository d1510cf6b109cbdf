import Mathlib.Data.List.Chain
import SparqlFormat.Proofs.Rows

/-!
# The shape of a token

The spacing rules, the grammar and the pairs that merge look into marks, words, names and numbers,
and never into a string, an identifier or a comment. `Token.shape` forgets the bodies of these
three; tokens of one shape are set alike, merge alike and are covered by the same terminals.

Two changes that keep the shape matter later: a string on one line has its line breaks written as
escapes (`Token.onOneLine`), and code point escapes are replaced before the grammar is applied.
-/

namespace SparqlFormat

open Lexeme Layout Grammar

/-- A token without the bodies that no rule looks into. -/
def Token.shape : Token → Token
  | .comment _ => .comment []
  | .string _ => .string []
  | .iri _ => .iri []
  | t => t

section Token

variable (t : Token)

@[simp] lemma isComment_shape : t.shape.isComment = t.isComment := by
  cases t <;> rfl

@[simp] lemma isMark_shape (m : Mark) : t.shape.isMark m = t.isMark m := by
  cases t <;> rfl

@[simp] lemma isWord_shape (ws : List (List Char)) : t.shape.isWord ws = t.isWord ws := by
  cases t <;> rfl

@[simp] lemma isName_shape : t.shape.isName = t.isName := by
  cases t <;> rfl

@[simp] lemma isLanguage_shape : t.shape.isLanguage = t.isLanguage := by
  cases t <;> rfl

@[simp] lemma isApplicable_shape : isApplicable t.shape = isApplicable t := by
  cases t <;> rfl

@[simp] lemma isPathModifier_shape : isPathModifier t.shape = isPathModifier t := by
  simp [isPathModifier]

@[simp] lemma covers_shape (x : Terminal) : x.covers t.shape = x.covers t := by
  cases x <;> cases t <;> rfl

end Token

/-! ## Neighbours -/

section Neighbours

variable (left right : Token)

@[simp] lemma hollow_shape : hollow left.shape right.shape = hollow left right := by
  simp [hollow]

@[simp] lemma merging_shape : merging left.shape right.shape = merging left right := by
  simp [merging]

end Neighbours

section Next

variable (next : Option Token)

/-- A question that the shape of a token answers is answered by the shape of the next token. -/
lemma any_map_shape {p : Token → Bool} (h : ∀ t : Token, p t.shape = p t) :
    (next.map Token.shape).any p = next.any p := by
  cases next with
  | none => rfl
  | some t => exact h t

@[simp] lemma touches_shape (n : Nesting) (t : Token) :
    touches n t.shape (next.map Token.shape) = touches n t next := by
  simp [touches, isNextMark, isNextName, any_map_shape]

@[simp] lemma spacing_shape (n : Nesting) (t : Token) :
    spacing n t.shape (next.map Token.shape) = spacing n t next := by
  simp [spacing, isNextMark, isNextWord, any_map_shape]

end Next

@[simp] lemma adheres_shape (left right : Token) :
    adheres left.shape right.shape = adheres left right := by
  have h := touches_shape (some right) ⟨0, 1⟩ left
  rw [Option.map_some] at h
  simp [adheres, h]

/-! ## Rows -/

section Row

variable {ts us : List Token}

/-- Two rows are of one shape if their tokens are, one by one. -/
lemma map_shape_cons {t : Token} {ts us : List Token}
    (h : us.map Token.shape = (t :: ts).map Token.shape) :
    ∃ u vs, us = u :: vs ∧ u.shape = t.shape ∧ vs.map Token.shape = ts.map Token.shape := by
  cases us with
  | nil => simp at h
  | cons u vs =>
    obtain ⟨first, rest⟩ := List.cons.inj h
    exact ⟨u, vs, rfl, first, rest⟩

/-- What only the shapes of tokens decide on holds of as many in rows of one shape. -/
lemma any_of_shape {p : Token → Bool} (hp : ∀ t : Token, p t.shape = p t)
    (h : us.map Token.shape = ts.map Token.shape) : us.any p = ts.any p := by
  have onShapes : ∀ vs : List Token, (vs.map Token.shape).any p = vs.any p := by
    intro vs
    simp [List.any_map, Function.comp_def, hp]
  rw [← onShapes, h, onShapes]

/-- A chain of neighbours that only their shapes decide on is a chain in every row of that
shape. -/
lemma isChain_of_shape {r : Token → Token → Bool}
    (hr : ∀ left right : Token, r left.shape right.shape = r left right)
    (h : us.map Token.shape = ts.map Token.shape)
    (chain : ts.IsChain fun left right => r left right = false) :
    us.IsChain fun left right => r left right = false := by
  have onShapes : ∀ vs : List Token,
      (vs.map Token.shape).IsChain (fun left right => r left right = false) ↔
        vs.IsChain fun left right => r left right = false := by
    intro vs
    rw [List.isChain_map]
    simp only [hr]
  rwa [← onShapes, h, onShapes]

lemma HollowFree.of_shape (h : us.map Token.shape = ts.map Token.shape) (full : HollowFree ts) :
    HollowFree us :=
  isChain_of_shape hollow_shape h full

lemma MergeFree.of_shape (h : us.map Token.shape = ts.map Token.shape) (apart : MergeFree ts) :
    MergeFree us :=
  isChain_of_shape merging_shape h apart

lemma Parts.of_shape {left right left' right' : Token} {g : Gap} (h : Parts left right g)
    (hleft : left'.shape = left.shape) (hright : right'.shape = right.shape) :
    Parts left' right' g where
  endsComment isComment := h.endsComment (by
    rw [← isComment_shape, hleft, isComment_shape] at isComment
    exact isComment)
  adheres touching := by
    rw [← adheres_shape, hleft, hright, adheres_shape]
    exact h.adheres touching

/-- Gaps that part the neighbours of a row part those of every row of its shape. -/
lemma Parted.of_shape {gs : List Gap} (h : Parted ts gs)
    (hshape : us.map Token.shape = ts.map Token.shape) : Parted us gs := by
  induction h generalizing us with
  | nil =>
    obtain rfl := List.map_eq_nil_iff.1 hshape
    exact .nil
  | last =>
    obtain ⟨u, vs, rfl, -, hvs⟩ := map_shape_cons hshape
    obtain rfl := List.map_eq_nil_iff.1 hvs
    exact .last
  | cons parts _ ih =>
    obtain ⟨left, vs, rfl, hleft, hvs⟩ := map_shape_cons hshape
    obtain ⟨right, ws, rfl, hright, -⟩ := map_shape_cons hvs
    exact .cons (parts.of_shape hleft hright) (ih hvs)

/-- Empty brackets are closed alike before and after a change that leaves marks alone. -/
lemma closeEmptyBrackets_map {f : Token → Token} (onMarks : ∀ m : Mark, f (.mark m) = .mark m)
    (hf : ∀ left right : Token, hollow (f left) (f right) = hollow left right) (ts : List Token) :
    closeEmptyBrackets (ts.map f) = (closeEmptyBrackets ts).map f := by
  induction ts using hollowInduction with
  | nil => rfl
  | singleton t => simp
  | full left right ts full ih =>
    rw [List.map_cons] at ih
    rw [List.map_cons, List.map_cons, closeEmptyBrackets_of_full (by rw [hf, full]),
      closeEmptyBrackets_of_full full, ih, List.map_cons]
  | parens ts ih => simp [closeEmptyBrackets_parens, onMarks, ih]
  | brackets ts ih => simp [closeEmptyBrackets_brackets, onMarks, ih]

/-- Empty brackets are closed alike in rows of one shape. -/
lemma closeEmptyBrackets_of_shape (h : us.map Token.shape = ts.map Token.shape) :
    (closeEmptyBrackets us).map Token.shape = (closeEmptyBrackets ts).map Token.shape := by
  have onShapes := closeEmptyBrackets_map (fun _ => rfl) hollow_shape
  rw [← onShapes, h, onShapes]

end Row

/-! ## Strings on one line -/

/-- A token as the one-line layout writes it: the line breaks of a string as escapes. -/
def Token.onOneLine : Token → Token
  | .string source => .string (escapeLineBreaks source)
  | t => t

@[simp] lemma shape_onOneLine (t : Token) : t.onOneLine.shape = t.shape := by
  cases t <;> rfl

@[simp] lemma map_shape_onOneLine (ts : List Token) :
    (ts.map Token.onOneLine).map Token.shape = ts.map Token.shape := by
  simp

/-- Escaped line breaks are escaped no further. -/
@[simp] lemma escapeLineBreaks_escapeLineBreaks (source : List Char) :
    escapeLineBreaks (escapeLineBreaks source) = escapeLineBreaks source := by
  induction source with
  | nil => rfl
  | cons c source ih =>
    simp only [escapeLineBreaks, List.flatMap_cons, List.flatMap_append] at ih ⊢
    rw [ih]
    split
    · rfl
    · split
      · rfl
      · simp_all

@[simp] lemma conciseText_onOneLine (t : Token) : conciseText t.onOneLine = conciseText t := by
  cases t <;> simp [Token.onOneLine, conciseText]

/-- The one-line text of a token that has a spelling spells the token on one line. -/
lemma Spells.onOneLine {pointFirst : Bool} {t : Token} {s : List Char}
    (h : Spells pointFirst t s) : Spells pointFirst t.onOneLine (conciseText t) := by
  cases t with
  | string source =>
    cases h with
    | string isMark hsource =>
      have reread := string?_reread (k := []) isMark hsource (escapesBreaks_escapeLineBreaks s)
        (by simp)
      exact .string isMark (by simpa using reread)
    | word hw ht => nomatch isVerbal_of_ofWord ht
  | _ => exact h.text

end SparqlFormat
