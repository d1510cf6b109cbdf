import SparqlFormat.Proofs.Passes

/-!
# A layout is its token texts with gaps between them

Neither layout loses, repeats, reorders or splits a token, whatever the tokens are: `Interleaves`
says of a text that it is the texts of a row in their order, with one gap between every two of them
and nothing in front of the first or behind the last. What a gap may be depends on the token before
it, since a comment has to be alone on the rest of its line.

The statement is about characters. That the passes over segments come to the same layout, with no
more than one segment of white space left in any place, is `prettySegments_eq` and
`conciseSegments_eq`.
-/

namespace SparqlFormat.Layout

/-! ## Texts and gaps -/

/-- The text is that of the tokens, with a gap that may follow its left neighbour between every
two of them. -/
inductive Interleaves (written : Token → List Char) (follows : Token → List Char → Prop) :
    List Token → List Char → Prop
  | nil : Interleaves written follows [] []
  | last (t : Token) : Interleaves written follows [t] (written t)
  | cons {t u : Token} {ts : List Token} {gap rest : List Char} : follows t gap →
      Interleaves written follows (u :: ts) rest →
      Interleaves written follows (t :: u :: ts) (written t ++ (gap ++ rest))

/-- A line feed and some number of copies of the indentation. -/
def IsIndentedLine (indent gap : List Char) : Prop :=
  ∃ n, gap = '\n' :: (List.replicate n indent).flatten

/-- What may follow a token in the many-line layout: a new line, and after tokens other than
comments also nothing or a space. -/
def IsWideGap (indent : List Char) (t : Token) (gap : List Char) : Prop :=
  IsIndentedLine indent gap ∨ (t.isComment = false ∧ (gap = [] ∨ gap = [' ']))

/-- What may follow a token in the one-line layout: a line feed after a comment, and nothing or a
space after every other token. -/
def IsNarrowGap (t : Token) (gap : List Char) : Prop :=
  if t.isComment then gap = ['\n'] else gap = [] ∨ gap = [' ']

/-! ## Many lines -/

lemma isIndentedLine_line (indent : List Char) (level : Int) :
    IsIndentedLine indent ((Gap.line level).render indent) :=
  ⟨level.toNat, rfl⟩

/-- A gap that parts two neighbours may follow the left one. -/
lemma isWideGap_of_parts (indent : List Char) {left right : Token} {g : Gap}
    (parts : Parts left right g) : IsWideGap indent left (g.render indent) := by
  by_cases isComment : left.isComment = true
  · obtain ⟨level, rfl⟩ := parts.endsComment isComment
    exact .inl (isIndentedLine_line indent level)
  · have notComment : left.isComment = false := by simpa using isComment
    cases g with
    | touch => exact .inr ⟨notComment, .inl rfl⟩
    | space => exact .inr ⟨notComment, .inr rfl⟩
    | line level => exact .inl (isIndentedLine_line indent level)

/-- Texts that are parted by gaps are interleaved with them. -/
lemma interleaves_of_parted (indent : List Char) {ts : List Token} {gs : List Gap}
    (parted : Parted ts gs) :
    Interleaves Token.text (IsWideGap indent) ts (weave indent (ts.map Token.text) gs) := by
  induction parted with
  | nil => simpa using Interleaves.nil
  | @last t gs => simpa using Interleaves.last t
  | cons parts _ ih =>
    rw [List.map_cons, weave, List.append_assoc]
    exact .cons (isWideGap_of_parts indent parts) ih

/-! ## One line -/

lemma isNarrowGap_conciseGap (left right : Placed) :
    IsNarrowGap left.token ((conciseGap left right).render []) := by
  unfold IsNarrowGap conciseGap
  split
  · simp [Gap.render]
  · split
    · exact .inl rfl
    · exact .inr rfl

lemma interleaves_conciseGaps (ps : List Placed) :
    Interleaves conciseText IsNarrowGap (ps.map Placed.token)
      (weave [] ((ps.map Placed.token).map conciseText) (conciseGaps ps)) := by
  induction ps with
  | nil => simpa using Interleaves.nil
  | cons left rest ih =>
    cases rest with
    | nil => simpa using Interleaves.last left.token
    | cons right rest =>
      simp only [List.map_cons] at ih ⊢
      rw [conciseGaps, weave, List.append_assoc]
      exact .cons (isNarrowGap_conciseGap left right) ih

/-! ## Both layouts -/

/-- Every row of tokens is laid out as the texts of its tokens, in order, with one gap between every
two and no white space at the ends: on many lines a line feed with some copies of the indentation,
or nothing or a space, but always the first after a comment; on one line, with the line breaks of
strings escaped, a bare line feed after a comment and nothing or a space elsewhere. The passes over
segments lay it out in the same way. -/
theorem layouts_interleave (indent : List Char) (ts : List Token) :
    Interleaves Token.text (IsWideGap indent) ts (pretty indent ts) ∧
      Interleaves conciseText IsNarrowGap ts (concise ts) ∧
      pretty indent ts = renderSegments indent (prettySegments ts) ∧
      concise ts = renderSegments [] (conciseSegments ts) := by
  refine ⟨?_, ?_, pretty_eq_passes indent ts, concise_eq_passes ts⟩
  · exact interleaves_of_parted indent (parted_prettyGaps .initial ts)
  · have narrow := interleaves_conciseGaps (place ts)
    rwa [place_map_token] at narrow

end SparqlFormat.Layout
