import SparqlFormat.Proofs.Validity

/-!
# Reformatting again and again

A layout is cut into the tokens it was made of, and a text is laid out from its tokens alone. So
the outputs of a chain of reformats come from two rows of tokens only: that of the text, and after
a step to one line that of the one-line layout, whose comments are gone, whose strings stand on
one line and whose brackets with nothing but a comment between them have become one token.

The last of these changes is the only one that a layout shows. `reformatChain_settles_iff` says
that the outputs depend on the last mode and on whether a step to one line came before, as they
should, exactly when the one-line layout sets the brackets that a comment stood between as it sets
empty ones.
-/

namespace SparqlFormat

open Lexeme Layout Grammar

/-! ## The one-line layout again -/

lemma placeFrom_onOneLine (n : Nesting) (ts : List Token) :
    placeFrom n (ts.map Token.onOneLine) =
      (placeFrom n ts).map fun p => ⟨p.token.onOneLine, p.spacing⟩ := by
  induction ts generalizing n with
  | nil => rfl
  | cons t ts ih =>
    have enter : n.enter t.onOneLine = n.enter t := by cases t <;> rfl
    have leave : ∀ n : Nesting, n.leave t.onOneLine = n.leave t := by cases t <;> intro n <;> rfl
    have set : ∀ n : Nesting,
        spacing n t.onOneLine (ts.map Token.onOneLine).head? = spacing n t ts.head? := by
      intro n
      have next : (ts.map Token.onOneLine).head?.map Token.shape = ts.head?.map Token.shape := by
        cases ts <;> simp
      rw [← spacing_shape, next, shape_onOneLine, spacing_shape]
    rw [List.map_cons, placeFrom, placeFrom, enter, leave, set, ih, List.map_cons]

lemma conciseGaps_onOneLine (ps : List Placed) :
    conciseGaps (ps.map fun p => ⟨p.token.onOneLine, p.spacing⟩) = conciseGaps ps := by
  induction ps with
  | nil => rfl
  | cons p ps ih =>
    cases ps with
    | nil => rfl
    | cons q ps =>
      have isComment : p.token.onOneLine.isComment = p.token.isComment := by
        rw [← isComment_shape, shape_onOneLine, isComment_shape]
      simp only [List.map_cons, conciseGaps, conciseGap, isComment] at ih ⊢
      rw [ih]

lemma concise_onOneLine (ts : List Token) : concise (ts.map Token.onOneLine) = concise ts := by
  rw [concise, concise, place, placeFrom_onOneLine, conciseGaps_onOneLine, List.map_map]
  congr 1
  simp [Function.comp_def]

lemma closeEmptyBrackets_onOneLine (ts : List Token) :
    closeEmptyBrackets (ts.map Token.onOneLine) = (closeEmptyBrackets ts).map Token.onOneLine := by
  refine closeEmptyBrackets_map (fun _ => rfl) (fun left right => ?_) ts
  rw [← hollow_shape, shape_onOneLine, shape_onOneLine, hollow_shape]

/-! ## The row that stays -/

/-- What a row of tokens is read as once it was laid out on one line: its comments are dropped,
the line breaks of its strings escaped, and its empty brackets closed. -/
def flatten (ts : List Token) : List Token :=
  closeEmptyBrackets ((withoutComments ts).map Token.onOneLine)

section Flatten

variable {ts : List Token}

lemma onOneLine_onOneLine (t : Token) : t.onOneLine.onOneLine = t.onOneLine := by
  cases t <;> simp [Token.onOneLine]

lemma flatten_noComment (ts : List Token) : withoutComments (flatten ts) = flatten ts := by
  refine withoutComments_closeEmptyBrackets ?_
  rw [any_of_shape isComment_shape (map_shape_onOneLine _), List.any_eq_false]
  intro t mem
  simpa using (List.mem_filter.1 mem).2

lemma flatten_flatten (ts : List Token) : flatten (flatten ts) = flatten ts := by
  conv_lhs => rw [flatten, flatten_noComment, flatten]
  have same : Token.onOneLine ∘ Token.onOneLine = Token.onOneLine := funext onOneLine_onOneLine
  rw [closeEmptyBrackets_onOneLine, closeEmptyBrackets_idem, ← closeEmptyBrackets_onOneLine,
    List.map_map, same, flatten]

/-- On one line the row shows as the tokens with their empty brackets closed. -/
lemma concise_flatten (ts : List Token) :
    concise (flatten ts) = concise (closeEmptyBrackets (withoutComments ts)) := by
  rw [flatten, closeEmptyBrackets_onOneLine, concise_onOneLine]

/-- A row of tokens whose layouts are read back: each token has a spelling, no brackets are empty,
no tokens merge once the comments are dropped, and one token is no comment. -/
structure Rereadable (ts : List Token) : Prop where
  spelled : ∀ t ∈ ts, ∃ s, Spells false t s
  full : HollowFree ts
  apart : MergeFree (withoutComments ts)
  visible : withoutComments ts ≠ []

namespace Rereadable

lemma reads_concise (h : Rereadable ts) :
    Reads ⟨true, false⟩ (render .concise (withoutComments ts)) (flatten ts) :=
  SparqlFormat.reads_concise (fun t mem => h.spelled t (List.mem_filter.1 mem).1) h.apart

lemma reads_pretty (h : Rereadable ts) : Reads ⟨true, false⟩ (render .pretty ts) ts := by
  have read := SparqlFormat.reads_pretty h.spelled (mergeFree_of_withoutComments h.apart)
  rwa [closeEmptyBrackets_of_hollowFree h.full] at read

protected lemma flatten (h : Rereadable ts) : Rereadable (flatten ts) where
  spelled := h.reads_concise.spelled
  full := h.reads_concise.hollowFree
  apart := by
    rw [flatten_noComment]
    exact mergeFree_closeEmptyBrackets.2 (h.apart.of_shape (map_shape_onOneLine _))
  visible := by
    rw [flatten_noComment, flatten, Ne, closeEmptyBrackets_eq_nil, List.map_eq_nil_iff]
    exact h.visible

end Rereadable

end Flatten

/-! ## Chains -/

/-- Whether some step of a chain was to one line, this one included. -/
def Mode.flattens (flat : Bool) : Mode → Bool
  | .pretty => flat
  | .concise => true

/-- The outputs of a chain where each depends on the mode of its step and on whether a step to one
line came before. -/
def chainOutputs (layout : Bool → Mode → List Char) : Bool → List Mode → List (List Char)
  | _, [] => []
  | flat, mode :: modes => layout flat mode :: chainOutputs layout (mode.flattens flat) modes

/-- The outputs are of three texts: a layout on one line, and one on many lines before and after
such a step. -/
def settledLayout (wide narrow again : List Char) (flat : Bool) : Mode → List Char
  | .pretty => if flat then again else wide
  | .concise => narrow

/-- A text whose chains have no other outputs than its layout on many lines, its layout on one
line, and the latter's on many lines. -/
def Settles (text : List Char) : Prop :=
  ∃ wide narrow again, relayout .pretty text = .ok wide ∧ relayout .concise text = .ok narrow ∧
    relayout .pretty narrow = .ok again ∧
      ∀ modes, reformatChain none modes text =
        (chainOutputs (settledLayout wide narrow again) false modes).map .ok

/-- The row that a text in a chain is read as, before and after a step to one line. -/
def chainRow (ts : List Token) (flat : Bool) : List Token :=
  if flat then flatten ts else ts

/-- The layout of a row of tokens in a chain. -/
def chainLayout (ts : List Token) (flat : Bool) (mode : Mode) : List Char :=
  render mode (mode.select (chainRow ts flat))

section Chain

variable {text : List Char} {ts : List Token} {form : Form}

lemma Rereadable.chainRow (h : Rereadable ts) (flat : Bool) : Rereadable (chainRow ts flat) := by
  cases flat with
  | false => exact h
  | true => exact h.flatten

/-- A step of a chain lays out the row that the text is read as, and its output is read as the row
that the mode leaves. -/
lemma chain_step (h : Rereadable ts) {flat : Bool}
    (read : Reads ⟨true, false⟩ text (chainRow ts flat)) (mode : Mode) :
    relayout mode text = .ok (chainLayout ts flat mode) ∧
      Reads ⟨true, false⟩ (chainLayout ts flat mode) (chainRow ts (mode.flattens flat)) := by
  have row := h.chainRow flat
  refine ⟨relayout_of_reads read row.visible mode, ?_⟩
  cases mode with
  | pretty => exact row.reads_pretty
  | concise =>
    have left : flatten (chainRow ts flat) = chainRow ts true := by
      cases flat with
      | false => rfl
      | true => exact flatten_flatten ts
    exact left ▸ row.reads_concise

/-- All steps of a chain give the layout of the row that the text is read as. -/
lemma reformatChain_eq (h : Rereadable ts) {flat : Bool}
    (read : Reads ⟨true, false⟩ text (chainRow ts flat)) (modes : List Mode) :
    reformatChain none modes text = (chainOutputs (chainLayout ts) flat modes).map .ok := by
  induction modes generalizing text flat with
  | nil => rfl
  | cons mode modes ih =>
    obtain ⟨laidOut, reread⟩ := chain_step h read mode
    have unchecked : reformat none mode text = relayout mode text := rfl
    rw [reformatChain, unchecked, laidOut]
    dsimp only
    rw [ih reread, chainOutputs, List.map_cons]

lemma chainLayout_eq_settledLayout
    (same : chainLayout ts true .concise = chainLayout ts false .concise) :
    chainLayout ts = settledLayout (chainLayout ts false .pretty) (chainLayout ts false .concise)
      (chainLayout ts true .pretty) := by
  funext flat mode
  cases mode with
  | pretty => cases flat <;> rfl
  | concise =>
    cases flat with
    | false => rfl
    | true => exact same

/-- A text settles exactly if its layout on one line shows the same after another. -/
lemma settles_iff_chainLayout (h : Rereadable ts)
    (read : Reads ⟨true, false⟩ text (chainRow ts false)) :
    Settles text ↔ chainLayout ts true .concise = chainLayout ts false .concise := by
  have chain := reformatChain_eq h read
  constructor
  · rintro ⟨wide, narrow, again, -, -, -, settled⟩
    -- two steps to one line show the two layouts
    have outputs := (chain [.concise, .concise]).symm.trans (settled [.concise, .concise])
    simp only [chainOutputs, settledLayout, Mode.flattens, List.map_cons, List.cons.injEq,
      Except.ok.injEq] at outputs
    obtain ⟨first, second, -⟩ := outputs
    rw [first, second]
  · intro same
    obtain ⟨laidOut, reread⟩ := chain_step h read .concise
    refine ⟨_, _, _, (chain_step h read .pretty).1, laidOut, (chain_step h reread .pretty).1,
      fun modes => ?_⟩
    rw [chain, chainLayout_eq_settledLayout same]
    rfl

/-- On one line, a step after another shows empty brackets where a comment stood between two. -/
lemma settles_iff_concise (h : Rereadable ts) (read : Reads ⟨true, false⟩ text ts) :
    Settles text ↔
      concise (closeEmptyBrackets (withoutComments ts)) = concise (withoutComments ts) := by
  have shown : chainLayout ts true .concise =
      concise (closeEmptyBrackets (withoutComments ts)) := by
    rw [← concise_flatten, ← flatten_noComment]
    rfl
  rw [settles_iff_chainLayout h read, shown]
  rfl

lemma CutAlike.mergeFree (alike : CutAlike text) {row : List Stretch}
    (cuts : CutsExpanded text row) (apart : MergeFree (row.map Stretch.token))
    (read : Reads ⟨true, false⟩ text ts) : MergeFree (withoutComments ts) := by
  obtain ⟨us, row', laidOut, cuts', same⟩ := alike
  obtain ⟨ts', read', expands⟩ := layoutTokens?_eq_some.1 laidOut
  obtain rfl : ts' = ts := read'.unique read
  obtain rfl := cuts.unique cuts'
  exact (same ▸ apart).of_shape expands.withoutComments.map_shape.symm

/-- What merges with a point merges with a number. -/
lemma merging_number (left : Token) (kind : NumberKind) (digits : List Char) :
    merging left (.number kind digits) = merging left (.mark .dot) :=
  rfl

/-- Points that are cut off their numbers merge with nothing. -/
lemma mergeFree_flatMap_pointOff (h : MergeFree ts) : MergeFree (ts.flatMap Token.pointOff) := by
  induction ts with
  | nil => exact .nil
  | cons t ts ih =>
    obtain ⟨next, others⟩ := mergeFree_cons.1 h
    -- the next token starts as it did, or with the point that it merges like
    have next' : ∀ u ∈ (ts.flatMap Token.pointOff).head?, merging t u = false := by
      cases ts with
      | nil => simp
      | cons v ts =>
        have next : merging t v = false := next v rfl
        rw [List.flatMap_cons]
        unfold Token.pointOff
        split
        · rw [merging_number] at next
          simpa using next
        · simpa using next
    rw [List.flatMap_cons]
    unfold Token.pointOff
    split
    · exact mergeFree_cons.2 ⟨fun u _ => rfl, mergeFree_cons.2 ⟨fun u _ => rfl, ih others⟩⟩
    · exact mergeFree_cons.2 ⟨next', ih others⟩

/-- The tokens of a text of the language do not merge either if the text is without escapes and no
number in it that starts with its point runs into another point. -/
lemma PointsApart.mergeFree (points : PointsApart text) (free : EscapeFree text)
    {row : List Stretch} (cuts : CutsExpanded text row)
    (apart : MergeFree (row.map Stretch.token)) (read : Reads ⟨true, false⟩ text ts) :
    MergeFree (withoutComments ts) := by
  have parted : ∀ st ∈ row, st.token.startsWithPoint = true → st.behind.head? ≠ some '.' := by
    simpa [PointsApart, everyStretch_iff cuts, or_iff_not_imp_left] using points
  rw [((cutsExpanded_of_escapeFree free).1 cuts).reads_flatMap free parted read.dropComments]
  exact mergeFree_flatMap_pointOff apart

/-- In every chain of reformats of a text of the language, each step succeeds, and its output
depends on its mode and on whether a step to one line came before. Such steps give one text all
along the chain exactly when the one-line layout sets brackets that a comment stood between as it
sets empty ones, so they do if there are none. The tokens of the text may not merge, which holds
if the layout and the standard cut it alike, and also if it has no escapes and no number that
starts with its point runs into another point. -/
theorem reformatChain_settles_iff {checker : Checker} (decides : checker.Decides) {mode : Mode}
    {out : List Char} (accepted : checkForm checker text = .ok form)
    (laidOut : reformat none mode text = .ok out)
    (apart : CutAlike text ∨ EscapeFree text ∧ PointsApart text ∨
      ∀ lexemes, tokenize false text = .ok lexemes → MergeFree (lexemes.map Lexeme.token)) :
    ∃ lexemes ts, tokenize true text = .ok lexemes ∧ ts = lexemes.map Lexeme.token ∧
      (∀ modes, reformatChain none modes text =
        (chainOutputs (chainLayout ts) false modes).map .ok) ∧
      (Settles text ↔
        concise (closeEmptyBrackets (withoutComments ts)) = concise (withoutComments ts)) ∧
      (HollowFree (withoutComments ts) → Settles text) := by
  obtain ⟨ts, read, visible, -⟩ := reads_of_relayout laidOut
  obtain ⟨lexemes, cut, tokens⟩ := reads_iff_tokenize.1 read
  have apart : MergeFree (withoutComments ts) := by
    obtain ⟨row, cuts, acceptedRow⟩ := (checkForm_eq_ok decides).1 accepted
    have mergeFree := mergeFree_of_formOfTokens? acceptedRow
    rcases apart with alike | ⟨free, points⟩ | apart
    · exact alike.mergeFree cuts mergeFree read
    · exact points.mergeFree free cuts mergeFree read
    · obtain ⟨visibleLexemes, cut', tokens'⟩ := reads_iff_tokenize.1 read.dropComments
      exact tokens' ▸ apart visibleLexemes cut'
  have row : Rereadable ts := ⟨read.spelled, read.hollowFree, apart, visible⟩
  have read : Reads ⟨true, false⟩ text (chainRow ts false) := read
  have settles := settles_iff_concise row read
  refine ⟨lexemes, ts, cut, tokens.symm, reformatChain_eq row read, settles, fun full => ?_⟩
  rw [settles, closeEmptyBrackets_of_hollowFree full]

end Chain

/-- A query with a comment next to brackets, and with a string of two lines. -/
def commentBeside : List Char :=
  "SELECT*\x7b[]?p'''a\nb'''#c\n\x7d".toList

/-- A query with a comment between brackets. -/
def commentBetween : List Char :=
  "SELECT*\x7b[#c\n]?p ?o\x7d".toList

/-- The first query settles, and so does one with a number that starts with its point. The second
does not: on one line its brackets stand apart at first, and are closed by the next step. -/
theorem reformatChain_settles_iff_commentBetween :
    Settles commentBeside ∧ Settles leadingPoint ∧
      (checkForm .grammar commentBetween = .ok .query ∧ ¬ Settles commentBetween) := by
  have accepted : checkForm .grammar commentBetween = .ok .query := by decide +kernel
  have accepted' : checkForm .grammar commentBeside = .ok .query := by decide +kernel
  have accepted'' : checkForm .grammar leadingPoint = .ok .query := by decide +kernel
  refine ⟨?_, ?_, accepted, fun settles => ?_⟩
  · have laidOut : reformat none .pretty commentBeside = .ok
        "SELECT * \x7b\n    [] ?p '''a\nb''' # c\n\x7d".toList := by decide +kernel
    obtain ⟨lexemes, ts, cut, rfl, -, settles, -⟩ :=
      reformatChain_settles_iff Checker.grammar_decides accepted' laidOut
        (.inl (by decide +kernel))
    have tokens : (tokenize true commentBeside).toOption.map (fun ls => ls.map Lexeme.token) =
        some [.keyword "SELECT".toList, .mark .star, .mark .openBrace, .mark .emptyBrackets,
          .var ['p'], .string "'''a\nb'''".toList, .comment ['c'], .mark .closeBrace] := by
      decide +kernel
    rw [cut] at tokens
    rw [settles, show lexemes.map Lexeme.token = _ from Option.some.inj tokens]
    decide +kernel
  · have laidOut : reformat none .concise leadingPoint = .ok
        "ASK \x7b ?s ?p . 5 \x7d".toList := by decide +kernel
    have free : EscapeFree leadingPoint := (plain_of_notMem (by decide)).escapeFree
    obtain ⟨lexemes, ts, cut, rfl, -, -, settles⟩ :=
      reformatChain_settles_iff Checker.grammar_decides accepted'' laidOut
        (.inr (.inl ⟨free, by decide +kernel⟩))
    have tokens : (tokenize true leadingPoint).toOption.map (fun ls => ls.map Lexeme.token) =
        some [.keyword "ASK".toList, .mark .openBrace, .var ['s'], .var ['p'], .mark .dot,
          .number .integer ['5'], .mark .closeBrace] := by
      decide +kernel
    rw [cut] at tokens
    rw [show lexemes.map Lexeme.token = _ from Option.some.inj tokens] at settles
    exact settles (by decide +kernel)
  · have laidOut : reformat none .concise commentBetween = .ok
        "SELECT * \x7b [ ] ?p ?o \x7d".toList := by decide +kernel
    obtain ⟨lexemes, ts, cut, rfl, -, unsettled, -⟩ :=
      reformatChain_settles_iff Checker.grammar_decides accepted laidOut (.inl (by decide +kernel))
    have tokens : (tokenize true commentBetween).toOption.map (fun ls => ls.map Lexeme.token) =
        some [.keyword "SELECT".toList, .mark .star, .mark .openBrace, .mark .openBracket,
          .comment ['c'], .mark .closeBracket, .var ['p'], .var ['o'], .mark .closeBrace] := by
      decide +kernel
    rw [cut] at tokens
    rw [unsettled, show lexemes.map Lexeme.token = _ from Option.some.inj tokens] at settles
    exact absurd settles (by decide +kernel)

end SparqlFormat
