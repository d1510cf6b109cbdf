import SparqlFormat.Proofs.Shape

/-!
# The layouts are read back

The gaps of both layouts part the neighbours of every row of tokens: a comment is followed by a
line break, and only neighbours that adhere are set side by side. This holds whatever brackets are
open and wherever lines are broken after calls, so it is proved from any nesting and any memory of
the calls on.

The two round trips follow. `tokenize_pretty` reads the many-line layout back as the tokens it was
made of, comments included. `tokenize_concise` reads the one-line layout back as these tokens with
the line breaks of their strings written as escapes.
-/

namespace SparqlFormat

open Lexeme Layout Grammar

/-! ## The gaps -/

section Gaps

variable {n : Nesting} {left right : Token}

lemma spacing_comment (isComment : left.isComment = true) (next : Option Token) :
    spacing n left next = .inline (.line n.level) := by
  simp [spacing, isComment]

lemma text_comment (body : List Char) : ∃ rest, (Token.comment body).text = '#' :: rest := by
  cases body with
  | nil => exact ⟨[], rfl⟩
  | cons c body => exact ⟨' ' :: c :: body, rfl⟩

/-- The gap of the many-line layout parts its neighbours, whatever line the right one starts. -/
lemma parts_prettyGap {n' : Nesting} {next : Option Token} (callBreak : Option Int) :
    Parts left right
      (prettyGap ⟨left, spacing n left (some right)⟩ callBreak ⟨right, spacing n' right next⟩) where
  endsComment isComment := by
    obtain ⟨body, rfl⟩ := (Token.isComment_iff left).1 isComment
    obtain ⟨rest, htext⟩ := text_comment body
    have apart : staysJoined (Token.comment body).text right.text = false := by
      simp [staysJoined, htext]
    simp only [prettyGap, spacing_comment isComment, Spacing.inline]
    cases (spacing n' right next).leading <;> cases callBreak <;>
      simp [settle, rejoin, apart]
  adheres touching := by
    refine adheres_of_spacing (n := n) ?_
    simp only [prettyGap] at touching
    revert touching
    cases (spacing n' right next).leading <;> cases callBreak <;>
      cases (spacing n left (some right)).after <;> simp [settle, rejoin] <;> split <;> simp

lemma parted_prettyGaps (calls : Calls) (ts : List Token) :
    Parted ts (prettyGaps (placeFrom n ts) (callBreaksFrom calls (placeFrom n ts))) := by
  induction ts generalizing n calls with
  | nil => exact .nil
  | cons left ts ih =>
    cases ts with
    | nil => exact .last
    | cons right ts => exact .cons (parts_prettyGap _) (ih _)

lemma parts_conciseGap {right' : Placed} :
    Parts left right (conciseGap ⟨left, spacing n left (some right)⟩ right') where
  endsComment isComment := ⟨0, by simp [conciseGap, isComment]⟩
  adheres touching := by
    refine adheres_of_spacing (n := n) ?_
    unfold conciseGap at touching
    split at touching
    · contradiction
    · split at touching
      · simp_all
      · contradiction

lemma parted_conciseGaps (ts : List Token) : Parted ts (conciseGaps (placeFrom n ts)) := by
  induction ts generalizing n with
  | nil => exact .nil
  | cons left ts ih =>
    cases ts with
    | nil => exact .last
    | cons right ts => exact .cons parts_conciseGap ih

end Gaps

/-! ## Reading a layout -/

section Read

variable {pointFirst : Bool}

lemma defaultIndent_blank : ∀ c ∈ defaultIndent, isBlank c = true :=
  List.all_eq_true.1 (by decide)

/-- The many-line layout of tokens, each in some spelling, is read back. -/
theorem reads_pretty {ts : List Token} (spelled : ∀ t ∈ ts, ∃ s, Spells pointFirst t s)
    (apart : MergeFree ts) :
    Reads ⟨true, pointFirst⟩ (render .pretty ts) (closeEmptyBrackets ts) := by
  have tokens : (ts.map fun t => (t, t.text)).map Prod.fst = ts := by
    simp [List.map_map, Function.comp_def]
  have texts : (ts.map fun t => (t, t.text)).map Prod.snd = ts.map Token.text := by
    simp [List.map_map, Function.comp_def]
  have spellings : ∀ r ∈ ts.map fun t => (t, t.text), Spells pointFirst r.1 r.2 := by
    simp only [List.forall_mem_map]
    intro t mem
    obtain ⟨s, hs⟩ := spelled t mem
    exact hs.text
  have parted : Parted ((ts.map fun t => (t, t.text)).map Prod.fst)
      (prettyGaps (place ts) (callBreaks (place ts))) := by
    rw [tokens]
    exact parted_prettyGaps .initial ts
  have read := reads_weave defaultIndent_blank spellings parted (by rwa [tokens])
  rwa [tokens, texts] at read

/-- The one-line layout of tokens, each in some spelling, is read back with the line breaks of
strings escaped. -/
theorem reads_concise {ts : List Token} (spelled : ∀ t ∈ ts, ∃ s, Spells pointFirst t s)
    (apart : MergeFree ts) :
    Reads ⟨true, pointFirst⟩ (render .concise ts)
      (closeEmptyBrackets (ts.map Token.onOneLine)) := by
  have spellings : ∀ r ∈ ts.map fun t => (t.onOneLine, conciseText t),
      Spells pointFirst r.1 r.2 := by
    simp only [List.forall_mem_map]
    intro t mem
    obtain ⟨s, hs⟩ := spelled t mem
    exact hs.onOneLine
  have tokens : (ts.map fun t => (t.onOneLine, conciseText t)).map Prod.fst =
      ts.map Token.onOneLine := by
    simp [List.map_map, Function.comp_def]
  have texts : (ts.map fun t => (t.onOneLine, conciseText t)).map Prod.snd =
      ts.map conciseText := by
    simp [List.map_map, Function.comp_def]
  have parted : Parted ((ts.map fun t => (t.onOneLine, conciseText t)).map Prod.fst)
      (conciseGaps (place ts)) := by
    rw [tokens]
    exact (parted_conciseGaps ts).of_shape (map_shape_onOneLine ts)
  have read := reads_weave (List.forall_mem_nil _) spellings parted (by
    rw [tokens]
    exact apart.of_shape (map_shape_onOneLine ts))
  rwa [tokens, texts] at read

end Read

/-! ## The round trips -/

/-- The many-line layout of the tokens of a text is cut into these tokens, comments included,
unless two neighbours merge. -/
theorem tokenize_pretty {text : List Char} {lexemes : List Lexeme}
    (cut : tokenize true text = .ok lexemes) (apart : MergeFree (lexemes.map Lexeme.token)) :
    ∃ again, tokenize true (render .pretty (lexemes.map Lexeme.token)) = .ok again ∧
      again.map Lexeme.token = lexemes.map Lexeme.token := by
  have read : Reads ⟨true, false⟩ text (lexemes.map Lexeme.token) :=
    reads_iff_tokenize.2 ⟨lexemes, cut, rfl⟩
  have reread := reads_pretty read.spelled apart
  rw [closeEmptyBrackets_of_hollowFree read.hollowFree] at reread
  exact reads_iff_tokenize.1 reread

/-- A text with calls inside a block inside a call, comments inside brackets, an operator that
touches both its neighbours and a sort direction. -/
def nestedCalls : List Char :=
  ("SELECT*\x7b?s ^:p/:q*[ ]# one\n.FILTER(EXISTS\x7bBIND((?x<5&&!?y #two\n)AS?z)\x7d)" ++
    "FILTER NOT EXISTS\x7b?s:p( #three\r\n)\x7d\x7dORDER BY ASC(?x)DESC #four\n(?y)").toList

/-- The round trip of a text of this kind. -/
theorem tokenize_pretty_nestedCalls :
    ∃ lexemes, tokenize true nestedCalls = .ok lexemes ∧ lexemes.length = 54 ∧
      MergeFree (lexemes.map Lexeme.token) ∧
      ∃ again, tokenize true (render .pretty (lexemes.map Lexeme.token)) = .ok again ∧
        again.map Lexeme.token = lexemes.map Lexeme.token := by
  have checked : ((tokenize true nestedCalls).toOption.any fun lexemes =>
      lexemes.length == 54 && decide (MergeFree (lexemes.map Lexeme.token))) = true := by
    decide +kernel
  cases cut : tokenize true nestedCalls with
  | error e =>
    rw [cut] at checked
    contradiction
  | ok lexemes =>
    simp only [cut, Except.toOption, Option.any_some, Bool.and_eq_true, beq_iff_eq,
      decide_eq_true_eq] at checked
    obtain ⟨length, apart⟩ := checked
    exact ⟨lexemes, rfl, length, apart, tokenize_pretty cut apart⟩

/-- The one-line layout of the tokens of a text, with or without its comments, is cut into these
tokens with the line breaks of their strings escaped, unless two neighbours merge or are brackets
that a comment stood between. -/
theorem tokenize_concise {keepComments : Bool} {text : List Char} {lexemes : List Lexeme}
    (cut : tokenize keepComments text = .ok lexemes)
    (full : HollowFree (lexemes.map Lexeme.token))
    (apart : MergeFree (lexemes.map Lexeme.token)) :
    ∃ again, tokenize true (render .concise (lexemes.map Lexeme.token)) = .ok again ∧
      again.map Lexeme.token = (lexemes.map Lexeme.token).map Token.onOneLine := by
  have read : Reads ⟨keepComments, false⟩ text (lexemes.map Lexeme.token) :=
    reads_iff_tokenize.2 ⟨lexemes, cut, rfl⟩
  have reread := reads_concise read.spelled apart
  rw [closeEmptyBrackets_of_hollowFree (full.of_shape (map_shape_onOneLine _))] at reread
  exact reads_iff_tokenize.1 reread

/-- A text with a long string over several lines, and comments between a string and its language
tag and between a sort direction and its expression. -/
def commentsBetween : List Char :=
  ("SELECT?x\x7b?x:p\"\"\"a\r\n\\\"\"b\n\"\"\"#one\n@en-GB,( [ :q<a>#two\r]5.0e1)" ++
    "FILTER(?x<!?y#three\n)\x7dORDER BY DESC#four\n(?x)").toList

/-- The round trip of a text of this kind, its comments dropped. -/
theorem tokenize_concise_commentsBetween :
    ∃ lexemes, tokenize false commentsBetween = .ok lexemes ∧ lexemes.length = 29 ∧
      HollowFree (lexemes.map Lexeme.token) ∧ MergeFree (lexemes.map Lexeme.token) ∧
      ∃ again, tokenize true (render .concise (lexemes.map Lexeme.token)) = .ok again ∧
        again.map Lexeme.token = (lexemes.map Lexeme.token).map Token.onOneLine := by
  have checked : ((tokenize false commentsBetween).toOption.any fun lexemes =>
      lexemes.length == 29 && decide (HollowFree (lexemes.map Lexeme.token)) &&
        decide (MergeFree (lexemes.map Lexeme.token))) = true := by
    decide +kernel
  cases cut : tokenize false commentsBetween with
  | error e =>
    rw [cut] at checked
    contradiction
  | ok lexemes =>
    simp only [cut, Except.toOption, Option.any_some, Bool.and_eq_true, beq_iff_eq,
      decide_eq_true_eq] at checked
    obtain ⟨⟨length, full⟩, apart⟩ := checked
    exact ⟨lexemes, rfl, length, full, apart, tokenize_concise cut full apart⟩

end SparqlFormat
