import SparqlFormat.Proofs.Acceptance
import SparqlFormat.Proofs.Agreement
import SparqlFormat.Proofs.RoundTrip
import SparqlFormat.Reformat

/-!
# Texts of the language stay in the language

Where the layout and the standard cut a text alike (`CutAlike`), the text laid out anew is of the
form it was of. Where they do not, the layout puts white space between tokens that the standard
never saw, and the form can be lost.

`reformat_keeps_form` says when it is kept, whatever checker decides the language: exactly when
the grammar accepts the tokens that the layout is made of (`layoutForm?`).
-/

namespace SparqlFormat

open Lexeme Layout Grammar

/-! ## Comments among the tokens -/

lemma merging_comment {left right : Token}
    (isComment : left.isComment = true ∨ right.isComment = true) : merging left right = false := by
  rcases isComment with h | h <;> obtain ⟨body, rfl⟩ := (Token.isComment_iff _).1 h <;>
    simp [merging, Token.isMark, Token.isWord, Token.isLanguage, Token.isComment]

/-- Comments part neighbours, so what does not hold of neighbours without the comments, and not of
comments, holds of no neighbours. -/
lemma isChain_of_withoutComments {r : Token → Token → Bool}
    (parted : ∀ left right : Token, left.isComment = true ∨ right.isComment = true →
      r left right = false) {ts : List Token}
    (h : (withoutComments ts).IsChain fun left right => r left right = false) :
    ts.IsChain fun left right => r left right = false := by
  induction ts with
  | nil => exact .nil
  | cons t ts ih =>
    rw [List.isChain_cons]
    by_cases isComment : t.isComment = true
    · obtain ⟨body, rfl⟩ := (Token.isComment_iff t).1 isComment
      exact ⟨fun u _ => parted _ u (.inl isComment), ih h⟩
    · rw [withoutComments_cons (by simpa using isComment), List.isChain_cons] at h
      refine ⟨fun u head => ?_, ih h.2⟩
      by_cases nextComment : u.isComment = true
      · exact parted t u (.inr nextComment)
      · refine h.1 u ?_
        cases ts with
        | nil => contradiction
        | cons v ts =>
          obtain rfl : v = u := by simpa using head
          simp [withoutComments_cons (by simpa using nextComment)]

lemma mergeFree_of_withoutComments {ts : List Token} (h : MergeFree (withoutComments ts)) :
    MergeFree ts :=
  isChain_of_withoutComments (fun _ _ => merging_comment) h

lemma withoutComments_closeEmptyBrackets {ts : List Token}
    (noComment : ts.any Token.isComment = false) :
    withoutComments (closeEmptyBrackets ts) = closeEmptyBrackets ts := by
  rw [← any_closeEmptyBrackets (fun _ => rfl)] at noComment
  exact List.filter_eq_self.2 (by simpa using noComment)

/-! ## The form of a layout -/

section Layout

variable {ts row : List Token}

/-- What is read of a text, with numbers that may start with their point, is what the standard cuts
it into, if no token holds an escape. -/
lemma Reads.cuts {text : List Char} (h : Reads ⟨false, true⟩ text ts)
    (plain : ∀ t ∈ ts, isEscaped t = false) :
    ∃ row, Cuts text row ∧ row.map Stretch.token = ts := by
  induction h with
  | done => exact ⟨[], .done, rfl⟩
  | blank isBlank _ ih =>
    obtain ⟨row, cuts, tokens⟩ := ih plain
    exact ⟨row, .blank isBlank cuts, tokens⟩
  | @comment body rest _ noBreak ends _ ih =>
    obtain ⟨row, cuts, tokens⟩ := ih plain
    refine ⟨row, .comment noBreak (fun c mem => ?_) cuts, tokens⟩
    simpa [Option.mem_def.1 mem] using ends
  | @token s rest t ts read _ ih =>
    obtain ⟨first, others⟩ := List.forall_mem_cons.1 plain
    obtain ⟨row, cuts, rfl⟩ := ih others
    have found : terminal? (s ++ rest) = some (t, s) := by simp [terminal?, read, first]
    exact ⟨_, .terminal (terminal?_eq_some.1 found) cuts, rfl⟩

variable {checker : Checker} (decides : checker.Decides) {form : Form}

include decides

lemma checkForm_of_reads {text expanded : List Char} {us : List Token}
    (hexpanded : expandCodePoints text = some expanded)
    (read : Reads ⟨true, true⟩ expanded us) (plain : ∀ t ∈ us, isEscaped t = false) :
    checkForm checker text = .ok form ↔ formOfTokens? (withoutComments us) = some form := by
  obtain ⟨row, cuts, tokens⟩ :=
    read.dropComments.cuts fun t mem => plain t (List.mem_filter.1 mem).1
  have cuts : CutsExpanded text row := ⟨expanded, hexpanded, cuts⟩
  rw [checkForm_eq_ok decides, cuts.exists_iff, tokens]

/-- The many-line layout is of the form of its tokens with their escapes replaced. -/
theorem checkForm_render_pretty (spelled : ∀ t ∈ ts, ∃ s, Spells false t s) (full : HollowFree ts)
    (apart : MergeFree ts) (expands : ExpandsTo ts row)
    (spelled' : ∀ t ∈ row, ∃ s, Spells true t s) (plain : ∀ t ∈ row, isEscaped t = false) :
    checkForm checker (render .pretty ts) = .ok form ↔
      formOfTokens? (withoutComments row) = some form := by
  obtain ⟨pieces, tokens, sources, readings⟩ := expands.pieces spelled spelled'
  have parted : Parted (pieces.map Piece.token)
      (prettyGaps (place ts) (callBreaks (place ts))) := by
    rw [tokens]
    exact parted_prettyGaps .initial ts
  obtain ⟨expanded, hexpanded, read⟩ :=
    reads_expanded defaultIndent_blank parted (by rwa [tokens])
  rw [sources] at hexpanded
  rw [readings, closeEmptyBrackets_of_hollowFree (full.of_shape expands.map_shape)] at read
  exact checkForm_of_reads decides hexpanded read plain

/-- The one-line layout of tokens other than comments is of the form of these tokens with their
escapes replaced, if that is one. -/
theorem checkForm_render_concise (spelled : ∀ t ∈ ts, ∃ s, Spells false t s)
    (noComment : ts.any Token.isComment = false) (expands : ExpandsTo ts row)
    (spelled' : ∀ t ∈ row, ∃ s, Spells true t s) (accepted : formOfTokens? row = some form) :
    checkForm checker (render .concise ts) = .ok form := by
  obtain ⟨pieces, tokens, sources, escaped⟩ := expands.concisePieces spelled spelled'
  have apart : MergeFree ts :=
    (mergeFree_of_formOfTokens? accepted).of_shape expands.map_shape.symm
  have parted : Parted (pieces.map Piece.token) (conciseGaps (place ts)) := by
    rw [tokens]
    exact parted_conciseGaps ts
  obtain ⟨expanded, hexpanded, read⟩ :=
    reads_expanded (List.forall_mem_nil _) parted (by rwa [tokens])
  rw [sources] at hexpanded
  set readings := pieces.map Piece.reading with hreadings
  have alike : readings.map Token.shape = row.map Token.shape := by
    rw [expands.map_shape, ← tokens, hreadings]
    simp [List.map_map, Function.comp_def, Piece.alike]
  have noEscape : row.any isEscaped = false := by
    by_contra some
    rw [formOfTokens?, if_pos (by simpa using some)] at accepted
    contradiction
  have noComment' : readings.any Token.isComment = false := by
    rw [any_of_shape isComment_shape (alike.trans expands.map_shape), noComment]
  have plain : (closeEmptyBrackets readings).any isEscaped = false := by
    rw [any_closeEmptyBrackets fun _ => rfl]
    exact escaped noEscape
  refine (checkForm_of_reads decides hexpanded read (by simpa using plain)).2 ?_
  rw [withoutComments_closeEmptyBrackets noComment', formOfTokens?_closeEmptyBrackets,
    formOfTokens?_of_shape alike ((escaped noEscape).trans noEscape.symm), accepted]

end Layout

/-! ## The form is kept -/

section Keep

variable {text : List Char} {ts : List Token}

/-- The tokens that a mode lays out. -/
def Mode.select (mode : Mode) (ts : List Token) : List Token :=
  match mode with
  | .pretty => ts
  | .concise => withoutComments ts

lemma relayout_of_reads (read : Reads ⟨true, false⟩ text ts) (visible : withoutComments ts ≠ [])
    (mode : Mode) : relayout mode text = .ok (render mode (mode.select ts)) := by
  have selected : Reads ⟨mode.keepsComments, false⟩ text (mode.select ts) := by
    cases mode with
    | pretty => exact read
    | concise => exact read.dropComments
  obtain ⟨lexemes, cut, tokens⟩ := reads_iff_tokenize.1 selected
  have some : (mode.select ts).all Token.isComment = false := by
    rw [← Bool.not_eq_true, ← withoutComments_eq_nil]
    cases mode with
    | pretty => exact visible
    | concise => simpa [Mode.select, withoutComments] using visible
  simp only [relayout, cut, tokens, some, Bool.false_eq_true, if_false]

lemma reads_of_relayout {mode : Mode} {out : List Char} (h : relayout mode text = .ok out) :
    ∃ ts, Reads ⟨true, false⟩ text ts ∧ withoutComments ts ≠ [] ∧
      out = render mode (mode.select ts) := by
  unfold relayout at h
  split at h
  · contradiction
  · next lexemes cut =>
    dsimp only at h
    split at h
    · contradiction
    · next some =>
      obtain rfl := Except.ok.inj h
      have read : Reads ⟨mode.keepsComments, false⟩ text (lexemes.map Lexeme.token) :=
        reads_iff_tokenize.2 ⟨lexemes, cut, rfl⟩
      rw [← withoutComments_eq_nil] at some
      cases mode with
      | pretty => exact ⟨_, read, some, rfl⟩
      | concise =>
        obtain ⟨ts, whole, hts⟩ := read.restoreComments
        have noComment : withoutComments (lexemes.map Lexeme.token) = lexemes.map Lexeme.token :=
          List.filter_eq_self.2 fun t mem => by simp [read.noComment t mem]
        rw [noComment] at some
        exact ⟨ts, whole, by rwa [hts], by rw [Mode.select, hts]⟩

/-- Some token of a text that is cut is no comment, unless the text is cut into nothing without
its comments. -/
lemma withoutComments_ne_nil (read : Reads ⟨true, false⟩ text ts)
    (visible : tokenize false text ≠ .ok []) : withoutComments ts ≠ [] := by
  obtain ⟨lexemes, cut, tokens⟩ := reads_iff_tokenize.1 read.dropComments
  intro none
  rw [none, List.map_eq_nil_iff] at tokens
  exact visible (tokens ▸ cut)

lemma reformat_of_checkForm {checker : Checker} {form : Form}
    (accepted : checkForm checker text = .ok form) (mode : Mode) :
    reformat (some checker) mode text = relayout mode text := by
  simp [reformat, accepted]

lemma relayout_of_reformat {checker? : Option Checker} {mode : Mode} {out : List Char}
    (h : reformat checker? mode text = .ok out) : relayout mode text = .ok out := by
  unfold reformat at h
  split at h
  · exact h
  · split at h
    · contradiction
    · exact h

/-- Both layouts of a text are made, and the checker accepts them as of a given form. -/
def KeepsForm (checker : Checker) (form : Form) (text : List Char) : Prop :=
  ∀ mode, ∃ out, reformat (some checker) mode text = .ok out ∧ checkForm checker out = .ok form

lemma spelled_comment {t u : Token} (h : t.expand? = some u) (isComment : u.isComment = true) :
    ∃ s, Spells true u s := by
  obtain ⟨body, rfl⟩ := (Token.isComment_iff u).1 isComment
  cases t with
  | comment source =>
    simp only [Token.expand?, Option.bind_eq_some_iff, Option.ite_none_left_eq_some,
      Option.some.injEq] at h
    obtain ⟨ds, -, noBreak, hbody⟩ := h
    have spelled : Spells true (.comment (trim ds)) ('#' :: ds) :=
      .comment (by simpa using noBreak)
    exact ⟨_, hbody ▸ spelled⟩
  | _ => simp [Token.expand?] at h

/-- A row of tokens expanded, of which all but the comments are tokens of the grammar, has a
spelling of each token and no escape. -/
lemma spelled_of_expands {row : List Token} (expands : ExpandsTo ts row)
    (known : ∀ t ∈ row, t.isComment = false → ∃ s, s ∈ spellings t) :
    ∀ t ∈ row, (∃ s, Spells true t s) ∧ isEscaped t = false := by
  intro t mem
  by_cases isComment : t.isComment = true
  · obtain ⟨source, -, h⟩ := expands.source_of_mem mem
    refine ⟨spelled_comment h isComment, ?_⟩
    obtain ⟨body, rfl⟩ := (Token.isComment_iff t).1 isComment
    rfl
  · obtain ⟨s, member⟩ := known t mem (by simpa using isComment)
    obtain ⟨spelled, -, plain⟩ := mem_spellings_iff.1 member
    exact ⟨⟨s, spelled⟩, plain⟩

lemma Grammar.Cuts.exists_spelling {row : List Stretch} (cuts : Cuts text row) :
    ∀ t ∈ row.map Stretch.token, ∃ s, s ∈ spellings t := by
  induction cuts with
  | done => simp
  | blank _ _ ih => exact ih
  | comment _ _ _ ih => exact ih
  | terminal terminal _ ih => exact List.forall_mem_cons.2 ⟨⟨_, terminal.spelled⟩, ih⟩

variable {checker : Checker} (decides : checker.Decides) {form : Form} {row : List Token}

include decides

/-- The form is kept if the tokens that are laid out are of it, once their escapes are
replaced. -/
lemma keepsForm_of_row (accepted : checkForm checker text = .ok form)
    (visible : tokenize false text ≠ .ok []) (read : Reads ⟨true, false⟩ text ts)
    (expands : ExpandsTo ts row)
    (known : ∀ t ∈ row, t.isComment = false → ∃ s, s ∈ spellings t)
    (acceptedRow : formOfTokens? (withoutComments row) = some form) :
    KeepsForm checker form text := by
  intro mode
  have spelled := spelled_of_expands expands known
  refine ⟨render mode (mode.select ts), ?_, ?_⟩
  · rw [reformat_of_checkForm accepted,
      relayout_of_reads read (withoutComments_ne_nil read visible)]
  · cases mode with
    | pretty =>
      have apart : MergeFree ts :=
        (mergeFree_of_withoutComments (mergeFree_of_formOfTokens? acceptedRow)).of_shape
          expands.map_shape.symm
      exact (checkForm_render_pretty decides read.spelled read.hollowFree apart expands
        (fun t mem => (spelled t mem).1) fun t mem => (spelled t mem).2).2 acceptedRow
    | concise =>
      have noComment : (withoutComments ts).any Token.isComment = false := by
        rw [List.any_eq_false]
        exact fun t mem => by simp [read.dropComments.noComment t mem]
      exact checkForm_render_concise decides read.dropComments.spelled noComment
        expands.withoutComments (fun t mem => (spelled t (List.mem_filter.1 mem).1).1) acceptedRow

lemma keepsForm_of_cutAlike (accepted : checkForm checker text = .ok form)
    (visible : tokenize false text ≠ .ok []) (alike : CutAlike text) :
    KeepsForm checker form text := by
  obtain ⟨row, stretches, laidOut, cutsExpanded, same⟩ := alike
  obtain ⟨ts, read, expands⟩ := layoutTokens?_eq_some.1 laidOut
  obtain ⟨_, cuts', acceptedRow⟩ := (checkForm_eq_ok decides).1 accepted
  rw [← cutsExpanded.unique cuts', same] at acceptedRow
  obtain ⟨_, -, cuts⟩ := cutsExpanded
  refine keepsForm_of_row decides accepted visible read expands (fun t mem notComment => ?_)
    acceptedRow
  exact cuts.exists_spelling t (same ▸ List.mem_filter.2 ⟨mem, by simp [notComment]⟩)

/-- Let the checker decide the language. A text that it accepts and that holds more than comments
keeps its form in both layouts if the layout and the standard cut it alike. A text without escapes
is cut alike exactly if no number starts with its point and no word runs into the next token. If
no tokens of a text merge and its escapes stay inside their tokens, it keeps its form exactly when
the tokens laid out are of this form. -/
theorem reformat_keeps_form (accepted : checkForm checker text = .ok form)
    (visible : tokenize false text ≠ .ok []) :
    (CutAlike text → KeepsForm checker form text) ∧
      (EscapeFree text → (CutAlike text ↔ Unpointed text ∧ WordsApart text)) ∧
      (Regular text → (KeepsForm checker form text ↔ layoutForm? text = some form)) := by
  obtain ⟨stretches, cutsExpanded, -⟩ := (checkForm_eq_ok decides).1 accepted
  refine ⟨keepsForm_of_cutAlike decides accepted visible,
    fun free => cutAlike_iff_of_escapeFree free cutsExpanded,
    fun regular => ⟨fun keeps => ?_, ?_⟩⟩
  · obtain ⟨out, laidOut, hform⟩ := keeps .pretty
    rw [reformat_of_checkForm accepted] at laidOut
    obtain ⟨ts, read, -, rfl⟩ := reads_of_relayout laidOut
    obtain ⟨lexemes, cut, rfl⟩ := reads_iff_tokenize.1 read
    obtain ⟨apart, row, expands, known⟩ := regular lexemes cut
    have expands := mapM_expand?_iff.1 expands
    have spelled := spelled_of_expands expands known
    have laidOut := layoutTokens?_eq_some.2 ⟨_, read, expands⟩
    rw [layoutForm?, laidOut, Option.bind_some]
    exact (checkForm_render_pretty decides read.spelled read.hollowFree apart expands
      (fun t mem => (spelled t mem).1) fun t mem => (spelled t mem).2).1 hform
  · intro acceptedRow
    obtain ⟨row, laidOut, acceptedRow⟩ := Option.bind_eq_some_iff.1 acceptedRow
    obtain ⟨ts, read, expands⟩ := layoutTokens?_eq_some.1 laidOut
    obtain ⟨lexemes, cut, rfl⟩ := reads_iff_tokenize.1 read
    obtain ⟨-, row', expands', known⟩ := regular lexemes cut
    obtain rfl : row' = row :=
      Option.some.inj (expands'.symm.trans (mapM_expand?_iff.2 expands))
    exact keepsForm_of_row decides accepted visible read expands known acceptedRow

end Keep

/-- A query with escapes in an identifier, two strings and a comment, and with brackets that a
comment stands between. -/
def escapesInside : List Char :=
  ("PREFIX p:<http://x/\\u00e9#>ASK\x7b?s p:a.b'\\u0041\\n'@en #\\u0021\n,-1.5e3 ;a[ #two\n]." ++
    "FILTER(?x<5&&p:f\\-g(\"\"\"a\r\n\\U0001F600\"\"\"))\x7d").toList

/-- A query with a number that starts with its point. -/
def leadingPoint : List Char :=
  "ASK\x7b?s ?p .5\x7d".toList

/-- A query with a word that runs into a number. -/
def wordRunsOn : List Char :=
  "ASK\x7b?s a1\x7d".toList

/-- The first query keeps its form. The others do not: the layout parts the point from the digits
of the second, and cuts the third not at all. -/
theorem reformat_keeps_form_escapesInside :
    KeepsForm .grammar .query escapesInside ∧
      (checkForm .grammar leadingPoint = .ok .query ∧ ¬ KeepsForm .grammar .query leadingPoint) ∧
      (checkForm .grammar wordRunsOn = .ok .query ∧ ¬ KeepsForm .grammar .query wordRunsOn) := by
  have accepted : checkForm .grammar leadingPoint = .ok .query := by decide +kernel
  have accepted' : checkForm .grammar wordRunsOn = .ok .query := by decide +kernel
  have free : EscapeFree leadingPoint := (plain_of_notMem (by decide)).escapeFree
  have regular : Regular leadingPoint := by
    refine regular_of_escapeFree free fun lexemes cut => ?_
    have tokens : (tokenize true leadingPoint).toOption.map (fun ls => ls.map Lexeme.token) =
        some [.keyword "ASK".toList, .mark .openBrace, .var ['s'], .var ['p'], .mark .dot,
          .number .integer ['5'], .mark .closeBrace] := by
      decide +kernel
    rw [cut] at tokens
    rw [show lexemes.map Lexeme.token = _ from Option.some.inj tokens]
    decide +kernel
  have regular' : Regular wordRunsOn := by
    intro lexemes cut
    have fails : (tokenize true wordRunsOn).toOption = none := by decide +kernel
    rw [cut] at fails
    cases fails
  refine ⟨(reformat_keeps_form Checker.grammar_decides (by decide +kernel) (by decide +kernel)).1
    (by decide +kernel), ⟨accepted, fun keeps => ?_⟩, accepted', fun keeps => ?_⟩
  · have form := ((reformat_keeps_form Checker.grammar_decides accepted
      (by decide +kernel)).2.2 regular).1 keeps
    exact absurd form (by decide +kernel)
  · have form := ((reformat_keeps_form Checker.grammar_decides accepted'
      (by decide +kernel)).2.2 regular').1 keeps
    exact absurd form (by decide +kernel)

end SparqlFormat
