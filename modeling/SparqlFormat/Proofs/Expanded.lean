import SparqlFormat.Proofs.Expansion
import SparqlFormat.Proofs.Shape

/-!
# Tokens with their code point escapes replaced

Only strings, identifiers and comments can hold a code point escape: numbers, tags, names and
words have no backslash in them but those of a local name, and no such backslash stands before
the letter of a code point escape.

`Token.expand?` replaces the escapes inside one token. A row of token texts with gaps that part
them is expanded token by token (`expansion_weave`).
-/

namespace SparqlFormat

open Lexeme Layout Grammar

/-! ## Names hold no code point escape -/

section Names

lemma plain_of_class {p : Char → Bool} (without : p '\\' = false) {u : List Char}
    (all : ∀ c ∈ u, p c = true) : Plain u := by
  refine plain_of_notMem fun mem => ?_
  rw [all _ mem] at without
  contradiction

/-- A backslash in a local name stands before one of the characters it admits. -/
lemma plain_localTail (cs : List Char) : Plain (localTail cs) := by
  have letters : '\\' ∉ localEscapes ∧ 'u' ∉ localEscapes ∧ 'U' ∉ localEscapes := by decide
  fun_induction localTail cs with
  | case2 h l cs digits ih =>
    have other : ∀ c, isHex c = true → c ≠ '\\' := by
      rintro c digit rfl
      exact absurd digit (by decide)
    simp only [Bool.and_eq_true] at digits
    exact ((ih.cons (other l digits.2)).cons (other h digits.1)).cons (by decide)
  | case4 e cs admitted ih =>
    have mem : e ∈ localEscapes := by simpa using admitted
    exact ih.escape (ne_of_mem_of_not_mem mem letters.1)
      ⟨ne_of_mem_of_not_mem mem letters.2.1, ne_of_mem_of_not_mem mem letters.2.2⟩
  | case6 c cs _ _ tail ih =>
    refine ih.cons ?_
    rintro rfl
    exact absurd tail (by decide)
  | case8 c cs _ _ _ point _ ih =>
    refine ih.cons ?_
    rintro rfl
    exact absurd point (by decide)
  | _ => exact plain_nil

lemma plain_localName (cs : List Char) : Plain (localName cs) := by
  fun_cases localName cs with
  | case1 => exact plain_nil
  | case2 => exact plain_localTail _
  | case3 => exact plain_localTail _
  | case4 c cs _ _ start =>
    refine (plain_localTail cs).cons ?_
    rintro rfl
    exact absurd start (by decide)
  | case5 => exact plain_nil

end Names

/-! ## Texts of tokens -/

/-- Whether a token may hold a code point escape. -/
def Token.mayHoldEscape : Token → Bool
  | .comment _ => true
  | .string _ => true
  | .iri _ => true
  | _ => false

section Text

variable {pointFirst : Bool} {t : Token} {s : List Char}

lemma Spells.plain_text (h : Spells pointFirst t s) (none : t.mayHoldEscape = false) :
    Plain t.text := by
  cases h with
  | mark m => cases m <;> exact plain_of_notMem (by decide)
  | emptyParens => exact plain_of_notMem (by decide)
  | emptyBrackets => exact plain_of_notMem (by decide)
  | comment => contradiction
  | number hnumber => exact plain_of_class (by decide) (number?_chars hnumber)
  | language htag => exact (plain_of_class (by decide) (languageTag?_chars htag)).cons (by decide)
  | var _ hname =>
    exact (plain_of_class (by decide) (variableName?_chars hname)).cons (by decide)
  | string => contradiction
  | blankNode hlabel =>
    exact ((plain_of_class (by decide) (label?_chars hlabel)).cons (by decide)).cons (by decide)
  | prefixed hname =>
    obtain ⟨run, rest, -, all, -, rfl⟩ := prefixedName?_eq_some.1 hname
    refine ((plain_localName rest).cons (by decide)).append fun c mem => ?_
    rintro rfl
    exact absurd (all _ mem) (by decide)
  | word hw ht =>
    have ofWord : ∀ {w : List Char}, word? w = some w → Plain w := fun hw =>
      plain_of_class (by decide) (word?_chars hw).2
    rcases ofWord_eq_ok ht with ⟨rfl, mem⟩ | ⟨-, rfl⟩ | ⟨rfl, mem⟩
    · obtain ⟨spelled, -, notType⟩ := keywords_spelled _ mem
      simpa only [Token.text, notType, Bool.false_eq_true, if_false] using ofWord spelled
    · exact plain_of_notMem (by decide)
    · exact ofWord (booleanWords_spelled _ mem).1
  | iri => contradiction

lemma Spells.of_string {source : List Char} (h : Spells pointFirst (.string source) s) :
    ∃ quote, isQuote quote = true ∧ string? quote source = some source := by
  cases h with
  | string isMark hsource => exact ⟨_, isMark, hsource⟩
  | word hw ht => nomatch isVerbal_of_ofWord ht

end Text

/-! ## A token expanded -/

/-- A token with the escapes inside it replaced. There is none if an escape denotes no character,
or if it ends the line of a comment. -/
def Token.expand? : Token → Option Token
  | .string source => (expandCodePoints source).map .string
  | .iri body => (expandCodePoints body).map .iri
  | .comment body =>
    (expandCodePoints body).bind fun body =>
      if body.any isLineBreak then none else some (.comment (trim body))
  | t => some t

section Expand

variable {t t' : Token} {s s' : List Char}

lemma expand?_shape (h : t.expand? = some t') : t'.shape = t.shape := by
  cases t <;> simp only [Token.expand?, Option.map_eq_some_iff, Option.bind_eq_some_iff,
    Option.ite_none_left_eq_some, Option.some.injEq] at h
  case comment =>
    obtain ⟨body, -, -, rfl⟩ := h
    rfl
  case string =>
    obtain ⟨source, -, rfl⟩ := h
    rfl
  case iri =>
    obtain ⟨body, -, rfl⟩ := h
    rfl
  all_goals rw [h]

/-- The text of a token is expanded to a text of the token expanded. -/
lemma expansion_text (spelled : Spells false t s) (h : t.expand? = some t')
    (spelled' : Spells true t' s') : ∃ x, Expansion t.text x ∧ Spells true t' x := by
  by_cases holds : t.mayHoldEscape = true
  · cases t with
    | comment body =>
      simp only [Token.expand?, Option.bind_eq_some_iff, Option.ite_none_left_eq_some,
        Option.some.injEq] at h
      obtain ⟨ds, expanded, noBreak, rfl⟩ := h
      have noBreak : ∀ c ∈ ds, isLineBreak c = false := by simpa using noBreak
      cases body with
      | nil =>
        obtain rfl : [] = ds := Option.some.inj expanded
        exact ⟨['#'], .keep (fun h => absurd h (by decide)) .nil, .comment noBreak⟩
      | cons c body =>
        have body := expansion_iff.2 expanded
        refine ⟨'#' :: ' ' :: ds, .keep (fun h => absurd h (by decide))
          (.keep (fun h => absurd h (by decide)) body), ?_⟩
        rw [← trim_cons (show isWhiteSpace ' ' = true by decide)]
        exact .comment (List.forall_mem_cons.2 ⟨by decide, noBreak⟩)
    | string source =>
      obtain ⟨ds, expanded, rfl⟩ := Option.map_eq_some_iff.1 h
      exact ⟨ds, expansion_iff.2 expanded, spelled'.text⟩
    | iri body =>
      obtain ⟨ds, expanded, rfl⟩ := Option.map_eq_some_iff.1 h
      have closing : Expansion ['>'] ['>'] := .keep (by decide) .nil
      have body := (expansion_iff.2 expanded).append (firm_of_head body (by decide)) closing
      exact ⟨_, .keep (fun h => absurd h (by decide)) body, spelled'.text⟩
    | _ => contradiction
  · have holds : t.mayHoldEscape = false := by simpa using holds
    obtain rfl : t = t' := by
      cases t <;> first | contradiction | simpa [Token.expand?] using h
    exact ⟨t.text, (spelled.plain_text holds).escapeFree.expansion, spelled'.text⟩

/-- The one-line text of a token is expanded to a text of a token like the token expanded: only
line breaks of a string are written otherwise. -/
lemma expansion_conciseText (spelled : Spells false t s) (h : t.expand? = some t')
    (spelled' : Spells true t' s') :
    ∃ x u, Expansion (conciseText t) x ∧ Spells true u x ∧ u.shape = t'.shape ∧
      (isEscaped t' = false → isEscaped u = false) := by
  cases t with
  | string source =>
    obtain ⟨ds, expanded, rfl⟩ := Option.map_eq_some_iff.1 h
    obtain ⟨es, expanded', escaped⟩ := (expansion_iff.2 expanded).escapeLineBreaks
    obtain ⟨quote, isMark, hsource⟩ := spelled'.of_string
    have reread := string?_reread (k := []) isMark hsource escaped (by simp)
    exact ⟨es, .string es, expanded', .string isMark (by simpa using reread), rfl,
      holdsCodePointEscape_of_escapesBreaks escaped⟩
  | _ =>
    obtain ⟨x, expanded, spelledText⟩ := expansion_text spelled h spelled'
    exact ⟨x, t', expanded, spelledText, rfl, id⟩

/-- No escape begins in the text of a token other than a comment and ends behind it. -/
lemma firm_text (spelled : Spells false t s) (notComment : t.isComment = false) (k : List Char) :
    Firm t.text k := by
  by_cases holds : t.mayHoldEscape = true
  · cases t with
    | comment body => contradiction
    | string source =>
      obtain ⟨quote, isMark, hsource⟩ := spelled.of_string
      obtain ⟨inner, rfl⟩ := string?_last isMark hsource
      exact firm_of_last (isCodePointChar_of_isQuote isMark) (ne_backslash_of_isQuote isMark) k
    | iri body => exact firm_of_last (u := '<' :: body) (z := '>') (by decide) (by decide) k
    | _ => contradiction
  · exact (spelled.plain_text (by simpa using holds)).firm k

lemma firm_conciseText (spelled : Spells false t s) (notComment : t.isComment = false)
    (k : List Char) : Firm (conciseText t) k := by
  cases t with
  | string source =>
    obtain ⟨quote, isMark, hsource⟩ := spelled.of_string
    obtain ⟨inner, rfl⟩ := string?_last isMark hsource
    have last : conciseText (.string (inner ++ [quote])) = escapeLineBreaks inner ++ [quote] := by
      rw [conciseText, escapeLineBreaks, List.flatMap_append, ← escapeLineBreaks]
      have kept := escapeLineBreaks_cons (isLineBreak_of_isQuote isMark) []
      simpa [escapeLineBreaks] using kept
    rw [last]
    exact firm_of_last (isCodePointChar_of_isQuote isMark) (ne_backslash_of_isQuote isMark) k
  | _ => exact firm_text spelled notComment k

end Expand

/-! ## A row expanded -/

section Row

variable {indent : List Char}

lemma plain_render (blank : ∀ c ∈ indent, isBlank c = true) (g : Gap) :
    Plain (g.render indent) :=
  plain_of_class (by decide) (render_blank blank g)

/-- A token whose text `source` is expanded to `target`, which is read as `reading`. No escape
begins in the text and ends behind it, unless the line does. -/
structure Piece where
  token : Token
  source : List Char
  target : List Char
  reading : Token
  expanded : Expansion source target
  firm : token.isComment = false → ∀ k, Firm source k
  spelled : Spells true reading target
  alike : reading.shape = token.shape

/-- Token texts with gaps that part them are expanded one by one. -/
lemma expansion_weave (blank : ∀ c ∈ indent, isBlank c = true) {row : List Piece}
    {gs : List Gap} (parted : Parted (row.map Piece.token) gs) :
    Expansion (weave indent (row.map Piece.source) gs)
      (weave indent (row.map Piece.target) gs) := by
  induction row generalizing gs with
  | nil => simpa using Expansion.nil
  | cons p row ih =>
    cases row with
    | nil => simpa using p.expanded
    | cons p' row =>
      simp only [List.map_cons] at parted ih ⊢
      cases parted with
      | @cons _ _ _ g gs parts parted =>
        rw [weave, weave, if_neg (by simp), if_neg (by simp), List.append_assoc,
          List.append_assoc]
        have gap := plain_render blank g
        refine p.expanded.append ?_ (gap.escapeFree.expansion.append (gap.firm _) (ih parted))
        by_cases isComment : p.token.isComment = true
        · obtain ⟨level, rfl⟩ := parts.endsComment isComment
          exact firm_of_head _ (by decide)
        · exact p.firm (by simpa using isComment) _

/-- Token texts with gaps that part them are expanded to a text that is cut into the readings of
the texts expanded. -/
theorem reads_expanded (blank : ∀ c ∈ indent, isBlank c = true) {row : List Piece}
    {gs : List Gap} (parted : Parted (row.map Piece.token) gs)
    (apart : MergeFree (row.map Piece.token)) :
    ∃ expanded, expandCodePoints (weave indent (row.map Piece.source) gs) = some expanded ∧
      Reads ⟨true, true⟩ expanded (closeEmptyBrackets (row.map Piece.reading)) := by
  refine ⟨_, expansion_iff.1 (expansion_weave blank parted), ?_⟩
  have alike : (row.map Piece.reading).map Token.shape =
      (row.map Piece.token).map Token.shape := by
    simp [List.map_map, Function.comp_def, Piece.alike]
  have readings : (row.map fun p => (p.reading, p.target)).map Prod.fst =
      row.map Piece.reading := by
    simp [List.map_map, Function.comp_def]
  have targets : (row.map fun p => (p.reading, p.target)).map Prod.snd =
      row.map Piece.target := by
    simp [List.map_map, Function.comp_def]
  have spelled : ∀ r ∈ row.map fun p => (p.reading, p.target), Spells true r.1 r.2 := by
    simp only [List.forall_mem_map]
    exact fun p _ => p.spelled
  have parted' : Parted ((row.map fun p => (p.reading, p.target)).map Prod.fst) gs := by
    rw [readings]
    exact parted.of_shape alike
  have read := reads_weave blank spelled parted' (by
    rw [readings]
    exact apart.of_shape alike)
  rwa [readings, targets] at read

/-- Each token of a row is expanded to the one in its place. -/
def ExpandsTo (ts us : List Token) : Prop :=
  List.Forall₂ (fun t u => t.expand? = some u) ts us

lemma mapM_expand?_iff {ts us : List Token} :
    ts.mapM Token.expand? = some us ↔ ExpandsTo ts us := by
  unfold ExpandsTo
  induction ts generalizing us with
  | nil => simp [eq_comm]
  | cons t ts ih =>
    rw [List.mapM_cons]
    simp only [Option.pure_def, Option.bind_eq_bind, Option.bind_eq_some_iff, Option.some.injEq,
      List.forall₂_cons_left_iff]
    constructor
    · rintro ⟨u, hu, vs, hvs, rfl⟩
      exact ⟨u, vs, hu, ih.1 hvs, rfl⟩
    · rintro ⟨u, vs, hu, hvs, rfl⟩
      exact ⟨u, hu, vs, ih.2 hvs, rfl⟩

namespace ExpandsTo

variable {ts us : List Token}

lemma map_shape (h : ExpandsTo ts us) : us.map Token.shape = ts.map Token.shape := by
  induction h with
  | nil => rfl
  | cons first _ ih => rw [List.map_cons, List.map_cons, expand?_shape first, ih]

lemma source_of_mem (h : ExpandsTo ts us) {u : Token} (mem : u ∈ us) :
    ∃ t ∈ ts, t.expand? = some u := by
  induction h with
  | nil => contradiction
  | @cons t v ts us first rest ih =>
    rcases List.mem_cons.1 mem with rfl | mem
    · exact ⟨t, List.mem_cons_self, first⟩
    · obtain ⟨source, hsource, expanded⟩ := ih mem
      exact ⟨source, List.mem_cons_of_mem t hsource, expanded⟩

lemma withoutComments (h : ExpandsTo ts us) :
    ExpandsTo (withoutComments ts) (withoutComments us) := by
  induction h with
  | nil => exact .nil
  | @cons t u ts us first rest ih =>
    have same : u.isComment = t.isComment := by
      rw [← isComment_shape, expand?_shape first, isComment_shape]
    simp only [SparqlFormat.withoutComments, List.filter_cons, same]
    cases t.isComment with
    | true => exact ih
    | false => exact .cons first ih

/-- A row is made of pieces that are read as its tokens expanded. -/
lemma pieces (h : ExpandsTo ts us) (spelled : ∀ t ∈ ts, ∃ s, Spells false t s)
    (spelled' : ∀ u ∈ us, ∃ s, Spells true u s) :
    ∃ row : List Piece, row.map Piece.token = ts ∧ row.map Piece.source = ts.map Token.text ∧
      row.map Piece.reading = us := by
  induction h with
  | nil => exact ⟨[], rfl, rfl, rfl⟩
  | @cons t u ts us first rest ih =>
    obtain ⟨⟨s, hs⟩, spelled⟩ := List.forall_mem_cons.1 spelled
    obtain ⟨⟨s', hs'⟩, spelled'⟩ := List.forall_mem_cons.1 spelled'
    obtain ⟨row, htokens, hsources, hreadings⟩ := ih spelled spelled'
    obtain ⟨x, expanded, read⟩ := expansion_text hs first hs'
    let piece : Piece := ⟨t, t.text, x, u, expanded, firm_text hs, read, expand?_shape first⟩
    exact ⟨piece :: row, by simp [piece, htokens], by simp [piece, hsources],
      by simp [piece, hreadings]⟩

/-- On one line, a row is made of pieces that are read like its tokens expanded. -/
lemma concisePieces (h : ExpandsTo ts us) (spelled : ∀ t ∈ ts, ∃ s, Spells false t s)
    (spelled' : ∀ u ∈ us, ∃ s, Spells true u s) :
    ∃ row : List Piece, row.map Piece.token = ts ∧ row.map Piece.source = ts.map conciseText ∧
      (us.any isEscaped = false → (row.map Piece.reading).any isEscaped = false) := by
  induction h with
  | nil => exact ⟨[], rfl, rfl, fun h => h⟩
  | @cons t u ts us first rest ih =>
    obtain ⟨⟨s, hs⟩, spelled⟩ := List.forall_mem_cons.1 spelled
    obtain ⟨⟨s', hs'⟩, spelled'⟩ := List.forall_mem_cons.1 spelled'
    obtain ⟨row, htokens, hsources, hescaped⟩ := ih spelled spelled'
    obtain ⟨x, v, expanded, read, alike, escaped⟩ := expansion_conciseText hs first hs'
    let piece : Piece := ⟨t, conciseText t, x, v, expanded, firm_conciseText hs, read,
      alike.trans (expand?_shape first)⟩
    refine ⟨piece :: row, by simp [piece, htokens], by simp [piece, hsources], fun none => ?_⟩
    rw [List.any_cons, Bool.or_eq_false_iff] at none
    rw [List.map_cons, List.any_cons, escaped none.1, hescaped none.2, Bool.or_false]

end ExpandsTo

end Row

end SparqlFormat
