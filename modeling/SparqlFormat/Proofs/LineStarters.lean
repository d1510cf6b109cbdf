import SparqlFormat.Proofs.Balance
import SparqlFormat.Proofs.Places

/-!
# Words that start a line

In the many-line layout a word like `SELECT` or `FROM` starts a line, and it is the token in front
of it that breaks it: its rule looks ahead to the word. The level is the one that this token is set
at. It is that of the word too, unless the token is a parenthesis, which is counted only after its
rule has been applied, while a closing brace is counted before. A negation touches whatever follows
and breaks no line (`startsLine_lineStarter`).

`lineStartersStand` holds of every row. In a row of the language neither a negation nor an opening
parenthesis stands in front of such a word, and a closing parenthesis only in front of `FROM`,
which is then indented one level too deep: the grammar has no such neighbours, by the analysis of
seams (`isChain_of_layoutForm?`).
-/

namespace SparqlFormat.Layout

section Rules

variable (n : Nesting) {w : Token} (starts : w.isWord lineStarters = true)

include starts

lemma isWord_eq_false {ws : List (List Char)}
    (disjoint : ws.all (fun v => !lineStarters.contains v) = true) : w.isWord ws = false := by
  cases w with
  | keyword word =>
    rw [← Bool.not_eq_true]
    intro mem
    have apart := List.all_eq_true.1 disjoint word (List.contains_iff_mem.1 mem)
    simp only [Token.isWord] at starts
    rw [starts] at apart
    contradiction
  | _ => rfl

lemma isMark_eq_false (m : Mark) : w.isMark m = false := by
  cases w with
  | keyword word => rfl
  | _ => simp [Token.isWord] at starts

/-- The words do not ask for a line: it is the token before that breaks it. -/
lemma leading_lineStarter (next : Option Token) : (spacing n w next).leading = none := by
  have notWord : ∀ ws, ws.all (fun v => !lineStarters.contains v) = true → w.isWord ws = false :=
    fun _ => isWord_eq_false starts
  have isComment : w.isComment = false := by
    cases w with
    | keyword word => rfl
    | _ => simp [Token.isWord] at starts
  rw [spacing]
  simp only [isComment, isMark_eq_false starts, notWord blockWords (by decide),
    notWord modifiers (by decide), notWord callWords (by decide),
    notWord (words ["VALUES"]) (by decide), Bool.false_and, Bool.false_eq_true, if_false]
  split_ifs <;> rfl

/-- In front of such a word every token but a negation breaks the line, at the level it was set
at; an opening brace, one level deeper. -/
lemma after_of_lineStarter {t : Token} (notBang : t ≠ .mark .bang) :
    (spacing n t (some w)).after =
      .line (if t = .mark .openBrace then n.level + 1 else n.level) := by
  have nextMark : ∀ m, isNextMark m (some w) = false := isMark_eq_false starts
  have nextContinues : isNextWord continuations (some w) = false :=
    isWord_eq_false starts (by decide)
  have nextStarts : isNextWord lineStarters (some w) = true := starts
  have notBang : t.isMark .bang = false := by
    rwa [← Bool.not_eq_true, Token.isMark_iff]
  by_cases opens : t = .mark .openBrace
  · subst opens
    rfl
  · have notOpen : t.isMark .openBrace = false := by
      rwa [← Bool.not_eq_true, Token.isMark_iff]
    rw [if_neg opens, spacing]
    simp only [nextMark, nextContinues, nextStarts, notBang, notOpen, Bool.and_false,
      Bool.false_eq_true, if_false, if_true]
    split_ifs <;> rfl

end Rules

/-! ## Line starters in a row -/

/-- The level that a token is set at: its braces are counted, but for an opening one, and its
parentheses are not. -/
lemma level_enter (before : List Token) (t : Token) :
    (if t = .mark .openBrace then ((nestingAfter before).enter t).level + 1
        else ((nestingAfter before).enter t).level) =
      openCount (before ++ [t]) - openParens [t] := by
  have own : openCount [t] - openParens [t] = openBraces [t] := by
    rw [openCount, Int.add_sub_cancel]
  rw [openCount_append, Int.add_sub_assoc, own]
  cases t with
  | mark m =>
    cases m with
    | closeBrace =>
      have closes : openBraces [.mark .closeBrace] = -1 := rfl
      simp only [closes, reduceCtorEq, if_false, Token.mark.injEq, Nesting.enter, Nesting.level,
        nestingAfter, openCount]
      omega
    | _ => simp [Nesting.enter, Nesting.level, nestingAfter, openCount, openBraces]
  | _ => simp [Nesting.enter, openCount, openBraces]

section Row

variable {w : Token} (starts : w.isWord lineStarters = true)

include starts

lemma staysJoined_lineStarter (left : List Char) : staysJoined left w.text = false := by
  cases w with
  | keyword word =>
    have apart : lineStarters.all (fun v =>
        !(words ["OPTIONAL", "UNION", "EXISTS"]).contains (Token.keyword v).text) = true := by
      decide
    have apart := List.all_eq_true.1 apart word (List.contains_iff_mem.1 starts)
    simp only [words, List.map_cons, List.map_nil, List.contains_cons, List.contains_nil,
      Bool.or_false, Bool.not_eq_true', Bool.or_eq_false_iff] at apart
    obtain ⟨optional, union, exists'⟩ := apart
    simp only [staysJoined, words, List.map_cons, List.map_nil, List.contains_cons,
      List.contains_nil, Bool.or_false, optional, union, exists', Bool.and_false]
  | _ => simp [Token.isWord] at starts

/-- A word of these starts a line behind every token but a negation. The level is read where the
token before it is set, and a parenthesis is counted only after that. -/
lemma startsLine_lineStarter (before : List Token) {t : Token} (notBang : t ≠ .mark .bang)
    (after : List Token) :
    StartsLine defaultIndent (openCount (before ++ [t]) - openParens [t])
      (textAhead defaultIndent (before ++ [t] ++ w :: after) (before ++ [t]).length) := by
  obtain ⟨found, gap, -⟩ := exists_wideGap before t w after
  rw [prettyGap_of_after found (staysJoined_lineStarter starts _)
    (after_of_lineStarter _ starts notBang) (leading_lineStarter _ starts _)] at gap
  rw [← level_enter]
  exact startsLine_of_gap defaultIndent gap

end Row

/-- How the words that start lines stand in the many-line layout of a row. -/
structure LineStartersStand (ts : List Token) : Prop where
  /-- Such a word starts a line, indented by the brackets open in front of it, unless a negation or
  a parenthesis stands there. -/
  starting : ∀ before w after, ts = before ++ w :: after → w.isWord lineStarters = true →
    (∀ t ∈ before.getLast?, t ∉ [.mark .bang, .mark .openParen, .mark .closeParen]) →
      StartsLine defaultIndent (openCount before) (textAhead defaultIndent ts before.length)
  /-- Behind a parenthesis the level is one that does not count it. -/
  lagging : ∀ before w after, ts = before ++ w :: after → w.isWord lineStarters = true →
    ∀ t ∈ before.getLast?, t ∈ [.mark .openParen, .mark .closeParen] →
      StartsLine defaultIndent (openCount before - openParens [t])
        (textAhead defaultIndent ts before.length)

/-- The words of every row stand like this. -/
theorem lineStartersStand (ts : List Token) : LineStartersStand ts where
  starting := by
    rintro before w after rfl starts apart
    rcases List.eq_nil_or_concat before with rfl | ⟨before, t, rfl⟩
    · exact startsLine_first defaultIndent _ rfl
    · simp only [List.concat_eq_append, List.getLast?_append, List.getLast?_singleton,
        Option.some_or, Option.mem_some_iff, forall_eq', List.mem_cons, List.not_mem_nil,
        or_false, not_or] at apart ⊢
      obtain ⟨notBang, notOpen, notClose⟩ := apart
      have starts := startsLine_lineStarter starts before notBang after
      have uncounted : openParens [t] = 0 := by
        simp [openParens, notOpen, notClose]
      rwa [uncounted, Int.sub_zero] at starts
  lagging := by
    rintro before w after rfl starts t last paren
    obtain ⟨before, rfl⟩ := List.getLast?_eq_some_iff.1 last
    have notBang : t ≠ .mark .bang := by
      rintro rfl
      revert paren
      decide
    exact startsLine_lineStarter starts before notBang after

end SparqlFormat.Layout

namespace SparqlFormat.Grammar

open Layout

/-! ## What the grammar puts in front of a line starter -/

/-- The neighbours that would set a line starter at another level than its own: a negation or an
opening parenthesis in front of it, and a closing one, which does stand in front of `FROM`. -/
inductive Misplaced
  | opening
  | closing
  deriving DecidableEq

namespace Misplaced

/-- The tokens in front. -/
def before : Misplaced → Token → Bool
  | opening, t => t.isMark .bang || t.isMark .openParen
  | closing, t => t.isMark .closeParen || t.isMark .emptyParens

/-- The words behind. -/
def after : Misplaced → Token → Bool
  | opening, t => t.isWord lineStarters
  | closing, t => t.isWord (lineStarters.erase "FROM".toList)

/-- The nonterminals that may start with such a word. -/
def mayStart (m : Misplaced) : Nonterminal → Bool
  | .query | .update | .prologue | .selectQuery | .subSelect | .selectClause | .constructQuery
  | .describeQuery | .askQuery | .updateOperation | .load | .clear | .create | .transfer
  | .insertOperation | .deleteOperation | .withOperation => true
  | .datasetClause => m == opening
  | _ => false

/-- The nonterminals that may end with a token in front. -/
def mayEnd (m : Misplaced) : Nonterminal → Bool
  | .prologue | .quadBlock => false
  | _ => m == closing

/-- The seam of such neighbours. -/
def seam (m : Misplaced) : Seam Nonterminal Terminal where
  left x := m.before x.sample
  right x := m.after x.sample
  vanishes := mayVanish
  starts := m.mayStart
  ends := m.mayEnd

end Misplaced

lemma misplaced_closed (m : Misplaced) : ∀ n, m.seam.closed n (production n) = true :=
  forall_nonterminal (by cases m <;> decide +kernel)

lemma isChain_of_derives (m : Misplaced) {n : Nonterminal} {row : List Token}
    (h : Derives sparql (.call n) row) :
    row.IsChain fun left right => (m.before left && m.after right) = false := by
  have covered : ∀ x t, sparql.covers x t = true →
      (m.before t = true → m.seam.left x = true) ∧
        (m.after t = true → m.seam.right x = true) := by
    intro x t covers
    obtain ⟨isMark, isWord, -, -⟩ := sample_alike covers
    cases m <;> simp [Misplaced.seam, Misplaced.before, Misplaced.after, isMark, isWord]
  exact (h.seamless covered (misplaced_closed m) rfl).apart

/-- Neighbours in front of a word are neighbours once the empty brackets are closed; an empty pair
of parentheses counts as a closing one. -/
lemma isChain_of_closeEmptyBrackets (m : Misplaced) {ts : List Token}
    (h : (closeEmptyBrackets ts).IsChain fun left right =>
      (m.before left && m.after right) = false) :
    ts.IsChain fun left right => (m.before left && m.after right) = false := by
  have onMarks : ∀ mark : Mark, m.after (.mark mark) = false := by
    cases m <;> exact fun _ => rfl
  -- closing the empty brackets behind a token does not take a word from it
  have next : ∀ (ts : List Token), ∀ u ∈ ts.head?, m.after u = true →
      u ∈ (closeEmptyBrackets ts).head? := by
    intro ts u head isAfter
    induction ts using hollowInduction with
    | nil => contradiction
    | singleton t => simpa using head
    | full left right ts full ih => simpa [closeEmptyBrackets_of_full full] using head
    | parens ts ih =>
      obtain rfl : u = .mark .openParen := by simpa using head.symm
      simp [onMarks] at isAfter
    | brackets ts ih =>
      obtain rfl : u = .mark .openBracket := by simpa using head.symm
      simp [onMarks] at isAfter
  induction ts using hollowInduction with
  | nil => exact .nil
  | singleton t => exact .singleton t
  | full left right ts full ih =>
    rw [closeEmptyBrackets_of_full full, List.isChain_cons] at h
    refine List.isChain_cons.2 ⟨fun u head => ?_, ih h.2⟩
    cases isAfter : m.after u with
    | false => simp
    | true => exact isAfter ▸ h.1 u (next _ u head isAfter)
  | parens ts ih =>
    rw [closeEmptyBrackets_parens, List.isChain_cons] at h
    refine List.isChain_cons.2 ⟨by simp [onMarks], List.isChain_cons.2 ⟨fun u head => ?_, ih h.2⟩⟩
    cases isAfter : m.after u with
    | false => simp
    | true =>
      have none := h.1 u (next _ u head isAfter)
      cases m <;> simp_all [Misplaced.before, Token.isMark]
  | brackets ts ih =>
    rw [closeEmptyBrackets_brackets, List.isChain_cons] at h
    have closing : m.before (.mark .closeBracket) = false := by
      cases m <;> rfl
    exact List.isChain_cons.2 ⟨by simp [onMarks],
      List.isChain_cons.2 ⟨by simp [closing], ih h.2⟩⟩

end SparqlFormat.Grammar

namespace SparqlFormat

open Lexeme Layout Grammar

/-! ## Line starters of a text -/

/-- Words in a text whose layout is made of a row of the language are not misplaced. -/
lemma isChain_of_layoutForm? (m : Misplaced) {text : List Char} {form : Form} {ts : List Token}
    (accepted : layoutForm? text = some form) (read : Reads ⟨true, false⟩ text ts) :
    ts.IsChain fun left right => (m.before left && m.after right) = false := by
  obtain ⟨row, laidOut, acceptedRow⟩ := Option.bind_eq_some_iff.1 accepted
  obtain ⟨us, read', expands⟩ := layoutTokens?_eq_some.1 laidOut
  obtain rfl : us = ts := read'.unique read
  obtain ⟨n, derived⟩ := derives_of_formOfTokens? acceptedRow
  have visible := isChain_of_closeEmptyBrackets m (isChain_of_derives m derived)
  refine isChain_of_shape (fun left right => ?_) expands.map_shape.symm
    (isChain_of_withoutComments (fun left right isComment => ?_) visible)
  · cases m <;> simp [Misplaced.before, Misplaced.after]
  · rcases isComment with h | h <;> obtain ⟨body, rfl⟩ := (Token.isComment_iff _).1 h <;>
      cases m <;> simp [Misplaced.before, Misplaced.after, Token.isMark, Token.isWord]

/-- The one word that starts a line and is not misplaced behind a closing parenthesis. -/
lemma eq_from {w : Token} (starts : w.isWord lineStarters = true)
    (apart : Misplaced.closing.after w = false) : w = .keyword "FROM".toList := by
  cases w with
  | keyword word =>
    by_contra other
    have other : word ≠ "FROM".toList := fun same => other (same ▸ rfl)
    have mem : word ∈ lineStarters.erase "FROM".toList :=
      (List.mem_erase_of_ne other).2 (List.contains_iff_mem.1 starts)
    simp only [Misplaced.after, Token.isWord, List.contains_iff_mem.2 mem] at apart
    contradiction
  | _ => simp [Token.isWord] at starts

/-- In the many-line layout of a text, checked or not, each word that starts a line is the first
token of its line, indented by the braces and parentheses open in front of it, unless a negation or
a parenthesis stands there. If the tokens laid out are a query or an update, none does but for a
closing parenthesis in front of `FROM`, which is indented one level too deep; and the brackets
counted are those that are open. -/
theorem reformat_lineStarters {checker? : Option Checker} {text out : List Char}
    (laidOut : reformat checker? .pretty text = .ok out) :
    ∃ ts, Reads ⟨true, false⟩ text ts ∧
      (∀ before t after, ts = before ++ t :: after →
        out = textAhead defaultIndent ts before.length ++
          (t.text ++ textBehind defaultIndent ts before.length)) ∧
      LineStartersStand ts ∧
      ∀ form, layoutForm? text = some form →
        (∀ before t w after, ts = before ++ t :: w :: after → w.isWord lineStarters = true →
          t ≠ .mark .bang ∧ t ≠ .mark .openParen ∧
            (t = .mark .closeParen → w = .keyword "FROM".toList)) ∧
        ∀ before after, ts = before ++ after →
          ∃ opened, openFrom [] before = some opened ∧ openCount before = opened.length := by
  obtain ⟨ts, read, rfl⟩ := pretty_of_reformat laidOut
  refine ⟨ts, read, ?_, lineStartersStand ts, fun form accepted => ⟨?_, ?_⟩⟩
  · rintro before t after rfl
    exact pretty_eq_around defaultIndent before t after
  · rintro before t w after rfl starts
    have apart : ∀ m : Misplaced, (m.before t && m.after w) = false := by
      intro m
      have chain := isChain_of_layoutForm? m accepted read
      exact (List.isChain_cons.1 (List.isChain_append.1 chain).2.1).1 w rfl
    refine ⟨?_, ?_, ?_⟩
    · rintro rfl
      simpa [Misplaced.before, Misplaced.after, Token.isMark, starts] using apart .opening
    · rintro rfl
      simpa [Misplaced.before, Misplaced.after, Token.isMark, starts] using apart .opening
    · rintro rfl
      exact eq_from starts (apart .closing)
  · rintro before after rfl
    have nested := nested_of_layoutForm? accepted read
    rw [Nested, openFrom_append, Option.bind_eq_some_iff] at nested
    obtain ⟨opened, opens, -⟩ := nested
    refine ⟨opened, opens, ?_⟩
    simpa using (length_of_openFrom opens).symm

/-- A query with a graph of its own and a query in the parentheses of a filter. -/
def queryInFilter : List Char :=
  "ASK FROM<g>\x7bFILTER(EXISTS\x7bSELECT ?s\x7b?s ?p ?o\x7d\x7d)\x7d".toList

/-- Its tokens. -/
def queryInFilterRow : List Token :=
  [.keyword "ASK".toList, .keyword "FROM".toList, .iri ['g'], .mark .openBrace,
    .keyword "FILTER".toList, .mark .openParen, .keyword "EXISTS".toList, .mark .openBrace,
    .keyword "SELECT".toList, .var ['s'], .mark .openBrace, .var ['s'], .var ['p'], .var ['o'],
    .mark .closeBrace, .mark .closeBrace, .mark .closeParen, .mark .closeBrace]

/-- A query whose graph is named right behind a parenthesis. -/
def graphBehindParen : List Char :=
  "SELECT (1 AS ?x) FROM <g> WHERE \x7b ?s ?p ?o \x7d".toList

/-- Its tokens. -/
def graphBehindParenRow : List Token :=
  [.keyword "SELECT".toList, .mark .openParen, .number .integer ['1'], .keyword "AS".toList,
    .var ['x'], .mark .closeParen, .keyword "FROM".toList, .iri ['g'], .keyword "WHERE".toList,
    .mark .openBrace, .var ['s'], .var ['p'], .var ['o'], .mark .closeBrace]

/-- In the first query the inner `SELECT` starts a line three levels deep, and `FROM` one at the
margin. In the second `FROM` starts a line one level deep, though nothing is open there. -/
theorem reformat_lineStarters_graphBehindParen :
    (reformat (some .grammar) .pretty queryInFilter = .ok
        ("ASK\nFROM <g> \x7b\n    FILTER(\n        EXISTS \x7b\n".toList ++
          "            SELECT ?s\n            \x7b\n                ?s ?p ?o\n".toList ++
          "            \x7d\n        \x7d\n        )\n\x7d".toList) ∧
        StartsLine defaultIndent 3 (textAhead defaultIndent queryInFilterRow 8) ∧
        StartsLine defaultIndent 0 (textAhead defaultIndent queryInFilterRow 1) ∧
        ∃ opened, openFrom [] (queryInFilterRow.take 8) = some opened ∧
          opened.length = 3) ∧
      (reformat (some .grammar) .pretty graphBehindParen = .ok
          "SELECT (1 AS ?x)\n    FROM <g>\nWHERE \x7b\n    ?s ?p ?o\n\x7d".toList ∧
        layoutForm? graphBehindParen = some .query ∧
        openCount (graphBehindParenRow.take 6) = 0 ∧
        StartsLine defaultIndent 1 (textAhead defaultIndent graphBehindParenRow 6) ∧
        ¬ StartsLine defaultIndent 0 (textAhead defaultIndent graphBehindParenRow 6)) := by
  have laidOut : reformat (some .grammar) .pretty queryInFilter = .ok
      ("ASK\nFROM <g> \x7b\n    FILTER(\n        EXISTS \x7b\n".toList ++
        "            SELECT ?s\n            \x7b\n                ?s ?p ?o\n".toList ++
        "            \x7d\n        \x7d\n        )\n\x7d".toList) := by
    decide +kernel
  have laidOut' : reformat (some .grammar) .pretty graphBehindParen = .ok
      "SELECT (1 AS ?x)\n    FROM <g>\nWHERE \x7b\n    ?s ?p ?o\n\x7d".toList := by
    decide +kernel
  obtain ⟨ts, read, -, stand, ofForm⟩ := reformat_lineStarters laidOut
  obtain ⟨ts', read', -, stand', -⟩ := reformat_lineStarters laidOut'
  have tokens : Reads ⟨true, false⟩ queryInFilter queryInFilterRow :=
    reads_of_tokens (by decide +kernel)
  have tokens' : Reads ⟨true, false⟩ graphBehindParen graphBehindParenRow :=
    reads_of_tokens (by decide +kernel)
  obtain rfl := tokens.unique read
  obtain rfl := tokens'.unique read'
  refine ⟨⟨laidOut, ?_, ?_, ?_⟩, laidOut', by decide +kernel, by decide, ?_, ?_⟩
  · exact stand.starting (queryInFilterRow.take 8) _ (queryInFilterRow.drop 9) rfl (by decide)
      (by decide)
  · exact stand.starting (queryInFilterRow.take 1) _ (queryInFilterRow.drop 2) rfl (by decide)
      (by decide)
  · obtain ⟨opened, opens, count⟩ := (ofForm .query (by decide +kernel)).2
      (queryInFilterRow.take 8) (queryInFilterRow.drop 8) rfl
    have three : openCount (queryInFilterRow.take 8) = 3 := by decide
    exact ⟨opened, opens, by omega⟩
  · exact stand'.lagging (graphBehindParenRow.take 6) _ (graphBehindParenRow.drop 7) rfl
      (by decide) (.mark .closeParen) rfl (by decide)
  · rintro ⟨lines, ends, ahead⟩
    rw [Int.toNat_zero, List.replicate_zero, List.flatten_nil, List.append_nil] at ahead
    subst ahead
    exact absurd ends (by decide +kernel)

end SparqlFormat
