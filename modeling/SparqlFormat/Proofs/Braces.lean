import SparqlFormat.Proofs.Balance
import SparqlFormat.Proofs.Places

/-!
# Braces on many lines

In the many-line layout an opening brace ends its line and a closing brace starts one, indented by
the brackets still open after it. The rules for braces are the first to apply but for one: outside
of all braces a token in front of an opening brace is followed by a space whatever it is, and if
that token closes a brace the rule takes the line from it. This is the one case that is left out
(`BracesStand.closing`), and what is left of it is a space (`BracesStand.between`).

`bracesStand` holds of every row of tokens. A row of the language is nested, and there the closing
brace is indented as far as the line level at which its opening brace was met
(`exists_openBrace`).
-/

namespace SparqlFormat.Layout

/-! ## The rules for braces -/

section Rules

variable (n : Nesting) (next : Option Token) (found : Option Int)

/-- Outside of all braces, what closes one in front of an opening brace gets no line. -/
lemma spacing_closeBrace_between (outside : n.braces = 0)
    (opens : isNextMark .openBrace next = true) :
    spacing n (.mark .closeBrace) next = .inline .space := by
  have notOpen : Token.isMark .openBrace (.mark .closeBrace) = false := rfl
  rw [spacing, if_neg (by simp [Token.isComment]), notOpen, outside, opens]
  rfl

/-- Anywhere else a closing brace starts a line. -/
lemma leading_closeBrace (apart : n.braces ≠ 0 ∨ isNextMark .openBrace next = false) :
    (spacing n (.mark .closeBrace) next).leading = some n.level := by
  have skipped : (n.braces == 0 && isNextMark .openBrace next) = false := by
    rcases apart with inside | other
    · simp [inside]
    · simp [other]
  have isBrace : Token.isMark .closeBrace (.mark .closeBrace) = true := rfl
  have notOpen : Token.isMark .openBrace (.mark .closeBrace) = false := rfl
  rw [spacing, if_neg (by simp [Token.isComment]), notOpen, skipped, isBrace]
  cases isNextWord continuations next <;> rfl

lemma prettyGap_openBrace (right : Placed) :
    ∃ level, prettyGap ⟨.mark .openBrace, spacing n (.mark .openBrace) next⟩ found right =
      .line level := by
  cases leading : right.spacing.leading with
  | some level => exact ⟨level, prettyGap_of_leading found rfl leading⟩
  | none => exact ⟨n.level + 1, prettyGap_of_after found rfl rfl leading⟩

lemma staysJoined_closeBrace (left : List Char) : staysJoined left ['}'] = false := by
  simp [staysJoined, words]

end Rules

/-! ## Braces in a row -/

/-- How the braces of a row stand in its many-line layout. -/
structure BracesStand (ts : List Token) : Prop where
  /-- An opening brace ends its line. -/
  opening : ∀ before after, ts = before ++ .mark .openBrace :: after →
    EndsLine (textBehind defaultIndent ts before.length)
  /-- A closing brace starts a line, indented by the brackets that are open after it, unless it is
  the last open one and stands in front of an opening brace. -/
  closing : ∀ before after, ts = before ++ .mark .closeBrace :: after →
    openBraces (before ++ [.mark .closeBrace]) ≠ 0 ∨
        isNextMark .openBrace after.head? = false →
      StartsLine defaultIndent (openCount (before ++ [.mark .closeBrace]))
        (textAhead defaultIndent ts before.length)
  /-- In that case the two braces are on one line, with a space between them. -/
  between : ∀ before after, ts = before ++ .mark .closeBrace :: .mark .openBrace :: after →
    openBraces (before ++ [.mark .closeBrace]) = 0 →
      ∃ behind, textBehind defaultIndent ts before.length = ' ' :: '{' :: behind

section Row

variable {before after : List Token}

lemma endsLine_openBrace (before after : List Token) :
    EndsLine (textBehind defaultIndent (before ++ .mark .openBrace :: after) before.length) := by
  cases after with
  | nil => exact endsLine_last defaultIndent
  | cons u after =>
    obtain ⟨found, gap, -⟩ := exists_wideGap before (.mark .openBrace) u after
    obtain ⟨level, broken⟩ := prettyGap_openBrace _ _ found _
    exact endsLine_of_gap defaultIndent (broken ▸ gap)

/-- A closing brace is set at the nesting that is left behind it. -/
lemma enter_closeBrace (before : List Token) :
    (nestingAfter before).enter (.mark .closeBrace) =
      nestingAfter (before ++ [.mark .closeBrace]) := by
  rw [← leave_enter_nestingAfter]
  rfl

lemma startsLine_closeBrace
    (apart : openBraces (before ++ [.mark .closeBrace]) ≠ 0 ∨
      isNextMark .openBrace after.head? = false) :
    StartsLine defaultIndent (openCount (before ++ [.mark .closeBrace]))
      (textAhead defaultIndent (before ++ .mark .closeBrace :: after) before.length) := by
  rcases List.eq_nil_or_concat before with rfl | ⟨before, t, rfl⟩
  · exact startsLine_first defaultIndent _ (by decide)
  · rw [List.concat_eq_append] at apart ⊢
    obtain ⟨found, gap, -⟩ := exists_wideGap before t (.mark .closeBrace) after
    rw [enter_closeBrace, prettyGap_of_leading found (staysJoined_closeBrace _)
      (leading_closeBrace _ _ apart)] at gap
    exact startsLine_of_gap defaultIndent gap

end Row

/-- The braces of every row stand like this. -/
theorem bracesStand (ts : List Token) : BracesStand ts where
  opening := by
    rintro before after rfl
    exact endsLine_openBrace before after
  closing := by
    rintro before after rfl apart
    exact startsLine_closeBrace apart
  between := by
    rintro before after rfl outside
    obtain ⟨found, gap, ends⟩ :=
      exists_wideGap before (.mark .closeBrace) (.mark .openBrace) after
    -- no call ends at the brace, and neither brace asks for a line
    obtain rfl : found = none := by
      cases found with
      | none => rfl
      | some level => exact absurd (ends rfl) (by decide)
    rw [enter_closeBrace, spacing_closeBrace_between _ _ outside rfl] at gap
    exact ⟨_, textBehind_of_gap defaultIndent gap⟩

/-- In a nested row a closing brace has its opening brace, with a nested row in between, and the
brackets open after the one are those open before the other. -/
theorem exists_openBrace {before after : List Token}
    (nested : Nested (before ++ .mark .closeBrace :: after)) :
    ∃ outer inner opened, before = outer ++ .mark .openBrace :: inner ∧ Nested inner ∧
      openFrom [] outer = some opened ∧ openCount outer = opened.length ∧
      openCount (before ++ [.mark .closeBrace]) = opened.length := by
  rw [Nested, openFrom_append, Option.bind_eq_some_iff] at nested
  obtain ⟨within, opens, closes⟩ := nested
  obtain ⟨opened, closed, -⟩ := Option.bind_eq_some_iff.1 closes
  have top : within = .brace :: opened := Bracket.close_eq_some.1 closed
  subst top
  obtain ⟨outer, inner, hbefore, outside, nested⟩ := exists_opening opens
  have before := length_of_openFrom opens
  have outer' := length_of_openFrom outside
  have brace : openCount [.mark .closeBrace] = -1 := by decide
  simp only [List.length_cons, List.length_nil] at before outer'
  refine ⟨outer, inner, opened, hbefore, nested, outside, by omega, ?_⟩
  rw [openCount_append, brace]
  omega

end SparqlFormat.Layout

namespace SparqlFormat

open Lexeme Layout Grammar

/-! ## Braces of a text -/

/-- In the many-line layout of a text, checked or not, each opening brace is the last token of its
line, and each closing brace the first of its line, indented by the braces and parentheses still
open after it, unless it is the last open one and stands in front of an opening brace. If the tokens
laid out are a query or an update, these are the brackets that were open where its opening brace
was met. -/
theorem reformat_braces {checker? : Option Checker} {text out : List Char}
    (laidOut : reformat checker? .pretty text = .ok out) :
    ∃ ts, Reads ⟨true, false⟩ text ts ∧
      (∀ before t after, ts = before ++ t :: after →
        out = textAhead defaultIndent ts before.length ++
          (t.text ++ textBehind defaultIndent ts before.length)) ∧
      BracesStand ts ∧
      ∀ form, layoutForm? text = some form → ∀ before after,
        ts = before ++ .mark .closeBrace :: after →
          ∃ outer inner opened, before = outer ++ .mark .openBrace :: inner ∧ Nested inner ∧
            openFrom [] outer = some opened ∧ openCount outer = opened.length ∧
            openCount (before ++ [.mark .closeBrace]) = opened.length := by
  obtain ⟨ts, read, rfl⟩ := pretty_of_reformat laidOut
  refine ⟨ts, read, ?_, bracesStand ts, ?_⟩
  · rintro before t after rfl
    exact pretty_eq_around defaultIndent before t after
  · rintro form accepted before after rfl
    exact exists_openBrace (nested_of_layoutForm? accepted read)

/-- A query with a block in the parentheses of a filter. -/
def blockInParens : List Char :=
  "ASK\x7b?s ?p ?o FILTER(!EXISTS\x7b?s ?p ?o\x7d)\x7d".toList

/-- Its tokens. -/
def blockInParensRow : List Token :=
  [.keyword "ASK".toList, .mark .openBrace, .var ['s'], .var ['p'], .var ['o'],
    .keyword "FILTER".toList, .mark .openParen, .mark .bang, .keyword "EXISTS".toList,
    .mark .openBrace, .var ['s'], .var ['p'], .var ['o'], .mark .closeBrace, .mark .closeParen,
    .mark .closeBrace]

/-- A query with a block right behind its template. -/
def templateAndBlock : List Char :=
  "CONSTRUCT \x7b ?s ?p ?o \x7d \x7b ?s ?p ?o \x7d".toList

/-- Its tokens. -/
def templateAndBlockRow : List Token :=
  [.keyword "CONSTRUCT".toList, .mark .openBrace, .var ['s'], .var ['p'], .var ['o'],
    .mark .closeBrace, .mark .openBrace, .var ['s'], .var ['p'], .var ['o'], .mark .closeBrace]

/-- In the first query the inner brace is closed on a line of its own, two levels deep. In the
second the template is closed at the end of a line, in front of the block. -/
theorem reformat_braces_templateAndBlock :
    (reformat (some .grammar) .pretty blockInParens = .ok
        ("ASK \x7b\n    ?s ?p ?o\n    FILTER(!\n        EXISTS \x7b\n".toList ++
          "            ?s ?p ?o\n        \x7d\n        )\n\x7d".toList) ∧
        BracesStand blockInParensRow ∧
        StartsLine defaultIndent 2 (textAhead defaultIndent blockInParensRow 13)) ∧
      reformat (some .grammar) .pretty templateAndBlock = .ok
        "CONSTRUCT \x7b\n    ?s ?p ?o \x7d \x7b\n    ?s ?p ?o\n\x7d".toList ∧
      Reads ⟨true, false⟩ templateAndBlock templateAndBlockRow ∧
      openCount (templateAndBlockRow.take 6) = 0 ∧
      ¬ StartsLine defaultIndent 0 (textAhead defaultIndent templateAndBlockRow 5) := by
  have laidOut : reformat (some .grammar) .pretty blockInParens = .ok
      ("ASK \x7b\n    ?s ?p ?o\n    FILTER(!\n        EXISTS \x7b\n".toList ++
        "            ?s ?p ?o\n        \x7d\n        )\n\x7d".toList) := by
    decide +kernel
  obtain ⟨ts, read, -, stand, -⟩ := reformat_braces laidOut
  have tokens : Reads ⟨true, false⟩ blockInParens blockInParensRow :=
    reads_of_tokens (by decide +kernel)
  obtain rfl := tokens.unique read
  refine ⟨⟨laidOut, stand, ?_⟩, by decide +kernel, reads_of_tokens (by decide +kernel), by decide,
    ?_⟩
  · exact stand.closing (blockInParensRow.take 13) (blockInParensRow.drop 14) rfl (by decide)
  · rintro ⟨lines, ends, ahead⟩
    rw [Int.toNat_zero, List.replicate_zero, List.flatten_nil, List.append_nil] at ahead
    subst ahead
    exact absurd ends (by decide +kernel)

end SparqlFormat
