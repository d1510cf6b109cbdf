import SparqlFormat.Proofs.Denotation
import SparqlFormat.Proofs.Validity

/-!
# One line, and every literal as it was

A text laid out on one line has no line break in it: comments, which end their line, are dropped,
the line breaks of long strings are written as escapes, and no other token can hold one.

What is written for a string (`KeptOnOneLine`) is again one string to the scanner, wherever it
stands and whatever follows it but a quotation mark, and it denotes the characters that the string
denoted. This holds in both ways of reading a code point escape: in its place within the literal,
and before the text is cut into tokens at all. Both are needed, for `\u0027` denotes a quotation
mark in the first and is one in the second.
-/

namespace SparqlFormat

open Lexeme Layout Grammar

/-! ## Texts without line breaks -/

/-- A text without line breaks. -/
def Unbroken (s : List Char) : Prop :=
  ∀ c ∈ s, isLineBreak c = false

namespace Unbroken

variable {s t : List Char}

lemma nil : Unbroken [] :=
  List.forall_mem_nil _

lemma cons {c : Char} (notBreak : isLineBreak c = false) (h : Unbroken s) : Unbroken (c :: s) :=
  List.forall_mem_cons.2 ⟨notBreak, h⟩

lemma append (hs : Unbroken s) (ht : Unbroken t) : Unbroken (s ++ t) :=
  List.forall_mem_append.2 ⟨hs, ht⟩

lemma of_notMem (noReturn : '\r' ∉ s) (noFeed : '\n' ∉ s) : Unbroken s := by
  intro c mem
  simp only [isLineBreak, Bool.or_eq_false_iff, beq_eq_false_iff_ne]
  exact ⟨ne_of_mem_of_not_mem mem noReturn, ne_of_mem_of_not_mem mem noFeed⟩

lemma of_class {p : Char → Bool} (noReturn : p '\r' = false) (noFeed : p '\n' = false)
    (all : ∀ c ∈ s, p c = true) : Unbroken s :=
  of_notMem (fun mem => by simp [all _ mem] at noReturn) (fun mem => by simp [all _ mem] at noFeed)

end Unbroken

/-! ## Texts of tokens -/

section Tokens

lemma unbroken_escapeLineBreaks (source : List Char) : Unbroken (escapeLineBreaks source) := by
  induction source with
  | nil => exact .nil
  | cons c source ih =>
    by_cases isBreak : isLineBreak c = true
    · simp only [isLineBreak, Bool.or_eq_true, beq_iff_eq] at isBreak
      rcases isBreak with rfl | rfl
      · exact .cons (by decide) (.cons (by decide) ih)
      · exact .cons (by decide) (.cons (by decide) ih)
    · have notBreak : isLineBreak c = false := by simpa using isBreak
      rw [escapeLineBreaks_cons notBreak]
      exact .cons notBreak ih

variable {pointFirst : Bool} {t : Token} {s : List Char}

lemma Spells.unbroken (h : Spells pointFirst t s) : Unbroken (conciseText t) := by
  cases h with
  | mark m => exact .of_notMem (by cases m <;> decide) (by cases m <;> decide)
  | emptyParens => exact .of_notMem (by decide) (by decide)
  | emptyBrackets => exact .of_notMem (by decide) (by decide)
  | @comment body noBreak =>
    have body : Unbroken (trim body) := fun c mem => noBreak c (mem_of_mem_trim mem)
    simp only [conciseText, Token.text]
    split
    · exact .of_notMem (by decide) (by decide)
    · exact .cons (by decide) (.cons (by decide) body)
  | number hnumber => exact .of_class (by decide) (by decide) (number?_chars hnumber)
  | language htag =>
    exact .cons (by decide) (.of_class (by decide) (by decide) (languageTag?_chars htag))
  | var _ hname =>
    exact .cons (by decide) (.of_class (by decide) (by decide) (variableName?_chars hname))
  | string => exact unbroken_escapeLineBreaks _
  | blankNode hlabel =>
    have label := Unbroken.of_class (by decide) (by decide) (label?_chars hlabel)
    exact .cons (by decide) (.cons (by decide) label)
  | prefixed hname =>
    exact .of_class (by decide) (by decide) (prefixedName?_chars hname)
  | word hw ht =>
    have ofWord : ∀ {w : List Char}, word? w = some w → Unbroken w := fun hw =>
      .of_class (by decide) (by decide) (word?_chars hw).2
    rcases ofWord_eq_ok ht with ⟨rfl, mem⟩ | ⟨-, rfl⟩ | ⟨rfl, mem⟩
    · obtain ⟨spelled, -, notType⟩ := keywords_spelled _ mem
      simpa only [conciseText, Token.text, notType, Bool.false_eq_true, if_false]
        using ofWord spelled
    · exact .of_notMem (by decide) (by decide)
    · exact ofWord (booleanWords_spelled _ mem).1
  | iri hbody =>
    have body := Unbroken.of_class (p := fun c => isIriChar c || c == '\\') (by decide) (by decide)
      (iriBody?_chars hbody)
    exact .cons (by decide) (body.append (.cons (by decide) .nil))

end Tokens

/-! ## The layout -/

section Layout

lemma unbroken_weave {indent : List Char} {texts : List (List Char)} {gs : List Gap}
    (unbroken : ∀ s ∈ texts, Unbroken s) (gaps : ∀ g ∈ gs, Unbroken (g.render indent)) :
    Unbroken (weave indent texts gs) := by
  induction texts generalizing gs with
  | nil => simpa using Unbroken.nil
  | cons s texts ih =>
    obtain ⟨first, others⟩ := List.forall_mem_cons.1 unbroken
    cases gs with
    | nil => exact first.append (ih others gaps)
    | cons g gs =>
      obtain ⟨gap, gaps⟩ := List.forall_mem_cons.1 gaps
      rw [weave]
      refine (first.append ?_).append (ih others gaps)
      split
      · exact .nil
      · exact gap

/-- Nothing but a comment ends a line of the one-line layout. -/
lemma unbroken_conciseGaps {ps : List Placed}
    (noComment : ∀ p ∈ ps, p.token.isComment = false) :
    ∀ g ∈ conciseGaps ps, Unbroken (g.render []) := by
  fun_induction conciseGaps ps with
  | case1 left right rest ih =>
    obtain ⟨first, others⟩ := List.forall_mem_cons.1 noComment
    refine List.forall_mem_cons.2 ⟨?_, ih others⟩
    rw [conciseGap, if_neg (by simp [first])]
    split
    · exact .nil
    · exact .cons (by decide) .nil
  | case2 => simp

/-- The one-line layout of tokens other than comments, each with a spelling, is one line. -/
theorem unbroken_concise {pointFirst : Bool} {ts : List Token}
    (spelled : ∀ t ∈ ts, ∃ s, Spells pointFirst t s)
    (noComment : ∀ t ∈ ts, t.isComment = false) : Unbroken (concise ts) := by
  refine unbroken_weave ?_ (unbroken_conciseGaps ?_)
  · simp only [List.forall_mem_map]
    intro t mem
    obtain ⟨s, spelled⟩ := spelled t mem
    exact spelled.unbroken
  · rwa [← place_map_token ts, List.forall_mem_map] at noComment

/-- Whatever is reformatted on one line is one line. -/
lemma unbroken_relayout {text out : List Char} (h : relayout .concise text = .ok out) :
    Unbroken out := by
  obtain ⟨ts, read, -, rfl⟩ := reads_of_relayout h
  have bare := read.dropComments
  exact unbroken_concise bare.spelled bare.noComment

lemma unbroken_reformat {checker? : Option Checker} {text out : List Char}
    (h : reformat checker? .concise text = .ok out) : Unbroken out :=
  unbroken_relayout (relayout_of_reformat h)

end Layout

/-! ## Strings -/

/-- What is written for a string on one line is one string still, and the same one. -/
structure KeptOnOneLine (source written : List Char) : Prop where
  unbroken : Unbroken written
  /-- Wherever it stands, and whatever follows it but a quotation mark, the scanner finds it as
  one token and goes on right after it. -/
  reread : ∀ (keepComments : Bool) (offset : Nat) (rest : List Char),
    rest.head?.any isQuote = false →
      streamFrom ⟨keepComments, false⟩ 0 offset (written ++ rest) =
        Outcome.after ⟨.string written, written, offset⟩
          (streamFrom ⟨keepComments, false⟩ 0 (offset + written.length) rest)
  /-- It denotes what the string denotes. -/
  denotes : ∃ value, literalValue? source = some value ∧ literalValue? written = some value
  /-- If code point escapes are replaced first, and what they leave is a string, it denotes what
  that string denotes. -/
  denotesExpanded : ∀ expanded value, expandCodePoints source = some expanded →
    literalValue? expanded = some value →
      ∃ expanded', expandCodePoints written = some expanded' ∧ literalValue? expanded' = some value

lemma Spells.keptOnOneLine {source s : List Char} (h : Spells false (.string source) s) :
    KeptOnOneLine source (conciseText (.string source)) where
  unbroken := h.unbroken
  reread keepComments offset rest apart := by
    have found : first false (escapeLineBreaks source ++ rest) =
        .ok (.string (escapeLineBreaks source), escapeLineBreaks source) :=
      first_of_spells h.onOneLine rfl apart
    exact streamFrom_token found offset
  denotes := by
    obtain ⟨quote, isMark, hsource⟩ := h.of_string
    obtain ⟨value, denotes⟩ := Option.isSome_iff_exists.1 (literalValue?_isSome isMark hsource)
    exact ⟨value, denotes,
      literalValue?_escapesBreaks (escapesBreaks_escapeLineBreaks source) denotes⟩
  denotesExpanded expanded value hexpanded denotes := by
    obtain ⟨expanded', written, escaped⟩ := (expansion_iff.2 hexpanded).escapeLineBreaks
    exact ⟨expanded', expansion_iff.1 written, literalValue?_escapesBreaks escaped denotes⟩

/-- A text that is reformatted on one line becomes one line, whether its grammar is checked or not;
and every string of every text that is tokenized is kept there. -/
theorem concise_keeps_literals :
    (∀ checker? text out, reformat checker? .concise text = .ok out → Unbroken out) ∧
      ∀ keepComments text lexemes source, tokenize keepComments text = .ok lexemes →
        .string source ∈ lexemes.map Lexeme.token →
          KeptOnOneLine source (conciseText (.string source)) := by
  refine ⟨fun checker? text out => unbroken_reformat, ?_⟩
  intro keepComments text lexemes source cut mem
  have read : Reads ⟨keepComments, false⟩ text (lexemes.map Lexeme.token) :=
    reads_iff_tokenize.2 ⟨lexemes, cut, rfl⟩
  obtain ⟨s, spelled⟩ := read.spelled _ mem
  exact spelled.keptOnOneLine

/-- A long string with line breaks after a backslash escape, between quotation marks and before the
closing ones. -/
def brokenString : List Char :=
  "'''a\\\\\r\n''b\"\\u0041\n\\'\r'''".toList

/-- A query with this string in it, over several lines. -/
def severalLines : List Char :=
  "ASK #one\n\x7b?s?p".toList ++ brokenString ++ "#two\r,'x'@en\t\n.\x7d".toList

/-- The query on one line. -/
def unbrokenLines : List Char :=
  "ASK \x7b ?s ?p '''a\\\\\\r\\n''b\"\\u0041\\n\\'\\r''' , 'x'@en . \x7d".toList

/-- The query becomes this line, and the string in it is kept. -/
theorem concise_keeps_literals_severalLines :
    reformat (some .grammar) .concise severalLines = .ok unbrokenLines ∧ Unbroken unbrokenLines ∧
      ∃ lexemes, tokenize false severalLines = .ok lexemes ∧
        .string brokenString ∈ lexemes.map Lexeme.token ∧
        KeptOnOneLine brokenString (conciseText (.string brokenString)) ∧
        literalValue? brokenString = some ("a\\\r\n''b\"A\n'\r".toList.map Char.toNat) := by
  have laidOut : reformat (some .grammar) .concise severalLines = .ok unbrokenLines := by
    decide +kernel
  have holds : ((tokenize false severalLines).toOption.any fun lexemes =>
      (lexemes.map Lexeme.token).contains (.string brokenString)) = true := by
    decide +kernel
  refine ⟨laidOut, concise_keeps_literals.1 _ _ _ laidOut, ?_⟩
  cases cut : tokenize false severalLines with
  | error => simp [cut, Except.toOption] at holds
  | ok lexemes =>
    have mem : .string brokenString ∈ lexemes.map Lexeme.token := by
      simpa [cut, Except.toOption] using holds
    exact ⟨lexemes, rfl, mem, concise_keeps_literals.2 _ _ _ _ cut mem, by decide +kernel⟩

end SparqlFormat
