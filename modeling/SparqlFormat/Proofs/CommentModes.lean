import SparqlFormat.Proofs.Reading
import SparqlFormat.Reformat

/-!
# What keeping comments changes

A scan that keeps comments and one that drops them meet the same things at the same places: whether
a comment becomes a lexeme is decided after the scan has passed it. So the two find the same
failure, or the same lexemes but for the comments (`Scan.dropComments`, `tokenize_false`).

The layout on one line drops comments and the layout on many keeps them. Since a text without any
token but comments is blank for both, they reject the same texts, and for the same reason
(`tokenize_keepComments`).
-/

namespace SparqlFormat

open Lexeme

/-! ## Two scans of a text -/

/-- The lexemes of a row that are no comments. -/
def otherLexemes (lexemes : List Lexeme) : List Lexeme :=
  lexemes.filter fun l => !l.token.isComment

section Scan

variable {pointFirst : Bool} {offset : Nat} {text : List Char} {outcome : Outcome}

lemma map_otherLexemes_after {l : Lexeme} (notComment : l.token.isComment = false)
    (outcome : Outcome) :
    (outcome.after l).map otherLexemes = Outcome.after l (outcome.map otherLexemes) := by
  cases outcome with
  | error failure => rfl
  | ok lexemes => exact congrArg Except.ok (List.filter_cons_of_pos (by simp [notComment]))

lemma map_otherLexemes_comment (outcome : Outcome) (offset : Nat) (body : List Char) :
    (outcome.after (commentAt offset body)).map otherLexemes = outcome.map otherLexemes := by
  cases outcome <;> rfl

/-- A scan that drops comments takes the steps of the one that keeps them. -/
lemma Scan.dropComments (h : Scan ⟨true, pointFirst⟩ offset text outcome) :
    Scan ⟨false, pointFirst⟩ offset text (outcome.map otherLexemes) := by
  induction h with
  | done => exact .done
  | blank isBlank _ ih => exact .blank isBlank ih
  | comment noBreak ends _ ih =>
    rw [if_pos rfl, map_otherLexemes_comment]
    exact .comment noBreak ends ih
  | token read _ ih =>
    rw [map_otherLexemes_after (isComment_of_first read)]
    exact .token read ih
  | fault notBlank notSign fault => exact .fault notBlank notSign fault

/-- What tokenizing without comments comes to, failures included. -/
theorem tokenize_false (text : List Char) :
    tokenize false text = (tokenize true text).map otherLexemes := by
  have kept : Scan ⟨true, false⟩ 0 text (stream ⟨true, false⟩ text) := scan_iff.2 rfl
  have dropped : stream ⟨false, false⟩ text = (stream ⟨true, false⟩ text).map otherLexemes :=
    scan_iff.1 kept.dropComments
  rw [tokenize, tokenize, dropped]
  cases stream ⟨true, false⟩ text <;> rfl

end Scan

/-! ## Two layouts of a text -/

section Relayout

variable {text : List Char} {rejection : Rejection}

lemma all_isComment_otherLexemes (lexemes : List Lexeme) :
    ((otherLexemes lexemes).map Lexeme.token).all Token.isComment =
      (lexemes.map Lexeme.token).all Token.isComment := by
  induction lexemes with
  | nil => rfl
  | cons l lexemes ih =>
    cases isComment : l.token.isComment with
    | false =>
      have kept : otherLexemes (l :: lexemes) = l :: otherLexemes lexemes :=
        List.filter_cons_of_pos (by simp [isComment])
      simp [kept, isComment]
    | true =>
      have dropped : otherLexemes (l :: lexemes) = otherLexemes lexemes :=
        List.filter_cons_of_neg (by simp [isComment])
      rw [dropped, ih, List.map_cons, List.all_cons, isComment, Bool.true_and]

/-- A text is not laid out, in either layout, if it is no row of tokens or holds none but
comments. -/
lemma relayout_eq_error {mode : Mode} :
    relayout mode text = .error rejection ↔
      (∃ e, tokenize true text = .error e ∧ rejection = .untokenizable e) ∨
        ∃ lexemes, tokenize true text = .ok lexemes ∧
          (lexemes.map Lexeme.token).all Token.isComment = true ∧ rejection = .blank := by
  have tokenized : tokenize mode.keepsComments text = (tokenize true text).map fun lexemes =>
      if mode.keepsComments then lexemes else otherLexemes lexemes := by
    cases mode with
    | pretty => cases h : tokenize true text <;> simp [Mode.keepsComments, h, Except.map]
    | concise => exact tokenize_false text
  rw [relayout, tokenized]
  cases tokenize true text with
  | error e =>
    simp only [Except.map, Except.error.injEq, exists_eq_left', reduceCtorEq, false_and,
      exists_false, or_false]
    exact eq_comm
  | ok lexemes =>
    have same : ((if mode.keepsComments then lexemes else otherLexemes lexemes).map
        Lexeme.token).all Token.isComment = (lexemes.map Lexeme.token).all Token.isComment := by
      cases mode with
      | pretty => rfl
      | concise => exact all_isComment_otherLexemes lexemes
    simp only [Except.map, same]
    cases h : (lexemes.map Lexeme.token).all Token.isComment with
    | false => simp [-List.all_map, -List.all_eq_true, h]
    | true =>
      simp only [if_true, Except.error.injEq, Except.ok.injEq, reduceCtorEq, false_and,
        exists_false, exists_eq_left', h, true_and, false_or]
      exact eq_comm

lemma reformat_eq_error {checker? : Option Checker} {mode : Mode} :
    reformat checker? mode text = .error rejection ↔
      (∃ checker ∈ checker?, checkForm checker text = .error rejection) ∨
        ((∀ checker ∈ checker?, ∃ form, checkForm checker text = .ok form) ∧
          relayout mode text = .error rejection) := by
  cases checker? with
  | none => simp [reformat]
  | some checker => cases h : checkForm checker text <;> simp [reformat, h]

end Relayout

/-- Keeping comments changes nothing else: tokenizing fails alike with comments and without, or
gives the same lexemes but for the comments, each with its token, characters and offset. So the two
layouts are refused to the same texts and for the same reason; that a text is blank means for both
that its tokens are comments. -/
theorem tokenize_keepComments (text : List Char) :
    ((∃ e, tokenize false text = .error e ∧ tokenize true text = .error e) ∨
      ∃ lexemes, tokenize true text = .ok lexemes ∧
        tokenize false text = .ok (lexemes.filter fun l => !l.token.isComment)) ∧
    (∀ checker? rejection, reformat checker? .pretty text = .error rejection ↔
      reformat checker? .concise text = .error rejection) ∧
    ∀ mode, reformat none mode text = .error .blank ↔
      ∃ lexemes, tokenize true text = .ok lexemes ∧
        ∀ l ∈ lexemes, l.token.isComment = true := by
  refine ⟨?_, fun checker? rejection => ?_, fun mode => ?_⟩
  · rw [tokenize_false]
    cases tokenize true text with
    | error e => exact .inl ⟨e, rfl, rfl⟩
    | ok lexemes => exact .inr ⟨lexemes, rfl, rfl⟩
  · simp only [reformat_eq_error, relayout_eq_error]
  · simp [reformat_eq_error, relayout_eq_error]

end SparqlFormat
