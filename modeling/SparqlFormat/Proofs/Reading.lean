import SparqlFormat.Proofs.Scanning

/-!
# Reading a text

`Reads manner text ts` says that a text is cut into the tokens `ts`: blanks are passed over, a
comment runs to the end of its line, and every other token is what `first` finds. The relation
is what is left of `Scan` where it succeeds and offsets are forgotten, so statements about the
tokens of all texts are inductions on it.

`reads_iff_tokenize` is the link to the scan: a text is cut into `ts` exactly when `tokenize`
succeeds and gives these tokens. A reading with comments and one without differ in nothing but
the comments (`Reads.dropComments`, `Reads.restoreComments`).
-/

namespace SparqlFormat

open Lexeme

/-- The tokens that a text is cut into. -/
inductive Reads (manner : Manner) : List Char → List Token → Prop
  | done : Reads manner [] []
  | blank {c : Char} {cs : List Char} {ts : List Token} : isBlank c = true →
      Reads manner cs ts → Reads manner (c :: cs) ts
  | comment {body rest : List Char} {ts : List Token} :
      (∀ c ∈ body, isLineBreak c = false) →
      (rest.head?.any fun c => !isLineBreak c) = false → Reads manner rest ts →
      Reads manner ('#' :: (body ++ rest))
        (if manner.keepComments then .comment (trim body) :: ts else ts)
  | token {s rest : List Char} {t : Token} {ts : List Token} :
      first manner.pointFirst (s ++ rest) = .ok (t, s) → Reads manner rest ts →
      Reads manner (s ++ rest) (t :: ts)

/-- Blanks in front of a text change nothing. -/
lemma Reads.blanks {manner : Manner} {blanks k : List Char} {ts : List Token}
    (blank : ∀ c ∈ blanks, isBlank c = true) (h : Reads manner k ts) :
    Reads manner (blanks ++ k) ts := by
  induction blanks with
  | nil => exact h
  | cons c blanks ih =>
    obtain ⟨isBlank, rest⟩ := List.forall_mem_cons.1 blank
    exact .blank isBlank (ih rest)

/-! ## The scan -/

section Scan

variable {manner : Manner}

lemma Scan.reads {offset : Nat} {text : List Char} {lexemes : List Lexeme}
    (h : Scan manner offset text (.ok lexemes)) :
    Reads manner text (lexemes.map Lexeme.token) := by
  generalize houtcome : Except.ok lexemes = outcome at h
  induction h generalizing lexemes with
  | done =>
    obtain rfl := Except.ok.inj houtcome
    exact .done
  | blank isBlank _ ih => exact .blank isBlank (ih houtcome)
  | comment noBreak ends _ ih =>
    cases hkeep : manner.keepComments with
    | false =>
      have read := Reads.comment noBreak ends (ih (by simpa [hkeep] using houtcome))
      simpa [hkeep] using read
    | true =>
      rw [if_pos hkeep] at houtcome
      obtain ⟨others, rfl, rfl⟩ := Outcome.after_eq_ok.1 houtcome.symm
      have read := Reads.comment noBreak ends (ih rfl)
      rwa [if_pos hkeep] at read
  | token read _ ih =>
    obtain ⟨others, rfl, rfl⟩ := Outcome.after_eq_ok.1 houtcome.symm
    exact .token read (ih rfl)
  | fault => contradiction

lemma Reads.scan {text : List Char} {ts : List Token} (h : Reads manner text ts) (offset : Nat) :
    ∃ lexemes, Scan manner offset text (.ok lexemes) ∧ lexemes.map Lexeme.token = ts := by
  induction h generalizing offset with
  | done => exact ⟨[], .done, rfl⟩
  | blank isBlank _ ih =>
    obtain ⟨lexemes, scan, tokens⟩ := ih (offset + 1)
    exact ⟨lexemes, .blank isBlank scan, tokens⟩
  | @comment body rest ts noBreak ends _ ih =>
    obtain ⟨lexemes, scan, rfl⟩ := ih (offset + (body.length + 1))
    have scan := Scan.comment noBreak ends scan
    cases hkeep : manner.keepComments with
    | false => exact ⟨lexemes, by simpa [hkeep] using scan, by simp⟩
    | true =>
      rw [if_pos hkeep] at scan
      exact ⟨commentAt offset body :: lexemes, scan, by simp [commentAt]⟩
  | @token s rest t ts read _ ih =>
    obtain ⟨lexemes, scan, rfl⟩ := ih (offset + s.length)
    exact ⟨⟨t, s, offset⟩ :: lexemes, .token read scan, rfl⟩

/-- A text is cut into tokens exactly when the scan finds them. -/
theorem reads_iff_stream {text : List Char} {ts : List Token} :
    Reads manner text ts ↔
      ∃ lexemes, stream manner text = .ok lexemes ∧ lexemes.map Lexeme.token = ts := by
  constructor
  · intro h
    obtain ⟨lexemes, scan, tokens⟩ := h.scan 0
    exact ⟨lexemes, scan_iff.1 scan, tokens⟩
  · rintro ⟨lexemes, scanned, rfl⟩
    exact (scan_iff.2 scanned).reads

/-- A text is cut into tokens in at most one way. -/
theorem Reads.unique {text : List Char} {ts us : List Token} (h : Reads manner text ts)
    (h' : Reads manner text us) : ts = us := by
  obtain ⟨lexemes, scanned, rfl⟩ := reads_iff_stream.1 h
  obtain ⟨others, scanned', rfl⟩ := reads_iff_stream.1 h'
  rw [scanned] at scanned'
  rw [Except.ok.inj scanned']

end Scan

/-- A text is cut into tokens exactly when `tokenize` gives them. -/
theorem reads_iff_tokenize {keepComments : Bool} {text : List Char} {ts : List Token} :
    Reads ⟨keepComments, false⟩ text ts ↔
      ∃ lexemes, tokenize keepComments text = .ok lexemes ∧ lexemes.map Lexeme.token = ts := by
  simp only [reads_iff_stream, tokenize_eq_ok, scan_iff, stream]

/-! ## Comments -/

section Comments

variable {pointFirst : Bool} {text : List Char}

/-- The tokens of a row that are no comments. -/
def withoutComments (ts : List Token) : List Token :=
  ts.filter fun t => !t.isComment

@[simp] lemma withoutComments_comment (body : List Char) (ts : List Token) :
    withoutComments (.comment body :: ts) = withoutComments ts := rfl

lemma withoutComments_cons {t : Token} (notComment : t.isComment = false) (ts : List Token) :
    withoutComments (t :: ts) = t :: withoutComments ts := by
  rw [withoutComments, List.filter_cons_of_pos (by simp [notComment]), withoutComments]

lemma withoutComments_eq_nil {ts : List Token} :
    withoutComments ts = [] ↔ ts.all Token.isComment = true := by
  simp [withoutComments]

lemma isComment_of_first {s rest : List Char} {t : Token}
    (h : first pointFirst (s ++ rest) = .ok (t, s)) : t.isComment = false := by
  obtain ⟨c, cs, rfl, -, notSign⟩ := first_source h
  by_contra isComment
  obtain ⟨body, rfl⟩ := (Token.isComment_iff t).1 (by simpa using isComment)
  obtain ⟨spelled, -⟩ := spells_of_first h
  cases spelled with
  | comment => exact notSign rfl
  | word hw ht => nomatch isVerbal_of_ofWord ht

/-- A reading with comments, its comments dropped, is the reading without. -/
theorem Reads.dropComments {ts : List Token} (h : Reads ⟨true, pointFirst⟩ text ts) :
    Reads ⟨false, pointFirst⟩ text (withoutComments ts) := by
  induction h with
  | done => exact .done
  | blank isBlank h ih => exact .blank isBlank ih
  | comment noBreak ends h ih => exact .comment noBreak ends ih
  | token read h ih =>
    rw [withoutComments_cons (isComment_of_first read)]
    exact .token read ih

/-- A reading without comments is a reading with comments, its comments dropped. -/
theorem Reads.restoreComments {ts : List Token} (h : Reads ⟨false, pointFirst⟩ text ts) :
    ∃ whole, Reads ⟨true, pointFirst⟩ text whole ∧ withoutComments whole = ts := by
  induction h with
  | done => exact ⟨[], .done, rfl⟩
  | blank isBlank h ih =>
    obtain ⟨whole, read, rfl⟩ := ih
    exact ⟨whole, .blank isBlank read, rfl⟩
  | comment noBreak ends h ih =>
    obtain ⟨whole, read, rfl⟩ := ih
    exact ⟨_, .comment noBreak ends read, rfl⟩
  | token read h ih =>
    obtain ⟨whole, readRest, rfl⟩ := ih
    exact ⟨_, .token read readRest, withoutComments_cons (isComment_of_first read) _⟩

/-- Every token that is read has a spelling in the text. -/
theorem Reads.spelled_infix {manner : Manner} {ts : List Token} (h : Reads manner text ts) :
    ∀ t ∈ ts, ∃ s, Spells manner.pointFirst t s ∧ s <:+: text := by
  -- what is read further on stands in the whole text
  have behind : ∀ (front : List Char) {rest : List Char} {ts : List Token},
      (∀ t ∈ ts, ∃ s, Spells manner.pointFirst t s ∧ s <:+: rest) →
      ∀ t ∈ ts, ∃ s, Spells manner.pointFirst t s ∧ s <:+: front ++ rest := by
    intro front rest ts ih t mem
    obtain ⟨s, spelled, inside⟩ := ih t mem
    exact ⟨s, spelled, inside.trans (List.suffix_append front rest).isInfix⟩
  induction h with
  | done => simp
  | @blank c cs ts isBlank h ih => exact behind [c] ih
  | @comment body rest ts noBreak ends h ih =>
    have ih := behind ('#' :: body) ih
    split
    · exact List.forall_mem_cons.2 ⟨⟨_, .comment noBreak,
        (List.prefix_append ('#' :: body) rest).isInfix⟩, ih⟩
    · exact ih
  | @token s rest t ts read h ih =>
    exact List.forall_mem_cons.2
      ⟨⟨s, (spells_of_first read).1, (List.prefix_append s rest).isInfix⟩, behind s ih⟩

/-- Every token that is read has a spelling. -/
theorem Reads.spelled {manner : Manner} {ts : List Token} (h : Reads manner text ts) :
    ∀ t ∈ ts, ∃ s, Spells manner.pointFirst t s :=
  fun t mem => (h.spelled_infix t mem).imp fun _ => And.left

/-- Without comments to be kept, none is read. -/
theorem Reads.noComment {ts : List Token} (h : Reads ⟨false, pointFirst⟩ text ts) :
    ∀ t ∈ ts, t.isComment = false := by
  obtain ⟨whole, -, rfl⟩ := h.restoreComments
  intro t mem
  simpa using (List.mem_filter.1 mem).2

end Comments

end SparqlFormat
