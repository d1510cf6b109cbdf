import SparqlFormat.Lexeme.Yield
import SparqlFormat.Proofs.Spelling

/-!
# The steps of a scan

`Scan manner offset text outcome` says what the scan of a text that stands at an offset comes to,
success or failure. It has one rule for each thing the scan can meet: the end of the text, a blank,
a comment, a token, a place where no token starts. The steps are those of `yieldFrom`, and
`scan_iff` is the link to `streamFrom`. With it no statement about all texts has to look into the
scan again: each is an induction over these rules.

The relation keeps offsets and the characters of each lexeme. `Reads`, which is built on it,
forgets both.
-/

namespace SparqlFormat

open Lexeme

/-- What the scan of a text comes to: its lexemes, or the first place where no token starts. -/
abbrev Outcome := Except Failure (List Lexeme)

/-- The outcome of a scan that finds one more lexeme in front. -/
def Outcome.after (l : Lexeme) (outcome : Outcome) : Outcome :=
  outcome.map (l :: ·)

lemma Outcome.after_eq_ok {l : Lexeme} {outcome : Outcome} {ls : List Lexeme} :
    outcome.after l = .ok ls ↔ ∃ rest, outcome = .ok rest ∧ l :: rest = ls := by
  cases outcome <;> simp [after, Except.map]

/-- The comment that stands at an offset, with everything up to the end of its line. -/
def commentAt (offset : Nat) (body : List Char) : Lexeme :=
  ⟨.comment (trim body), '#' :: body, offset⟩

/-- What the scan of a text comes to, given the number of characters before the text. -/
inductive Scan (manner : Manner) : Nat → List Char → Outcome → Prop
  | done {offset : Nat} : Scan manner offset [] (.ok [])
  | blank {offset : Nat} {c : Char} {cs : List Char} {outcome : Outcome} : isBlank c = true →
      Scan manner (offset + 1) cs outcome → Scan manner offset (c :: cs) outcome
  | comment {offset : Nat} {body rest : List Char} {outcome : Outcome} :
      (∀ c ∈ body, isLineBreak c = false) →
      (rest.head?.any fun c => !isLineBreak c) = false →
      Scan manner (offset + (body.length + 1)) rest outcome →
      Scan manner offset ('#' :: (body ++ rest))
        (if manner.keepComments then outcome.after (commentAt offset body) else outcome)
  | token {offset : Nat} {s rest : List Char} {t : Token} {outcome : Outcome} :
      first manner.pointFirst (s ++ rest) = .ok (t, s) →
      Scan manner (offset + s.length) rest outcome →
      Scan manner offset (s ++ rest) (outcome.after ⟨t, s, offset⟩)
  | fault {offset : Nat} {c : Char} {cs : List Char} {f : Fault} : isBlank c = false → c ≠ '#' →
      first manner.pointFirst (c :: cs) = .error f →
      Scan manner offset (c :: cs) (.error ⟨f, offset⟩)

section Scan

variable {manner : Manner}

/-! ## What a lexeme takes -/

/-- Characters of a lexeme already found are passed over one by one. -/
lemma yieldFrom_append (s rest : List Char) (offset : Nat) :
    yieldFrom manner s.length offset (s ++ rest) = yieldFrom manner 0 (offset + s.length) rest := by
  induction s generalizing offset with
  | nil => rfl
  | cons c s ih =>
    rw [List.length_cons, List.cons_append, yieldFrom, ih]
    congr 1
    omega

lemma yieldFrom_tail {c : Char} (s rest : List Char) (offset : Nat) :
    yieldFrom manner ((c :: s).length - 1) (offset + 1) (s ++ rest) =
      yieldFrom manner 0 (offset + (c :: s).length) rest := by
  rw [List.length_cons, Nat.add_sub_cancel, yieldFrom_append]
  congr 1
  omega

/-- What `first` reads is not empty, and its first character is neither a blank nor the sign of a
comment. -/
lemma first_source {pointFirst : Bool} {s rest : List Char} {t : Token}
    (h : first pointFirst (s ++ rest) = .ok (t, s)) :
    ∃ c cs, s = c :: cs ∧ isBlank c = false ∧ c ≠ '#' := by
  obtain ⟨spelled, -⟩ := spells_of_first h
  obtain ⟨c, cs, rfl, notBlank, -⟩ := spelled.head
  refine ⟨c, cs, rfl, notBlank, ?_⟩
  rintro rfl
  simp [first, lone?, isDigit, show isNameBase '#' = false by decide] at h

lemma comment_append {body rest : List Char} (noBreak : ∀ c ∈ body, isLineBreak c = false)
    (ends : (rest.head?.any fun c => !isLineBreak c) = false) :
    Lexeme.comment (body ++ rest) = (.comment (trim body), '#' :: body) := by
  have take : (body ++ rest).takeWhile (fun c => !isLineBreak c) = body :=
    takeWhile_append_stop (fun c mem => by simp [noBreak c mem]) ends
  simp only [Lexeme.comment, take]

/-! ## The scan takes these steps -/

lemma yieldFrom_blank {c : Char} (isBlank : isBlank c = true) (offset : Nat) (cs : List Char) :
    yieldFrom manner 0 offset (c :: cs) = yieldFrom manner 0 (offset + 1) cs := by
  rw [yieldFrom, if_pos isBlank]

lemma yieldFrom_comment {body rest : List Char} (noBreak : ∀ c ∈ body, isLineBreak c = false)
    (ends : (rest.head?.any fun c => !isLineBreak c) = false) (offset : Nat) :
    yieldFrom manner 0 offset ('#' :: (body ++ rest)) =
      let others := yieldFrom manner 0 (offset + (body.length + 1)) rest
      if manner.keepComments then others.after (commentAt offset body) else others := by
  rw [yieldFrom, if_neg (by decide), if_pos (by decide), comment_append noBreak ends]
  simp only [yieldFrom_tail]
  rw [List.length_cons, commentAt]

lemma yieldFrom_token {s rest : List Char} {t : Token}
    (read : first manner.pointFirst (s ++ rest) = .ok (t, s)) (offset : Nat) :
    yieldFrom manner 0 offset (s ++ rest) =
      (yieldFrom manner 0 (offset + s.length) rest).after ⟨t, s, offset⟩ := by
  obtain ⟨c, cs, rfl, notBlank, notSign⟩ := first_source read
  rw [List.cons_append] at read ⊢
  rw [yieldFrom, if_neg (by simp [notBlank]), if_neg (by simpa using notSign), read]
  simp only [yieldFrom_tail]

lemma yieldFrom_fault {c : Char} {cs : List Char} {f : Fault} (notBlank : isBlank c = false)
    (notSign : c ≠ '#') (fault : first manner.pointFirst (c :: cs) = .error f) (offset : Nat) :
    yieldFrom manner 0 offset (c :: cs) = ⟨[], some ⟨f, offset⟩⟩ := by
  rw [yieldFrom, if_neg (by simp [notBlank]), if_neg (by simpa using notSign), fault]

lemma outcome_after (l : Lexeme) (y : Yield) : (y.after l).outcome = Outcome.after l y.outcome := by
  obtain ⟨found, failure⟩ := y
  cases failure <;> rfl

/-- What a scan yields comes to what its steps lead to. -/
lemma Scan.outcome_eq {offset : Nat} {text : List Char} {outcome : Outcome}
    (h : Scan manner offset text outcome) : (yieldFrom manner 0 offset text).outcome = outcome := by
  induction h with
  | done => rfl
  | blank isBlank _ ih => rw [yieldFrom_blank isBlank, ih]
  | comment noBreak ends _ ih =>
    rw [yieldFrom_comment noBreak ends]
    dsimp only
    split
    · rw [outcome_after, ih]
    · exact ih
  | token read _ ih => rw [yieldFrom_token read, outcome_after, ih]
  | fault notBlank notSign fault => rw [yieldFrom_fault notBlank notSign fault, Yield.outcome]

/-- The scan comes to what its steps lead to. -/
lemma Scan.streamFrom_eq {offset : Nat} {text : List Char} {outcome : Outcome}
    (h : Scan manner offset text outcome) : streamFrom manner 0 offset text = outcome := by
  rw [← outcome_yieldFrom, h.outcome_eq]

lemma streamFrom_token {s rest : List Char} {t : Token}
    (read : first manner.pointFirst (s ++ rest) = .ok (t, s)) (offset : Nat) :
    streamFrom manner 0 offset (s ++ rest) =
      Outcome.after ⟨t, s, offset⟩ (streamFrom manner 0 (offset + s.length) rest) := by
  rw [← outcome_yieldFrom, ← outcome_yieldFrom, yieldFrom_token read, outcome_after]

/-! ## Every text is scanned -/

lemma exists_comment (cs : List Char) :
    ∃ body rest, cs = body ++ rest ∧ (∀ c ∈ body, isLineBreak c = false) ∧
      (rest.head?.any fun c => !isLineBreak c) = false := by
  refine ⟨cs.takeWhile fun c => !isLineBreak c, cs.dropWhile fun c => !isLineBreak c,
    List.takeWhile_append_dropWhile.symm, fun c mem => ?_, head?_dropWhile_any _ cs⟩
  simpa using of_mem_takeWhile mem

lemma exists_scan (manner : Manner) (offset : Nat) (text : List Char) :
    ∃ outcome, Scan manner offset text outcome := by
  -- each step takes at least one character
  induction hlength : text.length using Nat.strongRecOn generalizing offset text with
  | _ length ih =>
    subst hlength
    cases text with
    | nil => exact ⟨_, .done⟩
    | cons c cs =>
      by_cases blank : isBlank c = true
      · obtain ⟨outcome, scan⟩ := ih cs.length (by simp) (offset + 1) cs rfl
        exact ⟨outcome, .blank blank scan⟩
      by_cases sign : c = '#'
      · obtain ⟨body, rest, rfl, noBreak, ends⟩ := exists_comment cs
        have shorter : rest.length < (c :: (body ++ rest)).length := by
          rw [List.length_cons, List.length_append]
          omega
        obtain ⟨outcome, scan⟩ := ih rest.length shorter (offset + (body.length + 1)) rest rfl
        exact sign ▸ ⟨_, .comment noBreak ends scan⟩
      cases read : first manner.pointFirst (c :: cs) with
      | error f => exact ⟨_, .fault (by simpa using blank) sign read⟩
      | ok reading =>
        obtain ⟨t, s⟩ := reading
        obtain ⟨-, rest, cut⟩ := spells_of_first read
        dsimp only at cut
        rw [← cut] at read ⊢
        obtain ⟨d, ds, rfl, -⟩ := first_source read
        have shorter : rest.length < (c :: cs).length := by
          rw [← cut, List.length_append, List.length_cons]
          omega
        obtain ⟨outcome, scan⟩ := ih rest.length shorter (offset + (d :: ds).length) rest rfl
        exact ⟨_, .token read scan⟩

/-- The outcome of a scan is what its steps lead to, and nothing else. -/
theorem scan_iff {offset : Nat} {text : List Char} {outcome : Outcome} :
    Scan manner offset text outcome ↔ streamFrom manner 0 offset text = outcome := by
  constructor
  · exact Scan.streamFrom_eq
  · rintro rfl
    obtain ⟨outcome, scan⟩ := exists_scan manner offset text
    rwa [scan.streamFrom_eq]

end Scan

/-! ## Tokenizing -/

/-- A text is tokenized exactly when its scan succeeds, and to the same lexemes. -/
lemma tokenize_eq_ok {keepComments : Bool} {text : List Char} {lexemes : List Lexeme} :
    tokenize keepComments text = .ok lexemes ↔
      Scan ⟨keepComments, false⟩ 0 text (.ok lexemes) := by
  rw [scan_iff, tokenize, stream]
  cases streamFrom ⟨keepComments, false⟩ 0 0 text <;> simp

end SparqlFormat
