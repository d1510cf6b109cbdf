import SparqlFormat.Proofs.LongestReading

/-!
# Where a text fails to be tokens

A failure is reported at the first place where no token starts. The text before that place is a row
of tokens by itself, the ones that the scan of the whole text has yielded: what was read there does
not change when the text is cut off, though identifiers, strings and names look as far ahead as
they like (`first_of_prefix`, `Scan.cut`).

The report gives the place by line and column. Only a line feed ends a line, so the line starts
behind the last one before the place, and the place can be counted back from the two numbers
(`Position.placeIn`).
-/

namespace SparqlFormat

open Lexeme

/-! ## Lines and columns -/

namespace Position

/-- How many characters stand before the line with the number given; lines are counted from one. -/
def lineStart : Nat → List Char → Nat
  | number + 2, c :: cs => 1 + lineStart (if c = '\n' then number + 1 else number + 2) cs
  | _, _ => 0

/-- How many characters stand before a place of a text that is given by line and column. -/
def placeIn (text : List Char) (position : Position) : Nat :=
  lineStart position.line text + (position.column - 1)

/-- A text is whole lines and the start of one more. -/
lemma after_eq (before : List Char) :
    ∃ lines line, before = lines ++ line ∧ (lines = [] ∨ lines.getLast? = some '\n') ∧
      '\n' ∉ line ∧ after before = ⟨lines.count '\n' + 1, line.length + 1⟩ := by
  -- the start of the last line is found from the end of the text
  have noBreak : '\n' ∉ before.reverse.takeWhile fun c => c != '\n' :=
    fun mem => absurd (of_mem_takeWhile mem) (by decide)
  have stop := head?_dropWhile_any (fun c => c != '\n') before.reverse
  have cut := (List.takeWhile_append_dropWhile (p := fun c => c != '\n') (l := before.reverse)).symm
  rw [List.reverse_eq_iff, List.reverse_append] at cut
  refine ⟨_, _, cut, ?_, by simpa using noBreak, ?_⟩
  · cases hlines : before.reverse.dropWhile fun c => c != '\n' with
    | nil => exact .inl rfl
    | cons c lines =>
      right
      rw [hlines] at stop
      simpa using stop
  · have none : (before.reverse.takeWhile fun c => c != '\n').reverse.count '\n' = 0 :=
      List.count_eq_zero_of_not_mem (by simpa using noBreak)
    have counted := congrArg (List.count '\n') cut
    rw [List.count_append, none, Nat.add_zero] at counted
    rw [after, counted, List.length_reverse]

lemma lineStart_append {lines : List Char} (whole : lines = [] ∨ lines.getLast? = some '\n')
    (rest : List Char) : lineStart (lines.count '\n' + 1) (lines ++ rest) = lines.length := by
  induction lines with
  | nil => cases rest <;> rfl
  | cons c lines ih =>
    have whole' : lines = [] ∨ lines.getLast? = some '\n' := by
      cases lines with
      | nil => exact .inl rfl
      | cons d lines => exact .inr (by simpa using whole)
    have ih := ih whole'
    by_cases isBreak : c = '\n'
    · subst isBreak
      rw [List.count_cons_self, List.cons_append, lineStart, if_pos rfl, ih, List.length_cons,
        Nat.add_comm]
    · -- the line goes on, up to a line break further on
      have later : 0 < lines.count '\n' := by
        rw [List.count_pos_iff]
        rcases whole' with rfl | last
        · simp [isBreak] at whole
        · exact List.mem_of_getLast? last
      obtain ⟨number, counted⟩ := Nat.exists_eq_add_of_lt later
      rw [List.count_cons_of_ne isBreak, counted, List.cons_append, lineStart, if_neg isBreak]
      rw [counted] at ih
      rw [ih, List.length_cons, Nat.add_comm]

end Position

/-! ## What was found before a failure -/

section Scan

variable {manner : Manner} {offset : Nat} {text : List Char} {failure : Failure}

/-- A scan that fails does so where no token starts. Up to that place it is the scan of a text that
ends there, and this scan succeeds with what was yielded. -/
lemma Scan.cut (h : Scan manner offset text (.error failure)) :
    ∃ before c rest, text = before ++ c :: rest ∧ failure.offset = offset + before.length ∧
      isBlank c = false ∧ c ≠ '#' ∧ first manner.pointFirst (c :: rest) = .error failure.fault ∧
      Scan manner offset before (.ok (yieldFrom manner 0 offset text).found) := by
  generalize houtcome : Except.error failure = outcome at h
  induction h with
  | done => cases houtcome
  | @blank offset d cs _ isBlank _ ih =>
    obtain ⟨before, c, rest, rfl, place, notBlank, notSign, fault, scan⟩ := ih houtcome
    refine ⟨d :: before, c, rest, rfl, ?_, notBlank, notSign, fault, ?_⟩
    · rw [place, List.length_cons]
      omega
    · rw [yieldFrom_blank isBlank]
      exact .blank isBlank scan
  | @comment offset body _ outcome noBreak ends _ ih =>
    have failed : Except.error failure = outcome := by
      split at houtcome
      · cases outcome with
        | error failure => exact houtcome
        | ok lexemes => cases houtcome
      · exact houtcome
    obtain ⟨before, c, rest, rfl, place, notBlank, notSign, fault, scan⟩ := ih failed
    refine ⟨'#' :: (body ++ before), c, rest, by simp, ?_, notBlank, notSign, fault, ?_⟩
    · rw [place, List.length_cons, List.length_append]
      omega
    · have ends' : (before.head?.any fun c => !isLineBreak c) = false := by
        cases before with
        | nil => rfl
        | cons d before => exact ends
      have scan := Scan.comment noBreak ends' scan
      rw [yieldFrom_comment noBreak ends]
      cases keep : manner.keepComments with
      | false => simpa [keep] using scan
      | true => simpa [keep, Outcome.after, Except.map, Yield.after] using scan
  | @token offset s _ t outcome read _ ih =>
    have failed : Except.error failure = outcome := by
      cases outcome with
      | error failure => exact houtcome
      | ok lexemes => cases houtcome
    obtain ⟨before, c, rest, rfl, place, notBlank, notSign, fault, scan⟩ := ih failed
    refine ⟨s ++ before, c, rest, by simp, ?_, notBlank, notSign, fault, ?_⟩
    · rw [place, List.length_append]
      omega
    · have read' := first_of_prefix read (List.prefix_append before (c :: rest))
      rw [yieldFrom_token read]
      exact .token read' scan
  | @fault offset c cs f notBlank notSign fault =>
    obtain rfl := Except.error.inj houtcome
    refine ⟨[], c, cs, rfl, rfl, notBlank, notSign, fault, ?_⟩
    rw [yieldFrom_fault notBlank notSign fault]
    exact .done

end Scan

/-- The lexemes that tokenizing a text finds before it ends or fails. -/
def lexemesFound (keepComments : Bool) (text : List Char) : List Lexeme :=
  (yieldFrom ⟨keepComments, false⟩ 0 0 text).found

/-- A report points at the first place of a text where no token starts. -/
structure TokenError.PointsAt (keepComments : Bool) (text : List Char) (e : TokenError)
    (place : Nat) : Prop where
  /-- A character stands there that is neither a blank nor the sign of a comment. -/
  visible : ∃ c, text[place]? = some c ∧ isBlank c = false ∧ c ≠ '#'
  /-- No token starts there. -/
  fault : first false (text.drop place) = .error e.fault
  /-- The text before it is tokenized, to what was found up to there. -/
  before : tokenize keepComments (text.take place) = .ok (lexemesFound keepComments text)
  line : e.position.line = 1 + (text.take place).count '\n'
  /-- The column counts the characters of the line, of which the place is one. -/
  column : ∃ start ≤ place, (start = 0 ∨ text[start - 1]? = some '\n') ∧
    '\n' ∉ (text.take place).drop start ∧ e.position.column = place - start + 1 ∧
    1 ≤ e.position.column ∧
    e.position.column ≤ ((text.drop start).takeWhile fun c => c != '\n').length
  excerpt : e.excerpt = (text.drop place).take 20
  /-- Line and column tell the place. -/
  recovered : e.position.placeIn text = place

/-- A failure in whole lines and the start of one more is reported in that line. -/
lemma pointsAt_ofFailure {keepComments : Bool} {before rest : List Char} {c : Char}
    {failure : Failure} (place : failure.offset = before.length) (notBlank : isBlank c = false)
    (notSign : c ≠ '#') (fault : first false (c :: rest) = .error failure.fault)
    (found : tokenize keepComments before = .ok (lexemesFound keepComments (before ++ c :: rest))) :
    (TokenError.ofFailure (before ++ c :: rest) failure).PointsAt keepComments
      (before ++ c :: rest) failure.offset := by
  obtain ⟨lines, line, rfl, whole, unbroken, position⟩ := Position.after_eq before
  have taken : (lines ++ line ++ c :: rest).take failure.offset = lines ++ line := by
    rw [place, List.take_left]
  have dropped : (lines ++ line ++ c :: rest).drop failure.offset = c :: rest := by
    rw [place, List.drop_left]
  have notBreak : c ≠ '\n' := by
    rintro rfl
    exact absurd notBlank (by decide)
  have reported : (TokenError.ofFailure (lines ++ line ++ c :: rest) failure).position =
      ⟨lines.count '\n' + 1, line.length + 1⟩ := by
    rw [TokenError.ofFailure, taken, position]
  have length : failure.offset = lines.length + line.length := by
    rw [place, List.length_append]
  have inLine : (line ++ c :: rest).takeWhile (fun c => c != '\n') =
      line ++ c :: rest.takeWhile fun c => c != '\n' := by
    rw [List.takeWhile_append_of_pos fun d mem => ?_, List.takeWhile_cons_of_pos (by simpa)]
    rw [bne_iff_ne]
    rintro rfl
    exact unbroken mem
  refine
    { visible := ⟨c, by rw [← List.head?_drop, dropped]; rfl, notBlank, notSign⟩
      fault := by rwa [dropped]
      before := by rwa [taken]
      line := ?line
      column := ⟨lines.length, by omega, ?behind, by rwa [taken, List.drop_left], ?column, ?low,
        ?high⟩
      excerpt := rfl
      recovered := ?recovered }
  case line =>
    rw [reported, taken, List.count_append, List.count_eq_zero_of_not_mem unbroken, Nat.add_zero]
    exact Nat.add_comm _ _
  case behind =>
    refine whole.imp (fun none => by rw [none]; rfl) fun last => ?_
    rw [List.getLast?_eq_getElem?] at last
    obtain ⟨inside, -⟩ := List.getElem?_eq_some_iff.1 last
    rw [List.append_assoc, List.getElem?_append_left inside, last]
  case column => rw [reported, length, Nat.add_sub_cancel_left]
  case low =>
    rw [reported]
    exact Nat.succ_pos _
  case high =>
    rw [reported, List.append_assoc, List.drop_left, inLine, List.length_append, List.length_cons]
    exact Nat.add_le_add_left (Nat.succ_pos _) _
  case recovered =>
    rw [Position.placeIn, reported, place, List.append_assoc,
      Position.lineStart_append whole (line ++ c :: rest), List.length_append]
    rfl

/-- A text that is no row of tokens is reported at its first character where no token starts. -/
theorem tokenize_fault {keepComments : Bool} {text : List Char} {e : TokenError}
    (failed : tokenize keepComments text = .error e) :
    ∃ place, e.PointsAt keepComments text place := by
  have scanned : Scan ⟨keepComments, false⟩ 0 text (stream ⟨keepComments, false⟩ text) :=
    scan_iff.2 rfl
  unfold tokenize at failed
  cases outcome : stream ⟨keepComments, false⟩ text with
  | ok lexemes =>
    rw [outcome] at failed
    cases failed
  | error failure =>
    rw [outcome] at failed scanned
    obtain rfl := Except.error.inj failed
    obtain ⟨before, c, rest, rfl, place, notBlank, notSign, fault, scan⟩ := scanned.cut
    rw [Nat.zero_add] at place
    exact ⟨_, pointsAt_ofFailure place notBlank notSign fault (tokenize_eq_ok.2 scan)⟩

/-- A text that fails behind a comment, a string on two lines and a carriage return. -/
def brokenOff : List Char :=
  "SELECT # a\n'''b\n''' \r ?x ~ y \n".toList

/-- Such a text fails in its third line, at the tenth character of it. -/
theorem tokenize_fault_brokenOff :
    ∃ e, tokenize true brokenOff = .error e ∧ e.position = ⟨3, 10⟩ ∧
      ∃ place, e.PointsAt true brokenOff place := by
  have checked : (match tokenize true brokenOff with
      | .error e => decide (e.position = ⟨3, 10⟩)
      | .ok _ => false) = true := by
    decide +kernel
  cases failed : tokenize true brokenOff with
  | ok lexemes =>
    rw [failed] at checked
    cases checked
  | error e =>
    rw [failed] at checked
    exact ⟨e, rfl, of_decide_eq_true checked, tokenize_fault failed⟩

end SparqlFormat
