import Mathlib.Data.List.Basic
import SparqlFormat.Command.Basic

/-!
# The lines of standard input

`LinesOf` says what the lines of a byte stream are, and `CompleteLinesOf` what is left of them if
the stream fails where it ends; neither says how a byte stream is cut. `Input.Gives` puts the two
together: the lines that are read are all lines, or, before a failure, the complete ones.
-/

namespace SparqlFormat.Command

/-- The lines of a byte stream, each with the line feed that ends it; the last one may lack it, but
is not empty then. -/
inductive LinesOf : List UInt8 → List (List UInt8) → Prop
  | nil : LinesOf [] []
  | last {line : List UInt8} : line ≠ [] → 0x0A ∉ line → LinesOf line [line]
  | cons {line data : List UInt8} {lines : List (List UInt8)} : 0x0A ∉ line →
      LinesOf data lines → LinesOf (line ++ 0x0A :: data) ((line ++ [0x0A]) :: lines)

section SplitLines

variable {line data : List UInt8} {lines : List (List UInt8)}

/-- A byte that is no line feed belongs to the first line. -/
lemma splitLines_cons {b : UInt8} (h : b ≠ 0x0A) (next : splitLines data = line :: lines) :
    splitLines (b :: data) = (b :: line) :: lines := by
  simp [splitLines, h, next]

lemma splitLines_append (noFeed : 0x0A ∉ line) (data : List UInt8) :
    splitLines (line ++ 0x0A :: data) = (line ++ [0x0A]) :: splitLines data := by
  induction line with
  | nil => rfl
  | cons b line ih =>
    obtain ⟨notFeed, noFeed⟩ := not_or.1 (List.mem_cons.not.1 noFeed)
    exact splitLines_cons (Ne.symm notFeed) (ih noFeed)

lemma splitLines_last (notNil : line ≠ []) (noFeed : 0x0A ∉ line) : splitLines line = [line] := by
  induction line with
  | nil => exact absurd rfl notNil
  | cons b line ih =>
    obtain ⟨notFeed, noFeed⟩ := not_or.1 (List.mem_cons.not.1 noFeed)
    cases line with
    | nil => simp [splitLines, Ne.symm notFeed]
    | cons => exact splitLines_cons (Ne.symm notFeed) (ih (by simp) noFeed)

/-- One byte more: a line of its own if it is a line feed, and else a part of the first line. -/
lemma LinesOf.cons_byte (b : UInt8) (h : LinesOf data lines) :
    ∃ lines', LinesOf (b :: data) lines' := by
  by_cases isFeed : b = 0x0A
  · subst isFeed
    exact ⟨_, .cons List.not_mem_nil h⟩
  cases h with
  | nil =>
    have noFeed : 0x0A ∉ [b] := by simpa using Ne.symm isFeed
    exact ⟨_, .last (by simp) noFeed⟩
  | last _ noFeed =>
    exact ⟨_, .last (by simp) (List.not_mem_cons_of_ne_of_not_mem (Ne.symm isFeed) noFeed)⟩
  | cons noFeed others =>
    exact ⟨_, .cons (List.not_mem_cons_of_ne_of_not_mem (Ne.symm isFeed) noFeed) others⟩

lemma exists_linesOf (data : List UInt8) : ∃ lines, LinesOf data lines := by
  induction data with
  | nil => exact ⟨[], .nil⟩
  | cons b data ih =>
    obtain ⟨lines, split⟩ := ih
    exact split.cons_byte b

lemma LinesOf.splitLines_eq (h : LinesOf data lines) : splitLines data = lines := by
  induction h with
  | nil => rfl
  | last notNil noFeed => exact splitLines_last notNil noFeed
  | cons noFeed _ ih => rw [splitLines_append noFeed, ih]

/-- A byte stream is cut into its lines. -/
theorem splitLines_eq_iff : splitLines data = lines ↔ LinesOf data lines := by
  constructor
  · rintro rfl
    obtain ⟨lines, split⟩ := exists_linesOf data
    rwa [split.splitLines_eq]
  · exact LinesOf.splitLines_eq

end SplitLines

/-! ## Standard input that fails -/

/-- The lines of a byte stream that end with a line feed; what comes behind the last of them is no
line. -/
inductive CompleteLinesOf : List UInt8 → List (List UInt8) → Prop
  | rest {rest : List UInt8} : 0x0A ∉ rest → CompleteLinesOf rest []
  | cons {line data : List UInt8} {lines : List (List UInt8)} : 0x0A ∉ line →
      CompleteLinesOf data lines →
        CompleteLinesOf (line ++ 0x0A :: data) ((line ++ [0x0A]) :: lines)

/-- The lines that are read of standard input. -/
inductive Input.Gives : Input → List (List UInt8) → Prop
  | all {data : List UInt8} {lines : List (List UInt8)} : LinesOf data lines →
      Gives ⟨data, none⟩ lines
  | before {data : List UInt8} {error : ReadError} {lines : List (List UInt8)} :
      CompleteLinesOf data lines → Gives ⟨data, some error⟩ lines

section Complete

variable {line data : List UInt8} {lines : List (List UInt8)}

lemma isComplete_append_feed (line : List UInt8) : isComplete (line ++ [0x0A]) = true := by
  simp [isComplete]

lemma isComplete_eq_false (noFeed : 0x0A ∉ line) : isComplete line = false := by
  rw [isComplete, beq_eq_false_iff_ne]
  intro last
  exact noFeed (List.mem_of_getLast? last)

/-- Only the last line may be incomplete. -/
lemma LinesOf.complete (h : LinesOf data lines) :
    CompleteLinesOf data (lines.filter isComplete) := by
  induction h with
  | nil => exact .rest List.not_mem_nil
  | last _ noFeed =>
    rw [List.filter_cons_of_neg (by simp [isComplete_eq_false noFeed])]
    exact .rest noFeed
  | cons noFeed _ ih =>
    rw [List.filter_cons_of_pos (isComplete_append_feed _)]
    exact .cons noFeed ih

lemma CompleteLinesOf.filter_splitLines (h : CompleteLinesOf data lines) :
    (splitLines data).filter isComplete = lines := by
  induction h with
  | @rest rest noFeed =>
    by_cases isNil : rest = []
    · subst isNil
      rfl
    · rw [splitLines_last isNil noFeed]
      exact List.filter_cons_of_neg (by simp [isComplete_eq_false noFeed])
  | cons noFeed _ ih =>
    rw [splitLines_append noFeed, List.filter_cons_of_pos (isComplete_append_feed _), ih]

theorem Input.lines_eq_iff {input : Input} : input.lines = lines ↔ input.Gives lines := by
  obtain ⟨data, failure⟩ := input
  cases failure with
  | none =>
    constructor
    · intro cut
      exact .all (splitLines_eq_iff.1 cut)
    · rintro (⟨split⟩ | _)
      exact splitLines_eq_iff.2 split
  | some error =>
    constructor
    · rintro rfl
      exact .before (splitLines_eq_iff.1 rfl).complete
    · rintro (_ | ⟨split⟩)
      exact split.filter_splitLines

end Complete

end SparqlFormat.Command
