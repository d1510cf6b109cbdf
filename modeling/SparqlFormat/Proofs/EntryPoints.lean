import Mathlib.Data.List.DropRight
import SparqlFormat.Proofs.Progress

/-!
# The entry points agree

A run can be asked for its report, for the text or the failure alone, or for the reports of the
lines of a byte stream. The formatter is pure here.

A line is run exactly as standard input would be that holds the line without its line ends
(`run_withInput`), so the reports of lines are put together from runs that know nothing of each
other (`runLines_eq`). `lineReports` numbers the lines before it leaves out the blank ones, and
whatever is proved about runs holds of lines through it.
-/

namespace SparqlFormat

/-! ## The text or the failure -/

section Ending

variable {ending : Ending}

lemma Ending.toExcept_eq_ok {text : List Char} :
    ending.toExcept = .ok text ↔ ending.output? = some text := by
  cases ending with
  | output => simp [toExcept, output?]
  | failure => simp [toExcept, output?]

lemma Ending.toExcept_eq_error {message : String} :
    (∃ cause, ending.toExcept = .error cause ∧ cause.message = message) ↔
      ending.error? = some message := by
  cases ending with
  | output => simp [toExcept, error?]
  | failure => simp [toExcept, error?]

end Ending

/-! ## One line -/

/-- Surroundings without files and with nothing on standard input. -/
def Access.bare : Access Id :=
  ⟨fun _ => false, fun _ => [], fun _ => .ok [], .ok []⟩

/-- These surroundings with other bytes on standard input. -/
def Access.withInput (a : Access Id) (data : List UInt8) : Access Id :=
  { a with inputBytes := .ok data }

/-- The report of a numbered line, if it is not blank: that of a run of standard input. -/
def lineReport? (a : Access Id) (f : Formatter Id) (settings : Settings) (line : List UInt8)
    (number : Nat) : Option (Nat × Report) :=
  if line.all isBlankByte then none
  else some (number, (run (a.withInput (stripLineEnd line)) f settings inputArgument).run)

/-- The reports of the lines that are not blank, numbered from the number given. -/
def lineReportsFrom (a : Access Id) (f : Formatter Id) (settings : Settings) (number : Nat)
    (lines : List (List UInt8)) : List (Nat × Report) :=
  (lines.zipIdx number).filterMap fun entry => lineReport? a f settings entry.1 entry.2

/-- The reports of the lines that are not blank, numbered from one on. -/
def lineReports (a : Access Id) (f : Formatter Id) (settings : Settings)
    (lines : List (List UInt8)) : List (Nat × Report) :=
  lineReportsFrom a f settings 1 lines

section Line

/-- A line is what is left of it and line ends, and what is left does not end with one. -/
lemma stripLineEnd_append (line : List UInt8) :
    ∃ ends, line = stripLineEnd line ++ ends ∧ (∀ b ∈ ends, isLineEnd b = true) ∧
      ∀ h : stripLineEnd line ≠ [], ¬ isLineEnd ((stripLineEnd line).getLast h) = true := by
  refine ⟨line.rtakeWhile isLineEnd, ?_, ?_, ?_⟩
  · exact (List.rdropWhile_append_rtakeWhile ..).symm
  · intro b mem
    exact List.mem_rtakeWhile_imp mem
  · exact List.rdropWhile_last_not isLineEnd line

/-- Line ends are blanks, so that a line is blank with them if it is blank without them. -/
lemma all_stripLineEnd (line : List UInt8) :
    (stripLineEnd line).all isBlankByte = line.all isBlankByte := by
  obtain ⟨ends, whole, areEnds, -⟩ := stripLineEnd_append line
  have blank : ends.all isBlankByte = true := by
    rw [List.all_eq_true]
    intro b mem
    rw [isBlankByte, areEnds b mem]
    rfl
  conv_rhs => rw [whole, List.all_append, blank, Bool.and_true]

variable {a : Access Id} {f : Formatter Id} {settings : Settings}

lemma run_withInput (a : Access Id) (f : Formatter Id) (settings : Settings) (data : List UInt8) :
    (run (a.withInput data) f settings inputArgument).run =
      ⟨(runBytes f settings data).run, none⟩ := by
  rfl

/-- One line: its report, if it has one, comes before those of the lines after it. -/
lemma runLinesFrom_cons (a : Access Id) (number : Nat) (line : List UInt8)
    (lines : List (List UInt8)) :
    (runLinesFrom f settings number (line :: lines)).run =
      (lineReport? a f settings line number).toList ++
        (runLinesFrom f settings (number + 1) lines).run := by
  rw [runLinesFrom, lineReport?, all_stripLineEnd, run_withInput]
  split
  · rfl
  · rfl

lemma lineReportsFrom_cons (number : Nat) (line : List UInt8) (lines : List (List UInt8)) :
    lineReportsFrom a f settings number (line :: lines) =
      (lineReport? a f settings line number).toList ++
        lineReportsFrom a f settings (number + 1) lines := by
  rw [lineReportsFrom, List.zipIdx_cons, List.filterMap_cons, lineReportsFrom]
  cases lineReport? a f settings line number <;> rfl

lemma lineReport?_add (line : List UInt8) (number shift : Nat) :
    lineReport? a f settings line (number + shift) =
      (lineReport? a f settings line number).map fun entry => (entry.1 + shift, entry.2) := by
  unfold lineReport?
  split
  · rfl
  · rfl

end Line

/-! ## All lines -/

section Lines

variable {a : Access Id} {f : Formatter Id} {settings : Settings}

lemma runLinesFrom_eq (a : Access Id) (number : Nat) (lines : List (List UInt8)) :
    (runLinesFrom f settings number lines).run = lineReportsFrom a f settings number lines := by
  induction lines generalizing number with
  | nil => rfl
  | cons line lines ih => rw [runLinesFrom_cons a, lineReportsFrom_cons, ih]

theorem runLines_eq (a : Access Id) (lines : List (List UInt8)) :
    (runLines f settings lines).run = lineReports a f settings lines :=
  runLinesFrom_eq a 1 lines

lemma lineReportsFrom_append (number : Nat) (before after : List (List UInt8)) :
    lineReportsFrom a f settings number (before ++ after) =
      lineReportsFrom a f settings number before ++
        lineReportsFrom a f settings (number + before.length) after := by
  induction before generalizing number with
  | nil => rfl
  | cons line before ih =>
    have next : number + 1 + before.length = number + (before.length + 1) := by omega
    rw [List.cons_append, lineReportsFrom_cons, ih, lineReportsFrom_cons, List.append_assoc, next]
    rfl

lemma lineReportsFrom_add (number shift : Nat) (lines : List (List UInt8)) :
    lineReportsFrom a f settings (number + shift) lines =
      (lineReportsFrom a f settings number lines).map fun entry => (entry.1 + shift, entry.2) := by
  induction lines generalizing number with
  | nil => rfl
  | cons line lines ih =>
    have next : number + shift + 1 = number + 1 + shift := by omega
    rw [lineReportsFrom_cons, lineReportsFrom_cons, List.map_append, ← ih, next, lineReport?_add,
      Option.toList_map]

/-- Later lines are reported as if they were the first ones, but for their numbers. -/
lemma lineReports_append (before after : List (List UInt8)) :
    lineReports a f settings (before ++ after) =
      lineReports a f settings before ++
        (lineReports a f settings after).map fun entry => (entry.1 + before.length, entry.2) := by
  rw [lineReports, lineReportsFrom_append, lineReportsFrom_add]
  rfl

lemma baseUri_of_mem_lineReportsFrom {number : Nat} {lines : List (List UInt8)}
    {entry : Nat × Report} (mem : entry ∈ lineReportsFrom a f settings number lines) :
    entry.2.baseUri = none := by
  obtain ⟨⟨line, place⟩, -, reported⟩ := List.mem_filterMap.1 mem
  simp only [lineReport?, run_withInput] at reported
  split at reported
  · simp at reported
  · obtain rfl := Option.some.inj reported
    rfl

end Lines

/-! ## Agreement -/

/-- What the entry points have in common, for a formatter and settings. -/
structure EntryPointsAgree (f : Formatter Id) (settings : Settings) : Prop where
  /-- The text alone is that of the report. -/
  output_iff : ∀ (a : Access Id) (argument : Argument) (text : List Char),
    (runOrFail a f settings argument).run = .ok text ↔
      (run a f settings argument).run.ending.output? = some text
  /-- The failure alone has the message of the report. -/
  error_iff : ∀ (a : Access Id) (argument : Argument) (message : String),
    (∃ cause, (runOrFail a f settings argument).run = .error cause ∧ cause.message = message) ↔
      (run a f settings argument).run.ending.error? = some message
  /-- Each line that is not blank is reported as a run of standard input, whatever the other lines
  are, and with the number of its place. -/
  lines_eq : ∀ (a : Access Id) (lines : List (List UInt8)),
    (runLines f settings lines).run = lineReports a f settings lines
  /-- No line has a URI. -/
  lines_baseUri : ∀ (lines : List (List UInt8)), ∀ entry ∈ (runLines f settings lines).run,
    entry.2.baseUri = none
  /-- What is run for a line is what comes before the line ends after it. -/
  line_stripped : ∀ line, ∃ ends, line = stripLineEnd line ++ ends ∧
    (∀ b ∈ ends, isLineEnd b = true) ∧
      ∀ h : stripLineEnd line ≠ [], ¬ isLineEnd ((stripLineEnd line).getLast h) = true
  /-- Lines after others are reported as they are by themselves, but for their numbers. -/
  lines_append : ∀ before after : List (List UInt8),
    (runLines f settings (before ++ after)).run =
      (runLines f settings before).run ++
        (runLines f settings after).run.map fun entry => (entry.1 + before.length, entry.2)
  /-- The entry points that report from memory say the same. -/
  remembered : (∀ (a : Access Id) (argument : Argument),
      stagedRun a f settings argument = run a f settings argument ∧
        stagedRunOrFail a f settings argument = runOrFail a f settings argument) ∧
    ∀ lines, stagedLines f settings lines = runLines f settings lines

/-- The entry points agree for every formatter that is a function of its arguments, and lines are
independent of each other, even where they share the memory of one run. -/
theorem entry_points_agree (f : Formatter Id) (settings : Settings) :
    EntryPointsAgree f settings where
  output_iff _ _ _ := Ending.toExcept_eq_ok
  error_iff _ _ _ := Ending.toExcept_eq_error
  lines_eq := runLines_eq
  lines_baseUri lines entry mem := by
    rw [runLines_eq .bare] at mem
    exact baseUri_of_mem_lineReportsFrom mem
  line_stripped := stripLineEnd_append
  lines_append before after := by
    rw [runLines_eq .bare, runLines_eq .bare, runLines_eq .bare, lineReports_append]
  remembered := ⟨fun a argument => ⟨stagedRun_eq f settings a argument,
    stagedRunOrFail_eq f settings a argument⟩, stagedLines_eq f settings⟩

end SparqlFormat
