import SparqlFormat.Run.Basic

/-!
# Runs that remember how far they got

`run` names the stage that fails in the place where it fails. The same reports come from runs that
stop at the first failure, whichever stage it comes from, and remember what the report has to say
beside the cause: the stage they are in, and the URI of the file that they have read (`Progress`).

Such runs start in two places, with an argument (`Staged.ofArgument`) or with bytes that are there
already (`Staged.ofBytes`). The lines of a byte stream start in the second, and all of them share
one memory: a line begins with whatever the line before left there. `Proofs/Progress` proves that
nothing of it reaches a report.
-/

namespace SparqlFormat

/-! ## What a report says -/

/-- The text that a run gave, if it gave one. -/
def Ending.output? : Ending → Option (List Char)
  | .output text => some text
  | .failure _ _ => none

/-- The message of the failure that ended a run, if one did. -/
def Ending.error? : Ending → Option String
  | .output _ => none
  | .failure _ cause => some cause.message

/-- The stage that failed, if one did. -/
def Ending.stage? : Ending → Option Stage
  | .output _ => none
  | .failure stage _ => some stage

/-! ## Runs with a memory -/

/-- How far a run got. -/
structure Progress where
  /-- The stage that the run is in, or ended in. -/
  stage : Stage
  /-- The URI of the file that was read, if one was. -/
  baseUri : Option (List Char)
  deriving DecidableEq

/-- A run that has not begun. -/
def Progress.initial : Progress :=
  ⟨.resolve, none⟩

/-- The report of a run that ended having got so far: a failure is one of the stage remembered and
comes with the URI remembered, and a text comes with the URI given. -/
def Progress.report (progress : Progress) (baseUri : Option (List Char)) :
    Except Failure (List Char) → Report
  | .ok output => ⟨.output output, baseUri⟩
  | .error cause => ⟨.failure progress.stage cause, progress.baseUri⟩

/-- Computations that stop at the first failure and remember their progress. -/
abbrev Staged (m : Type → Type) := ExceptT Failure (StateT Progress m)

variable {m : Type → Type} [Monad m]

namespace Staged

/-- A stage begins. -/
def enter (stage : Stage) : Staged m Unit :=
  modify fun progress => { progress with stage := stage }

/-- The stages after the bytes of a query are there. -/
def ofBytes (formatter : Formatter m) (settings : Settings) (data : List UInt8) :
    Staged m (List Char) := do
  enter .resolve
  let raw ← ofExcept (decodeText data)
  enter .decode
  let text ← ofExcept (decodeForm settings.decode raw)
  enter .reformat
  let result ← formatter settings.mode text
  ofExcept (result.mapError .rejected)

/-- All stages. The URI is remembered only once the file has been read. -/
def ofArgument (access : Access m) (formatter : Formatter m) (settings : Settings)
    (argument : Argument) : Staged m (List Char) := do
  enter .resolve
  let fetched ← (RawQuery.fetch access argument : m (Except Failure RawQuery))
  let query ← ofExcept fetched
  modify fun progress => { progress with baseUri := query.source.baseUri? }
  ofBytes formatter settings query.data

end Staged

/-- The run of an argument, reported from memory. -/
def stagedRun (access : Access m) (formatter : Formatter m) (settings : Settings)
    (argument : Argument) : m Report := do
  let (result, progress) ← (Staged.ofArgument access formatter settings argument).run.run .initial
  pure (progress.report progress.baseUri result)

/-- The text or the failure of a run, for callers that do not want what it remembers. -/
def stagedRunOrFail (access : Access m) (formatter : Formatter m) (settings : Settings)
    (argument : Argument) : m (Except Failure (List Char)) := do
  let (result, _) ← (Staged.ofArgument access formatter settings argument).run.run .initial
  pure result

/-- Runs the lines that are not blank and numbers them, each with the memory of the one before;
`number` is that of the first. -/
def stagedLinesFrom (formatter : Formatter m) (settings : Settings) (number : Nat)
    (progress : Progress) : List (List UInt8) → m (List (Nat × Report))
  | [] => pure []
  | line :: lines => do
    let query := stripLineEnd line
    if query.all isBlankByte then
      stagedLinesFrom formatter settings (number + 1) progress lines
    else
      let (result, progress) ← (Staged.ofBytes formatter settings query).run.run progress
      let others ← stagedLinesFrom formatter settings (number + 1) progress lines
      pure ((number, progress.report none result) :: others)

/-- Runs each line that is not blank as a query of its own, all with one memory. -/
def stagedLines (formatter : Formatter m) (settings : Settings) (lines : List (List UInt8)) :
    m (List (Nat × Report)) :=
  stagedLinesFrom formatter settings 1 .initial lines

end SparqlFormat
