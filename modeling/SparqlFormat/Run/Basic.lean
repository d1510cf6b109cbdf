import SparqlFormat.Source.Basic

/-!
# Runs

A run takes an argument to reformatted text in three stages: the query is found and read as text,
its form encoding is undone if that is asked for, and it is reformatted. The first stage that
fails ends the run, and the report names it.

`run` reports; `runOrFail` gives the text or the failure alone; `runLines` takes every line of a
byte stream for a query of its own, and a line that fails does not stop the others.
-/

namespace SparqlFormat

/-- The stages of a run. -/
inductive Stage
  | resolve
  | decode
  | reformat
  deriving DecidableEq

/-- What a run is asked to do. -/
structure Settings where
  mode : Mode
  /-- Whether form encoding is undone. -/
  decode : Bool
  deriving DecidableEq

/-- How a run ends. -/
inductive Ending
  | output (text : List Char)
  | failure (stage : Stage) (cause : Failure)
  deriving DecidableEq

/-- How a run ended, and the URI of the file that it read, if it read one. -/
structure Report where
  ending : Ending
  baseUri : Option (List Char)
  deriving DecidableEq

/-- The text or the failure that a run ended with. -/
def Ending.toExcept : Ending → Except Failure (List Char)
  | .output text => .ok text
  | .failure _ cause => .error cause

variable {m : Type → Type} [Monad m]

/-- The stages after the bytes of a query are there. -/
def runBytes (formatter : Formatter m) (settings : Settings) (data : List UInt8) : m Ending := do
  match decodeText data with
  | .error failure => pure (.failure .resolve failure)
  | .ok raw =>
    match decodeForm settings.decode raw with
    | .error failure => pure (.failure .decode failure)
    | .ok text =>
      let result ← formatter settings.mode text
      match result with
      | .ok output => pure (.output output)
      | .error rejection => pure (.failure .reformat (.rejected rejection))

/-- The run of an argument. -/
def run (access : Access m) (formatter : Formatter m) (settings : Settings)
    (argument : Argument) : m Report := do
  let fetched ← RawQuery.fetch access argument
  match fetched with
  | .error failure => pure ⟨.failure .resolve failure, none⟩
  | .ok query =>
    let ending ← runBytes formatter settings query.data
    pure ⟨ending, query.source.baseUri?⟩

/-- The run of an argument, for callers that want the text or the failure. -/
def runOrFail (access : Access m) (formatter : Formatter m) (settings : Settings)
    (argument : Argument) : m (Except Failure (List Char)) := do
  let report ← run access formatter settings argument
  pure report.ending.toExcept

/-! ## Lines -/

/-- The line feed and the carriage return, which end a line. -/
def isLineEnd (b : UInt8) : Bool :=
  b == 0x0A || b == 0x0D

/-- The blanks of ASCII. -/
def isBlankByte (b : UInt8) : Bool :=
  isLineEnd b || b == 0x09 || b == 0x0B || b == 0x0C || b == 0x20

/-- A byte stream as lines, each with the line feed that ends it. The last line may lack one, and
there is no line after the last line feed. -/
def splitLines : List UInt8 → List (List UInt8)
  | [] => []
  | b :: bs =>
    if b == 0x0A then [b] :: splitLines bs
    else
      match splitLines bs with
      | [] => [[b]]
      | line :: lines => (b :: line) :: lines

/-- A line without the line ends after it. -/
def stripLineEnd (line : List UInt8) : List UInt8 :=
  (line.reverse.dropWhile isLineEnd).reverse

/-- Runs the lines that are not blank and numbers them; `number` is that of the first. -/
def runLinesFrom (formatter : Formatter m) (settings : Settings) (number : Nat) :
    List (List UInt8) → m (List (Nat × Report))
  | [] => pure []
  | line :: lines => do
    let query := stripLineEnd line
    if query.all isBlankByte then
      runLinesFrom formatter settings (number + 1) lines
    else
      let ending ← runBytes formatter settings query
      let others ← runLinesFrom formatter settings (number + 1) lines
      pure ((number, ⟨ending, none⟩) :: others)

/-- Runs each line that is not blank as a query of its own, with line numbers from one on. -/
def runLines (formatter : Formatter m) (settings : Settings) (lines : List (List UInt8)) :
    m (List (Nat × Report)) :=
  runLinesFrom formatter settings 1 lines

end SparqlFormat
