import SparqlFormat.Command.Console
import SparqlFormat.Command.Options

/-!
# The command

What the command does and how it ends, as a function of its arguments and its surroundings.
Reformatted text goes to standard output and errors go to standard error, so that the output is
complete even when some line fails.

Standard input is read in two ways. A run wants all of it or none, and reports a failure as its own
(`Input.bytes`). The lines of a log are taken one at a time: what was read before a failure has
been dealt with by then, and the failure itself is handled by nobody (`Input.lines`).
-/

namespace SparqlFormat.Command

/-! ## Standard input -/

/-- What standard input gives: bytes, and after them its end or a failure. -/
structure Input where
  data : List UInt8
  failure : Option ReadError
  deriving DecidableEq

/-- All bytes, or the failure. -/
def Input.bytes (input : Input) : Except ReadError (List UInt8) :=
  match input.failure with
  | none => .ok input.data
  | some error => .error error

/-- Whether the last byte of a line is its line feed. -/
def isComplete (line : List UInt8) : Bool :=
  line.getLast? == some 0x0A

/-- The lines that are read. A line that a failure cuts short is lost. -/
def Input.lines (input : Input) : List (List UInt8) :=
  match input.failure with
  | none => splitLines input.data
  | some _ => (splitLines input.data).filter isComplete

/-! ## What the command does -/

/-- The exit code after the usage is shown. -/
def usageCode : Nat := 1

/-- The exit code after an error. -/
def failureCode : Nat := 2

/-- The name of the command. -/
def programName : String := "sparql-lint"

/-- How the command is used, line by line. -/
def usageLines : List String :=
  ["Usage: " ++ programName ++ " [-c] [-d] [-l] QUERY_FILE_OR_STRING",
    "  -c  one-line output;  -d  URL-decode first;  -l  read one query per line from stdin"]

/-- The ending of a run is printed: its text, or its error; `origin` goes before the message. -/
def echoEnding (origin : String) : Ending → Act
  | .output text => .echo .out text
  | .failure _ cause => .echo .err ("Error: " ++ origin ++ cause.message).toList

/-- Whether a run failed. -/
def isFailure : Ending → Bool
  | .output _ => false
  | .failure _ _ => true

/-- The exit code of runs of which some may have failed. -/
def exitCodeOf (endings : List Ending) : Nat :=
  if endings.any isFailure then failureCode else 0

/-- The usage is shown. -/
def ofUsage (options : Options) : Outcome where
  verbose := options.verbose
  acts := usageLines.map fun line => .echo .out line.toList
  exit := .code usageCode

/-- One query is run. -/
def ofEnding (options : Options) (ending : Ending) : Outcome where
  verbose := options.verbose
  acts := [.debug ("Options: " ++ options.shown), .run 0, echoEnding "" ending]
  exit := .code (exitCodeOf [ending])

/-- The run of a numbered line. -/
def lineActs (entry : Nat × Report) : List Act :=
  [.run entry.1, echoEnding ("line " ++ toString entry.1 ++ ": ") entry.2.ending]

/-- How many lines failed, if any did. -/
def summary (endings : List Ending) : List Act :=
  match endings.countP isFailure with
  | 0 => []
  | failed => [.debug (toString failed ++ " line(s) could not be reformatted")]

/-- Numbered lines are run, and after them standard input ends or fails. -/
def ofLines (options : Options) (failure : Option ReadError) (reports : List (Nat × Report)) :
    Outcome :=
  let endings := reports.map fun entry => entry.2.ending
  let acts := .debug "Reading one query per line from standard input" :: reports.flatMap lineActs
  match failure with
  | none => ⟨options.verbose, acts ++ summary endings, .code (exitCodeOf endings)⟩
  | some error => ⟨options.verbose, acts, .uncaught error⟩

end Command

variable {m : Type → Type} [Monad m]

/-- These surroundings with another standard input. -/
def Access.reading (access : Access m) (input : m Command.Input) : Access m :=
  { access with inputBytes := Command.Input.bytes <$> input }

namespace Command

/-- The outcome of running every line of standard input. -/
def runInputLines (input : m Input) (formatter : Formatter m) (options : Options) :
    m Outcome := do
  let read ← input
  let reports ← runLines formatter options.settings read.lines
  pure (ofLines options read.failure reports)

/-- The outcome of the command. -/
def execute (access : Access m) (input : m Input) (formatter : Formatter m)
    (args : List Argument) : m Outcome := do
  let options := Options.ofArguments args
  match options.showHelp, options.argument with
  | false, some argument =>
    if options.lines then
      runInputLines input formatter options
    else
      let report ← run (access.reading input) formatter options.settings argument
      pure (ofEnding options report.ending)
  | _, _ => pure (ofUsage options)

end SparqlFormat.Command
