import SparqlFormat.Source.Access

/-!
# Consoles

The command does not write bytes. It prints messages as lines on one of its two streams, and it
logs what it is doing. What becomes of a message is up to a `Console`: one that is no terminal
takes out of it the sequences that would have coloured it or moved a cursor (`stripAnsi`).

What the command did is a list of acts (`Act`), in order, and how it ended (`Exit`).
-/

namespace SparqlFormat.Command

/-- The streams that the command writes to. -/
inductive Stream
  | out
  | err
  deriving DecidableEq

/-- What the command does that may show on a stream. -/
inductive Act
  /-- A message is printed as a line. -/
  | echo (stream : Stream) (message : List Char)
  /-- A message is logged for those who asked for progress. -/
  | debug (message : String)
  /-- A query is run: the one there is (zero), or that of a numbered line. -/
  | run (number : Nat)
  deriving DecidableEq

/-- How the command ends. -/
inductive Exit
  /-- It exits with a code. -/
  | code (n : Nat)
  /-- Nothing handles an error, and the program dies of it. -/
  | uncaught (error : ReadError)
  deriving DecidableEq

/-- The code that the operating system is given. -/
def Exit.status : Exit → Nat
  | .code n => n
  | .uncaught _ => 1

/-- What the command leaves behind. -/
structure Outcome where
  /-- Whether progress is logged. -/
  verbose : Bool
  acts : List Act
  exit : Exit
  deriving DecidableEq

/-- A message, if it is printed on a stream. -/
def Act.messageOn? (stream : Stream) : Act → Option (List Char)
  | .echo on message => if on = stream then some message else none
  | _ => none

/-- The messages printed on a stream. -/
def Outcome.printed (stream : Stream) (o : Outcome) : List (List Char) :=
  o.acts.filterMap (Act.messageOn? stream)

/-- What is written for what the command does. -/
structure Console where
  /-- A message printed as a line. -/
  echo : Stream → List Char → List Char
  /-- A message logged. -/
  log : String → List Char
  /-- What the stages of a run, and what they rest on, have to say of it; the first argument tells
  whether progress is logged. -/
  runLog : Bool → Nat → List Char
  /-- An error that nothing handles. -/
  traceback : ReadError → List Char

namespace Console

/-- What an act writes to a stream. Logs go to standard error. -/
def write (c : Console) (verbose : Bool) (stream : Stream) : Act → List Char
  | .echo on message => if on = stream then c.echo on message else []
  | .debug message => if verbose && stream = .err then c.log message else []
  | .run number => if stream = .err then c.runLog verbose number else []

/-- What is written to standard output. -/
def stdout (c : Console) (o : Outcome) : List Char :=
  o.acts.flatMap (c.write o.verbose .out)

/-- What the end of the command writes to standard error. -/
def writeExit (c : Console) : Exit → List Char
  | .code _ => []
  | .uncaught error => c.traceback error

/-- What is written to standard error. -/
def stderr (c : Console) (o : Outcome) : List Char :=
  o.acts.flatMap (c.write o.verbose .err) ++ c.writeExit o.exit

end Console

/-! ## Terminals and other consoles -/

/-- The character that control sequences start with. -/
def escape : Char := '\x1b'

/-- The characters between the bracket of a control sequence and its letter. -/
def isParameter (c : Char) : Bool :=
  c == ';' || c == '?' || c.isDigit

/-- The length of what follows the escape character in a control sequence, if these characters
start with that: a bracket, parameters and a letter. -/
def controlLength? : List Char → Option Nat
  | '[' :: cs =>
    match cs.dropWhile isParameter with
    | c :: _ => if c.isAlpha then some ((cs.takeWhile isParameter).length + 2) else none
    | [] => none
  | _ => none

/-- A text without its control sequences; the first `skip` characters belong to one. -/
def stripFrom : Nat → List Char → List Char
  | _, [] => []
  | skip + 1, _ :: cs => stripFrom skip cs
  | 0, c :: cs =>
    if c = escape then
      match controlLength? cs with
      | some n => stripFrom n cs
      | none => c :: stripFrom 0 cs
    else c :: stripFrom 0 cs

/-- A text without its control sequences. -/
def stripAnsi (text : List Char) : List Char :=
  stripFrom 0 text

/-- A console of which some streams may be terminals: only those are sent control sequences. -/
def Console.ofTerminals (isTerminal : Stream → Bool) : Console where
  echo stream message := (if isTerminal stream then message else stripAnsi message) ++ ['\n']
  log message := ("DEBUG: " ++ message ++ "\n").toList
  runLog _ _ := []
  traceback error := (error.message ++ "\n").toList

end SparqlFormat.Command
