import SparqlFormat.Reformat
import SparqlFormat.Source.Path

/-!
# What a run asks of its surroundings

Files and standard input are reached through a record of operations (`Access`) in some monad, and
so is the formatter at the end of a run. A program supplies real ones; a `Trace` supplies pure
ones and records what was asked, in order.
-/

namespace SparqlFormat

/-- Why bytes could not be read. -/
inductive ReadError
  | isDirectory (path : Argument)
  | accessDenied (path : Argument)
  | deviceFailed
  | failed (description : String)
  deriving DecidableEq

/-- A path between quotation marks. -/
def quotedPath (path : Argument) : String :=
  String.ofList (Quoted.quote path.shown)

/-- The error as it is reported, with its number. -/
def ReadError.message : ReadError → String
  | .isDirectory path => "[Errno 21] Is a directory: " ++ quotedPath path
  | .accessDenied path => "[Errno 13] Permission denied: " ++ quotedPath path
  | .deviceFailed => "[Errno 5] Input/output error"
  | .failed description => description

/-- Files and standard input. -/
structure Access (m : Type → Type) where
  /-- Whether something is reachable at a path. -/
  fileExists : Argument → m Bool
  /-- The URI of a path. -/
  baseUri : Argument → m (List Char)
  /-- The bytes at a path. -/
  fileBytes : Argument → m (Except ReadError (List UInt8))
  /-- The bytes of standard input. -/
  inputBytes : m (Except ReadError (List UInt8))

/-- An operation that reformats a text in a mode. -/
abbrev Formatter (m : Type → Type) := Mode → List Char → m (Except Rejection (List Char))

/-- The formatter of this library, with or without a check of the text. -/
def Formatter.standard {m : Type → Type} [Monad m] (checker? : Option Checker) : Formatter m :=
  fun mode text => pure (reformat checker? mode text)

/-! ## Traces -/

/-- One request to the surroundings. -/
inductive Request
  | fileExists (path : Argument)
  | baseUri (path : Argument)
  | fileBytes (path : Argument)
  | inputBytes
  | reformat (mode : Mode) (text : List Char)
  deriving DecidableEq

/-- A computation that records its requests. -/
abbrev Trace := StateM (List Request)

/-- Adds a request to the record and gives its answer. -/
def Trace.answer {α : Type} (r : Request) (a : α) : Trace α :=
  fun record => (a, record ++ [r])

/-- Pure operations with every request recorded. -/
def Access.traced (a : Access Id) : Access Trace where
  fileExists path := Trace.answer (.fileExists path) (a.fileExists path)
  baseUri path := Trace.answer (.baseUri path) (a.baseUri path)
  fileBytes path := Trace.answer (.fileBytes path) (a.fileBytes path)
  inputBytes := Trace.answer .inputBytes a.inputBytes

/-- A pure formatter with every request recorded. -/
def Formatter.traced (f : Formatter Id) : Formatter Trace :=
  fun mode text => Trace.answer (.reformat mode text) (f mode text)

/-- A computation with the requests it made. -/
def Trace.record {α : Type} (t : Trace α) : α × List Request :=
  t []

end SparqlFormat
