import SparqlFormat.Source.Access
import SparqlFormat.Text.FormEncoding

/-!
# Where a query comes from

An argument is a query file, standard input, or the query itself. The lone hyphen is standard
input; of the rest, whatever can be reached as a path is a file, and only what cannot is taken for
the text of a query.
-/

namespace SparqlFormat

/-- Why a run fails. -/
inductive Failure
  /-- The file named by the argument cannot be read. -/
  | unreadableFile (name : Argument) (error : ReadError)
  /-- Standard input cannot be read. -/
  | unreadableInput (error : ReadError)
  /-- The argument names no file and is no text. -/
  | argumentNotText
  /-- The bytes of the query are no text. -/
  | illFormed (error : Utf8.DecodeError)
  /-- The query is not properly form-encoded. -/
  | undecodable (fault : FormEncoding.Fault)
  /-- The formatter rejects the query. -/
  | rejected (rejection : Rejection)
  deriving DecidableEq

/-- The failure as it is reported. -/
def Failure.message : Failure → String
  | .unreadableFile name error =>
    "Failed to read query file " ++ String.ofList name.shown ++ ": " ++ error.message
  | .unreadableInput error => "Failed to read query from standard input: " ++ error.message
  | .argumentNotText => "Could not interpret SPARQL query string as UTF-8"
  | .illFormed error => "Failed to decode SPARQL query as UTF-8: " ++ error.message
  | .undecodable fault => "Failed to URL percent decode SPARQL query: " ++ fault.message
  | .rejected rejection => rejection.message

/-- Where a query comes from. -/
inductive Source
  | file (path : Argument) (baseUri : List Char)
  | literal (text : List Char)
  | input
  deriving DecidableEq

/-- The bytes of a query and where they come from. -/
structure RawQuery where
  source : Source
  data : List UInt8
  deriving DecidableEq

/-- The URI that the names of a query are relative to; only a file has one. -/
def Source.baseUri? : Source → Option (List Char)
  | .file _ uri => some uri
  | _ => none

/-- The argument that stands for standard input. -/
def inputArgument : Argument := .ofText ['-']

/-- Decides where the query of an argument comes from. -/
def Source.of {m : Type → Type} [Monad m] (access : Access m) (argument : Argument) :
    m (Except Failure Source) := do
  if argument = inputArgument then
    pure (.ok .input)
  else
    let reachable ← access.fileExists argument
    if reachable then
      let uri ← access.baseUri argument
      pure (.ok (.file argument uri))
    else
      match argument.text? with
      | some text => pure (.ok (.literal text))
      | none => pure (.error .argumentNotText)

/-- The bytes of a source. -/
def Source.read {m : Type → Type} [Monad m] (access : Access m) (source : Source) :
    m (Except Failure (List UInt8)) := do
  match source with
  | .file path _ =>
    let result ← access.fileBytes path
    pure (result.mapError (.unreadableFile path))
  | .input =>
    let result ← access.inputBytes
    pure (result.mapError .unreadableInput)
  | .literal text => pure (.ok (Utf8.encode text))

/-- The bytes of the query of an argument. -/
def RawQuery.fetch {m : Type → Type} [Monad m] (access : Access m) (argument : Argument) :
    m (Except Failure RawQuery) := do
  let found ← Source.of access argument
  match found with
  | .error failure => pure (.error failure)
  | .ok source =>
    let result ← source.read access
    pure (result.map fun data => ⟨source, data⟩)

/-- The text that bytes encode. -/
def decodeText (data : List UInt8) : Except Failure (List Char) :=
  (Utf8.decode data).mapError .illFormed

/-- A text with its form encoding undone, if that is asked for. -/
def decodeForm (enabled : Bool) (text : List Char) : Except Failure (List Char) :=
  if enabled then (FormEncoding.decode (.ofText text)).mapError .undecodable else .ok text

end SparqlFormat
