import SparqlFormat.Command.Basic

/-!
# The program

Runs the command on real files and real standard input, writes what it leaves behind and exits
with its code.
-/

namespace SparqlFormat

/-- The name of a path for the operating system; none if a byte of it is part of no character. -/
def pathName? (path : Argument) : Option String :=
  (Path.ofArgument path).toArgument.text?.map String.ofList

/-- The cause of a failed operation on a path. -/
def ReadError.ofSystem (path : Argument) : IO.Error → ReadError
  | .inappropriateType .. => .isDirectory (Path.ofArgument path).toArgument
  | .permissionDenied .. => .accessDenied (Path.ofArgument path).toArgument
  | error => .failed (toString error)

/-- Whether something is reachable at a path. -/
def pathExists (path : Argument) : IO Bool := do
  match pathName? path with
  | none => pure false
  | some name =>
    try
      let _ ← IO.FS.realPath name
      pure true
    catch _ => pure false

/-- The bytes of the file at a path. -/
def readPath (path : Argument) : IO (Except ReadError (List UInt8)) := do
  match pathName? path with
  | none => pure (.error (.failed "no such file"))
  | some name =>
    try
      let data ← IO.FS.readBinFile name
      pure (.ok data.toList)
    catch error => pure (.error (.ofSystem path error))

/-- What standard input gives, up to its end or a failure. -/
def readStandardInput : IO Command.Input := do
  let stream ← IO.getStdin
  let mut data := ByteArray.empty
  let mut failure := none
  let mut more := true
  while more do
    try
      let bytes ← stream.read 65536
      data := data ++ bytes
      more := !bytes.isEmpty
    catch _ =>
      failure := some .deviceFailed
      more := false
  pure ⟨data.toList, failure⟩

/-- Real files. -/
def Access.real : Access IO where
  fileExists := pathExists
  baseUri path := do
    let here ← IO.currentDir
    pure (Path.fileUri (Path.ofArgument (.ofText here.toString.toList)) (Path.ofArgument path))
  fileBytes := readPath
  inputBytes := Command.Input.bytes <$> readStandardInput

/-- The streams of the program as a console. -/
def Command.Console.real : IO Command.Console := do
  let outIsTerminal ← (← IO.getStdout).isTty
  let errIsTerminal ← (← IO.getStderr).isTty
  pure (.ofTerminals fun stream => if stream = .out then outIsTerminal else errIsTerminal)

end SparqlFormat

/-- Runs the command. -/
def main (args : List String) : IO UInt32 := do
  let outcome ← SparqlFormat.Command.execute SparqlFormat.Access.real SparqlFormat.readStandardInput
    (SparqlFormat.Formatter.standard (some SparqlFormat.Checker.grammar))
    (args.map fun a => SparqlFormat.Argument.ofText a.toList)
  let console ← SparqlFormat.Command.Console.real
  let out ← IO.getStdout
  out.putStr (String.ofList (console.stdout outcome))
  out.flush
  let err ← IO.getStderr
  err.putStr (String.ofList (console.stderr outcome))
  err.flush
  pure outcome.exit.status.toUInt32
