import SparqlFormat.Run.Basic

/-!
# Command line options

Flags come first: they are read up to the first argument that is a double hyphen or does not
start with a hyphen. A flag that is not known is passed over. Whatever the flags, the last
argument is the query, even if it was read as a flag as well.
-/

namespace SparqlFormat.Command

/-- What the arguments ask for. -/
structure Options where
  mode : Mode
  /-- Whether form encoding is undone. -/
  decode : Bool
  /-- Whether standard input holds one query on each line. -/
  lines : Bool
  /-- Whether progress is logged. -/
  verbose : Bool
  showHelp : Bool
  /-- The last argument. -/
  argument : Option Argument
  deriving DecidableEq

/-- The options before any argument is read. -/
def Options.default : Options :=
  ⟨.pretty, false, false, false, false, none⟩

/-- The options that a run looks at. -/
def Options.settings (o : Options) : Settings :=
  ⟨o.mode, o.decode⟩

/-- The name of a mode. -/
def modeName : Mode → String
  | .pretty => "pretty"
  | .concise => "concise"

/-- The options that a run looks at, as they are logged. -/
def Options.shown (o : Options) : String :=
  "mode=" ++ modeName o.mode ++ " decode=" ++ if o.decode then "True" else "False"

/-- A flag as an argument. -/
def flag (s : String) : Argument :=
  .ofText s.toList

/-- Whether an argument ends the flags. -/
def endsFlags (a : Argument) : Bool :=
  a == flag "--" || a.head? != some (.char '-')

/-- The options with one flag more. -/
def Options.withFlag (o : Options) (a : Argument) : Options :=
  if a = flag "-c" then { o with mode := .concise }
  else if a = flag "-d" then { o with decode := true }
  else if a = flag "-l" then { o with lines := true }
  else if a = flag "-v" then { o with verbose := true }
  else if a = flag "--help" then { o with showHelp := true }
  else o

/-- The arguments that are read as flags. -/
def flagsOf (args : List Argument) : List Argument :=
  args.takeWhile fun a => !endsFlags a

/-- The options that a list of arguments asks for. -/
def Options.ofArguments (args : List Argument) : Options :=
  { (flagsOf args).foldl Options.withFlag .default with argument := args.getLast? }

end SparqlFormat.Command
