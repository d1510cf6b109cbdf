import SparqlFormat.Source.Access

/-!
# Files as values

Two ways to hold files in memory, each with the operations of an `Access`.

* A `Shelf` is a table of names with their contents. A name is looked up as it is written.
* A `Tree` is a snapshot of a file system: a working directory and what lies at each place.
  A path is followed component by component, through directories only.
-/

namespace SparqlFormat

/-! ## Tables of names -/

/-- Contents by name, and names whose contents cannot be read. -/
structure Shelf where
  contents : List (Argument × List UInt8)
  unreadable : List Argument
  /-- What the URI of a name starts with. -/
  uriStart : List Char

namespace Shelf

/-- Whether a name is on the shelf. -/
def has (s : Shelf) (name : Argument) : Bool :=
  (s.contents.lookup name).isSome || s.unreadable.contains name

/-- The contents of a name. -/
def read (s : Shelf) (name : Argument) : Except ReadError (List UInt8) :=
  if s.unreadable.contains name then .error (.accessDenied name)
  else
    match s.contents.lookup name with
    | some data => .ok data
    | none => .error (.failed "no such name")

/-- The operations on a shelf, with a given standard input. -/
def access (s : Shelf) (input : Except ReadError (List UInt8)) : Access Id where
  fileExists name := s.has name
  baseUri name := s.uriStart ++ name.shown
  fileBytes name := s.read name
  inputBytes := input

end Shelf

/-! ## Directory trees -/

/-- What lies at a place. -/
inductive Entry
  | file (data : List UInt8)
  | directory
  deriving DecidableEq

/-- A working directory and the entries of a file system, by their components from the root on.
The directories above an entry are there without an entry of their own. -/
structure Tree where
  here : Path
  entries : List (List Argument × Entry)

namespace Tree

/-- What lies at a place given by its components from the root on. -/
def entryAt? (t : Tree) (place : List Argument) : Option Entry :=
  match t.entries.lookup place with
  | some entry => some entry
  | none => if t.entries.any fun e => place.isPrefixOf e.1 then some .directory else none

/-- The place one component further: a directory is left upwards by a double dot and downwards
by the name of an entry. -/
def descend (t : Tree) (place : List Argument) (component : Argument) : Option (List Argument) :=
  if t.entryAt? place != some .directory then none
  else if component == Path.dotDot then some place.dropLast
  else
    let next := place ++ [component]
    if (t.entryAt? next).isSome then some next else none

/-- The place that a path leads to. -/
def follow? (t : Tree) (p : Path) : Option (List Argument) :=
  let start := if p.root == .relative then t.here.components else []
  p.components.foldl (fun place c => place.bind fun q => t.descend q c) (some start)

/-- The most bytes that a path may have. -/
def pathLimit : Nat := 4095

/-- What a path leads to; a path that is too long leads nowhere. -/
def find? (t : Tree) (p : Path) : Option Entry :=
  if pathLimit < p.toArgument.bytes.length then none else (t.follow? p).bind t.entryAt?

/-- The contents of the file at a path. -/
def read (t : Tree) (p : Path) : Except ReadError (List UInt8) :=
  match t.find? p with
  | some (.file data) => .ok data
  | some .directory => .error (.isDirectory p.toArgument)
  | none => .error (.failed "no such file")

/-- The operations on a tree, with a given standard input. -/
def access (t : Tree) (input : Except ReadError (List UInt8)) : Access Id where
  fileExists a := (t.find? (Path.ofArgument a)).isSome
  baseUri a := Path.fileUri t.here (Path.ofArgument a)
  fileBytes a := t.read (Path.ofArgument a)
  inputBytes := input

/-- A working directory with the given files and directories in it, in an otherwise bare file
system that has the empty file `/dev/null`. -/
def ofDirectory (here : Path) (files : List (Argument × List UInt8)) (dirs : List Argument) :
    Tree where
  here := here
  entries :=
    (files.map fun f => (here.components ++ (Path.ofArgument f.1).components, .file f.2)) ++
      (dirs.map fun d => (here.components ++ (Path.ofArgument d).components, .directory)) ++
      [(here.components, .directory),
       ([.ofText "dev".toList, .ofText "null".toList], .file [])]

end Tree

end SparqlFormat
