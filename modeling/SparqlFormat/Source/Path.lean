import SparqlFormat.Text.Argument
import SparqlFormat.Text.Quoted

/-!
# Paths and their URIs

A path is its leading slashes and its components. Reading one drops empty components and single
dots, so that repeated and trailing slashes do not matter; double dots stay, since what they mean
depends on the directory before them. Two leading slashes are kept apart from one; three or more
count as one.

A file URI holds every byte of the absolute path, percent-encoded unless it is a letter, a
digit, one of `_.-~` or a slash.
-/

namespace SparqlFormat

/-- The start of a path. -/
inductive PathRoot
  | relative
  | slash
  | doubleSlash
  deriving DecidableEq

/-- A path without empty components and single dots. -/
structure Path where
  root : PathRoot
  components : List Argument
  deriving DecidableEq

namespace Path

/-- The unit between components. -/
def separator : ArgumentUnit := .char '/'

/-- An argument cut at its slashes; there is always at least one piece. -/
def pieces : Argument → List Argument
  | [] => [[]]
  | u :: rest =>
    if u == separator then [] :: pieces rest
    else
      match pieces rest with
      | [] => [[u]]
      | p :: ps => (u :: p) :: ps

/-- The component that names the directory itself. -/
def dot : Argument := .ofText ['.']

/-- The component that names the directory above. -/
def dotDot : Argument := .ofText ['.', '.']

/-- How an argument starts. -/
def rootOf (a : Argument) : PathRoot :=
  match (a.takeWhile fun u => u == separator).length with
  | 0 => .relative
  | 2 => .doubleSlash
  | _ => .slash

/-- An argument read as a path. -/
def ofArgument (a : Argument) : Path where
  root := rootOf a
  components := (pieces a).filter fun p => !p.isEmpty && p != dot

/-- The slashes before the first component. -/
def rootUnits : PathRoot → Argument
  | .relative => []
  | .slash => [separator]
  | .doubleSlash => [separator, separator]

/-- Components with a slash between them. -/
def join : List Argument → Argument
  | [] => []
  | [c] => c
  | c :: cs => c ++ separator :: join cs

/-- A path as an argument; the path without components is the dot. -/
def toArgument (p : Path) : Argument :=
  if p.root == .relative && p.components.isEmpty then dot
  else rootUnits p.root ++ join p.components

/-- A path from the root on, seen from a working directory. -/
def absolute (here : Path) (p : Path) : Path :=
  if p.root == .relative then { here with components := here.components ++ p.components } else p

/-! ## File URIs -/

/-- Whether a byte stands for itself in a file URI. -/
def isPlainByte (b : UInt8) : Bool :=
  let n := b.toNat
  (decide (0x41 ≤ n) && decide (n ≤ 0x5A)) || (decide (0x61 ≤ n) && decide (n ≤ 0x7A)) ||
    (decide (0x30 ≤ n) && decide (n ≤ 0x39)) || n == 0x5F || n == 0x2E || n == 0x2D ||
    n == 0x7E || n == 0x2F

/-- A byte in a file URI. -/
def uriByte (b : UInt8) : List Char :=
  if isPlainByte b then [Char.ofNat b.toNat] else '%' :: upperHexByte b

/-- The file URI of a path, seen from a working directory. -/
def fileUri (here : Path) (p : Path) : List Char :=
  "file://".toList ++ (absolute here p).toArgument.bytes.flatMap uriByte

end Path

end SparqlFormat
