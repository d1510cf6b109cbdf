import SparqlFormat.Lexeme.Class

/-!
# Names

Recognisers for prefixed names, blank node labels, variables and language tags. Each takes a
text and gives the longest name that the text starts with.

A dot may stand inside a prefix, a local name or a label but not at its end, so a run of dots
counts only if more of the name follows. `dotted` and `localTail` say this by recursion: a dot is
kept when what follows it is not empty.
-/

namespace SparqlFormat.Lexeme

/-- The longest run of name characters and dots that does not end in a dot. -/
def dotted : List Char → List Char
  | [] => []
  | c :: cs =>
    if isNameTail c then c :: dotted cs
    else if c == '.' then
      match dotted cs with
      | [] => []
      | run => c :: run
    else []

/-- The rest of a local name: name characters, colons, percent escapes, backslash escapes, and
dots that do not end it. -/
def localTail : List Char → List Char
  | [] => []
  | '%' :: h :: l :: cs => if isHex h && isHex l then '%' :: h :: l :: localTail cs else []
  | '\\' :: e :: cs => if localEscapes.contains e then '\\' :: e :: localTail cs else []
  | c :: cs =>
    if isNameTail c || c == ':' then c :: localTail cs
    else if c == '.' then
      match localTail cs with
      | [] => []
      | run => c :: run
    else []

/-- The local name at the head of a text, empty if there is none. It starts with a letter, an
underscore, a colon, a digit or an escape. -/
def localName : List Char → List Char
  | [] => []
  | '%' :: cs => localTail ('%' :: cs)
  | '\\' :: cs => localTail ('\\' :: cs)
  | c :: cs => if isLabelStart c || c == ':' then c :: localTail cs else []

/-- The part of a prefixed name before its colon: empty, or a letter followed by name characters
and dots, the last of them no dot. -/
def isPrefixPart (cs : List Char) : Bool :=
  match cs.head?, cs.getLast? with
  | some first, some last => isNameBase first && last != '.'
  | _, _ => true

/-- The prefixed name at the head of a text. No colon can stand in the part before the colon, so
that part is the whole run of name characters and dots. -/
def prefixedName? (cs : List Char) : Option (List Char) :=
  let run := cs.takeWhile fun c => isNameTail c || c == '.'
  match cs.dropWhile fun c => isNameTail c || c == '.' with
  | ':' :: rest => if isPrefixPart run then some (run ++ ':' :: localName rest) else none
  | _ => none

/-- The blank node label at the head of a text that follows an underscore and a colon. -/
def label? : List Char → Option (List Char)
  | [] => none
  | c :: cs => if isLabelStart c then some (c :: dotted cs) else none

/-- The variable name at the head of a text that follows a sigil. -/
def variableName? : List Char → Option (List Char)
  | [] => none
  | c :: cs => if isLabelStart c then some (c :: cs.takeWhile isVariableTail) else none

/-- The subtags of a language tag: hyphens, each followed by letters and digits. A hyphen counts
only if a letter or digit comes right after it. -/
def subtags : List Char → List Char
  | [] => []
  | c :: cs =>
    if isLetterOrDigit c then c :: subtags cs
    else if c == '-' && (cs.head?.map isLetterOrDigit).getD false then c :: subtags cs
    else []

/-- The language tag at the head of a text that follows the tag's sign: letters, then subtags. -/
def languageTag? (cs : List Char) : Option (List Char) :=
  match cs.takeWhile isLetter with
  | [] => none
  | primary =>
    let rest := cs.dropWhile isLetter
    some (primary ++ if rest.head? = some '-' then subtags rest else [])

/-- The keyword-like word at the head of a text. -/
def word? : List Char → Option (List Char)
  | [] => none
  | c :: cs => if isLetter c then some (c :: cs.takeWhile isWordTail) else none

end SparqlFormat.Lexeme
