import SparqlFormat.Layout.Basic

/-!
# The layouts as passes

`Layout.pretty` and `Layout.concise` decide each gap at once. The same layouts come from passes over
segments: texts, spaces and line breaks. First every token emits its segments (`emit`), and a token
does not know what the one before it left behind, so white space may pile up between two texts.
Each layout then has its own way to clear it.

The many-line layout breaks lines after calls (`breakLines`), and then looks ahead by one segment
(`collapse`): of white space, only the last line break is kept, or the space if there is no line
break. The one-line layout turns segments into those of a line one by one (`Segment.flat`) and
keeps a stack of what it has put down (`push`): a line break takes the spaces before it away, and a
space is put only on a text.

White space at the two ends goes in both.
-/

namespace SparqlFormat.Layout

/-- A segment of laid-out text. -/
inductive Segment
  | text (cs : List Char)
  | space
  /-- A new line, indented by so many levels. -/
  | line (level : Int)
  deriving DecidableEq

namespace Segment

/-- Whether a segment is white space. -/
def isWhite : Segment → Bool
  | .text _ => false
  | _ => true

/-- Whether a segment is a space. -/
def isSpace : Segment → Bool
  | .space => true
  | _ => false

/-- The characters of a text; white space has none that a rule looks at. -/
def body : Segment → List Char
  | .text cs => cs
  | _ => []

/-- The characters of a segment, given one level of indentation. -/
def render (indent : List Char) : Segment → List Char
  | .text cs => cs
  | .space => Gap.space.render indent
  | .line level => (Gap.line level).render indent

end Segment

/-- The characters of a row of segments. -/
def renderSegments (indent : List Char) (segments : List Segment) : List Char :=
  segments.flatMap (Segment.render indent)

/-- The segment that a gap is, if it is not empty. -/
def Gap.segments : Gap → List Segment
  | .touch => []
  | .space => [.space]
  | .line level => [.line level]

@[simp] theorem Gap.segments_touch : Gap.touch.segments = [] := rfl

@[simp] theorem Gap.segments_space : Gap.space.segments = [.space] := rfl

@[simp] theorem Gap.segments_line (level : Int) : (Gap.line level).segments = [.line level] := rfl

/-- The line that is begun, if one is. -/
def lineAt : Option Int → List Segment
  | some level => [.line level]
  | none => []

@[simp] theorem lineAt_none : lineAt none = [] := rfl

@[simp] theorem lineAt_some (level : Int) : lineAt (some level) = [.line level] := rfl

@[simp] theorem rejoin_touch (left right : List Char) : rejoin left right .touch = .touch := rfl

@[simp] theorem rejoin_space (left right : List Char) : rejoin left right .space = .space := rfl

/-! ## What tokens emit -/

/-- The segments of a token: the line it starts, its text, and the gap it leaves. -/
def Placed.segments (p : Placed) : List Segment :=
  lineAt p.spacing.leading ++ .text p.token.text :: p.spacing.after.segments

/-- The segments of a row of tokens, each with the token it is of. -/
def emit (ps : List Placed) : List (Token × Segment) :=
  ps.flatMap fun p => p.segments.map (p.token, ·)

/-! ## Many lines -/

/-- The gap that the next segment is, if it is white space. -/
def gapAhead : List (Token × Segment) → Gap
  | (_, .space) :: _ => .space
  | (_, .line level) :: _ => .line level
  | _ => .touch

/-- The pass that breaks lines after calls. A line break that it adds is not remembered. -/
def breakLines (c : Calls) : List (Token × Segment) → List Segment
  | [] => []
  | (_, .line level) :: rest => .line level :: breakLines (c.beginLine level) rest
  | (_, .space) :: rest => .space :: breakLines c rest
  | (t, .text cs) :: rest =>
    let (found, after) := callBreak c t (gapAhead rest) (rest[1]?.map Prod.fst)
    .text cs :: (lineAt found ++ breakLines after rest)

/-- The pass that collapses white space, from a segment on; `last` is the text put down right
before it. White space in front of a line break goes, and so does a space behind one. A line break
becomes a space between texts that stay joined. -/
def collapseFrom (last : List Char) (here : Segment) : List Segment → List Segment
  | [] => [here]
  | next :: rest =>
    match here, next with
    | .line level, .space => collapseFrom last (.line level) rest
    | .line _, .line level => collapseFrom last (.line level) rest
    | .space, .line level => collapseFrom last (.line level) rest
    | .line level, .text cs =>
      (if staysJoined last cs then .space else .line level) :: collapseFrom [] (.text cs) rest
    | here, next => here :: collapseFrom here.body next rest

section

variable (last : List Char) (rest : List Segment)

@[simp] theorem collapseFrom_line_line (level level' : Int) :
    collapseFrom last (.line level) (.line level' :: rest) =
      collapseFrom last (.line level') rest := rfl

@[simp] theorem collapseFrom_line_space (level : Int) :
    collapseFrom last (.line level) (.space :: rest) = collapseFrom last (.line level) rest := rfl

@[simp] theorem collapseFrom_space_line (level : Int) :
    collapseFrom last .space (.line level :: rest) = collapseFrom last (.line level) rest := rfl

@[simp] theorem collapseFrom_space_text (cs : List Char) :
    collapseFrom last .space (.text cs :: rest) = .space :: collapseFrom [] (.text cs) rest := rfl

/-- What stands before a text does not matter behind it. -/
theorem collapseFrom_text (cs last' : List Char) :
    collapseFrom last (.text cs) rest = collapseFrom last' (.text cs) rest := by
  cases rest with
  | nil => rfl
  | cons next rest => cases next <;> rfl

@[simp] theorem collapseFrom_text_cons (cs : List Char) (next : Segment) :
    collapseFrom last (.text cs) (next :: rest) = .text cs :: collapseFrom cs next rest := by
  cases next <;> rfl

/-- A line break in front of a text stays, unless the text stays on the line of the one before. -/
@[simp] theorem collapseFrom_line_text (cs : List Char) (level : Int) :
    collapseFrom last (.line level) (.text cs :: rest) =
      (rejoin last cs (.line level)).segments ++ collapseFrom [] (.text cs) rest := by
  rw [collapseFrom, rejoin]
  split <;> rfl

end

/-- The pass that collapses white space. -/
def collapse : List Segment → List Segment
  | [] => []
  | here :: rest => collapseFrom [] here rest

/-- A row of segments without the white space at its two ends. -/
def trimSegments (segments : List Segment) : List Segment :=
  ((segments.dropWhile Segment.isWhite).reverse.dropWhile Segment.isWhite).reverse

/-- The segments of the many-line layout. -/
def prettySegments (ts : List Token) : List Segment :=
  trimSegments (collapse (breakLines .initial (emit (place ts))))

/-! ## One line -/

/-- A segment of a token on one line: line breaks are spaces but at the end of a comment, and those
inside a string are escapes. -/
def Segment.flat (t : Token) : Segment → Segment
  | .text cs =>
    match t with
    | .string _ => .text (escapeLineBreaks cs)
    | _ => .text cs
  | .space => .space
  | .line _ => if t.isComment then .line 0 else .space

/-- The text of a token becomes its text on one line. -/
@[simp] theorem Segment.flat_text (t : Token) :
    Segment.flat t (.text t.text) = .text (conciseText t) := by
  cases t <;> rfl

@[simp] theorem Segment.flat_space (t : Token) : Segment.flat t .space = .space := rfl

@[simp] theorem Segment.flat_line (t : Token) (level : Int) :
    Segment.flat t (.line level) = if t.isComment then .line 0 else .space := rfl

/-- What has been put down, the last segment first, after one segment more. -/
def push (done : List Segment) : Segment → List Segment
  | .text cs => .text cs :: done
  | .line level => .line level :: done.dropWhile Segment.isSpace
  | .space =>
    match done with
    | .text cs :: others => .space :: .text cs :: others
    | others => others

section

variable (cs : List Char) (done : List Segment)

@[simp] theorem push_text : push done (.text cs) = .text cs :: done := rfl

/-- A space is put behind a text or a gap that has room for it. -/
theorem push_space_gap (g : Gap) :
    push (g.segments ++ .text cs :: done) .space =
      (if g = .touch then Gap.space else g).segments ++ .text cs :: done := by
  cases g <;> rfl

/-- A gap is put behind a text. -/
theorem foldl_push_gap (g : Gap) :
    g.segments.foldl push (.text cs :: done) = g.segments ++ .text cs :: done := by
  cases g <;> rfl

end

/-- The segments of the one-line layout. -/
def conciseSegments (ts : List Token) : List Segment :=
  ((((emit (place ts)).map fun (t, s) => s.flat t).foldl push []).dropWhile Segment.isWhite).reverse

end SparqlFormat.Layout
