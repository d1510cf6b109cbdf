import SparqlFormat.Layout.Passes
import SparqlFormat.Proofs.RoundTrip

/-!
# The passes leave the gaps of the layouts

The passes over segments and the layouts agree. What a pass puts between two texts depends on the
few segments there, and `joined` is the row that is left when each such run of white space has
become the one gap of the layout.

* `collapseFrom_gap` is the many-line case: what the look-ahead leaves of the line broken after a
  call, the gap after the left token and the line that the right token starts is `settle` of the
  three, with `rejoin` on top of it.
* `foldl_push_segments` is the one-line case: the invariant of the stack is that the row put down
  so far is joined by its gaps, with at most the gap after its last text on top.

`pretty_eq_passes` and `concise_eq_passes` are the results; they hold of every row of tokens.
-/

namespace SparqlFormat.Layout

open Lexeme

/-! ## Joined texts -/

/-- Texts with gaps between them, as segments. -/
def joined : List (List Char) → List Gap → List Segment
  | [], _ => []
  | t :: ts, [] => .text t :: joined ts []
  | t :: ts, g :: gs => .text t :: ((if ts.isEmpty then [] else g.segments) ++ joined ts gs)

@[simp] lemma renderSegments_nil (indent : List Char) : renderSegments indent [] = [] := rfl

@[simp] lemma renderSegments_cons (indent : List Char) (s : Segment) (ss : List Segment) :
    renderSegments indent (s :: ss) = s.render indent ++ renderSegments indent ss := rfl

@[simp] lemma renderSegments_append (indent : List Char) (ss ss' : List Segment) :
    renderSegments indent (ss ++ ss') = renderSegments indent ss ++ renderSegments indent ss' := by
  simp [renderSegments]

@[simp] lemma renderSegments_gap (indent : List Char) (g : Gap) :
    renderSegments indent g.segments = g.render indent := by
  cases g <;> simp [Gap.segments, Segment.render, Gap.render]

lemma render_joined (indent : List Char) (texts : List (List Char)) (gs : List Gap) :
    renderSegments indent (joined texts gs) = weave indent texts gs := by
  induction texts generalizing gs with
  | nil => simp [joined]
  | cons t texts ih =>
    cases gs with
    | nil => simp [joined, weave, Segment.render, ih]
    | cons g gs =>
      rw [joined, weave, renderSegments_cons, renderSegments_append, ih, List.append_assoc]
      split <;> simp [Segment.render]

@[simp] lemma joined_singleton (t : List Char) (gs : List Gap) : joined [t] gs = [.text t] := by
  cases gs <;> simp [joined]

@[simp] lemma joined_cons_cons (t u : List Char) (texts : List (List Char)) (g : Gap)
    (gs : List Gap) :
    joined (t :: u :: texts) (g :: gs) = .text t :: (g.segments ++ joined (u :: texts) gs) := by
  simp [joined]

lemma joined_ne_nil (t : List Char) (texts : List (List Char)) (gs : List Gap) :
    joined (t :: texts) gs ≠ [] := by
  cases gs <;> simp [joined]

lemma head?_joined (texts : List (List Char)) (gs : List Gap) :
    (joined texts gs).head?.any Segment.isWhite = false := by
  cases texts with
  | nil => rfl
  | cons t texts => cases gs <;> simp [joined, Segment.isWhite]

lemma getLast?_joined (texts : List (List Char)) (gs : List Gap) :
    (joined texts gs).getLast?.any Segment.isWhite = false := by
  induction texts generalizing gs with
  | nil => rfl
  | cons t texts ih =>
    cases texts with
    | nil => simp [Segment.isWhite]
    | cons u texts =>
      have notEmpty := joined_ne_nil u texts
      cases gs with
      | nil =>
        rw [joined, ← List.singleton_append, List.getLast?_append_of_ne_nil _ (notEmpty [])]
        exact ih []
      | cons g gs =>
        rw [joined_cons_cons, ← List.cons_append,
          List.getLast?_append_of_ne_nil _ (notEmpty gs)]
        exact ih gs

/-! ## White space at the ends -/

/-- White space in front of a row and behind it is trimmed. -/
lemma trimSegments_append {front row back : List Segment} (notEmpty : row ≠ [])
    (before : ∀ s ∈ front, s.isWhite = true) (behind : ∀ s ∈ back, s.isWhite = true)
    (start : row.head?.any Segment.isWhite = false)
    (stop : row.getLast?.any Segment.isWhite = false) :
    trimSegments (front ++ (row ++ back)) = row := by
  have startsRow : (row ++ back).head?.any Segment.isWhite = false := by
    rwa [List.head?_append_of_ne_nil _ notEmpty]
  have behind : ∀ s ∈ back.reverse, s.isWhite = true := by simpa using behind
  have stopsRow : row.reverse.head?.any Segment.isWhite = false := by rwa [List.head?_reverse]
  rw [trimSegments, dropWhile_append_stop before startsRow, List.reverse_append,
    dropWhile_append_stop behind stopsRow, List.reverse_reverse]

/-! ## Breaking lines after calls -/

section Break

variable (c : Calls) (t : Token)

@[simp] lemma emit_nil : emit [] = [] := rfl

@[simp] lemma emit_cons (p : Placed) (ps : List Placed) :
    emit (p :: ps) = p.segments.map (p.token, ·) ++ emit ps := rfl

lemma head?_emit (ps : List Placed) :
    (emit ps).head?.map Prod.fst = ps.head?.map Placed.token := by
  cases ps with
  | nil => rfl
  | cons p ps => cases h : p.spacing.leading <;> simp [Placed.segments, lineAt, h]

lemma gapAhead_emit (ps : List Placed) : gapAhead (emit ps) ≠ .space := by
  cases ps with
  | nil => simp [gapAhead]
  | cons p ps => cases h : p.spacing.leading <;> simp [Placed.segments, lineAt, h, gapAhead]

lemma callContinues_of_ne {after : Gap} (notSpace : after ≠ .space) (next : Option Token) :
    callContinues after next = false := by
  rw [callContinues, beq_eq_false_iff_ne.2 notSpace, Bool.false_and]

/-- Whether a line goes on is seen in the segments ahead. -/
lemma callContinues_ahead (after : Gap) (ps : List Placed) :
    let ahead := after.segments.map (t, ·) ++ emit ps
    callContinues (gapAhead ahead) (ahead[1]?.map Prod.fst) =
      callContinues after (ps.head?.map Placed.token) := by
  intro ahead
  cases after with
  | touch =>
    have notSpace : gapAhead ahead ≠ .space := gapAhead_emit ps
    rw [callContinues_of_ne notSpace, callContinues_of_ne (by simp)]
  | space =>
    have next : ahead[1]?.map Prod.fst = ps.head?.map Placed.token := by
      rw [← head?_emit, List.head?_eq_getElem?]
      rfl
    rw [next]
    rfl
  | line level =>
    have notSpace : gapAhead ahead ≠ .space := by simp [ahead, Gap.segments, gapAhead]
    rw [callContinues_of_ne notSpace, callContinues_of_ne (by simp)]

/-- What follows a token matters to the calls only in whether a line goes on. -/
lemma callBreak_congr {after after' : Gap} {next next' : Option Token}
    (h : callContinues after next = callContinues after' next') :
    callBreak c t after next = callBreak c t after' next' := by
  unfold callBreak
  rw [h]

lemma breakLines_gap (g : Gap) (rest : List (Token × Segment)) :
    breakLines c (g.segments.map (t, ·) ++ rest) =
      g.segments ++ breakLines (c.afterGap g) rest := by
  cases g <;> rfl

/-- What `callBreaksFrom` finds at a token, and what it remembers behind its text. -/
def tokenBreak (p : Placed) (ps : List Placed) : Option Int × Calls :=
  callBreak (p.spacing.leading.elim c c.beginLine) p.token p.spacing.after
    (ps.head?.map Placed.token)

lemma callBreaksFrom_cons (p : Placed) (ps : List Placed) :
    callBreaksFrom c (p :: ps) = (tokenBreak c p ps).1 ::
      callBreaksFrom ((tokenBreak c p ps).2.afterGap p.spacing.after) ps := by
  cases leading : p.spacing.leading <;> simp only [callBreaksFrom, tokenBreak, leading] <;> rfl

/-- The pass over one token: it breaks the line where `callBreaksFrom` does. -/
lemma breakLines_emit_cons (p : Placed) (ps : List Placed) :
    breakLines c (emit (p :: ps)) = lineAt p.spacing.leading ++ .text p.token.text ::
      (lineAt (tokenBreak c p ps).1 ++ (p.spacing.after.segments ++
        breakLines ((tokenBreak c p ps).2.afterGap p.spacing.after) (emit ps))) := by
  -- the pass over the text and the gap after it; the line before the text only changes `c`
  have atText : ∀ c : Calls,
      let step := callBreak c p.token p.spacing.after (ps.head?.map Placed.token)
      breakLines c ((p.token, .text p.token.text) ::
          (p.spacing.after.segments.map (p.token, ·) ++ emit ps)) =
        .text p.token.text :: (lineAt step.1 ++ (p.spacing.after.segments ++
          breakLines (step.2.afterGap p.spacing.after) (emit ps))) := by
    intro c
    rw [breakLines, callBreak_congr c p.token (callContinues_ahead p.token p.spacing.after ps)]
    simp only [breakLines_gap]
  cases leading : p.spacing.leading with
  | none => simpa [Placed.segments, tokenBreak, leading] using atText c
  | some level =>
    simpa [Placed.segments, tokenBreak, leading, breakLines] using atText (c.beginLine level)

end Break

/-! ## Collapsing white space -/

section Collapse

/-- Of the white space between two texts the gap of the layout is left: the look-ahead passes over
all but the last line break. -/
lemma collapseFrom_gap (last left right : List Char) (found leading : Option Int) (after : Gap)
    (rest : List Segment) :
    collapseFrom last (.text left)
        (lineAt found ++ (after.segments ++ (lineAt leading ++ .text right :: rest))) =
      .text left :: ((rejoin left right (settle found after leading)).segments ++
        collapseFrom [] (.text right) rest) := by
  have behind := collapseFrom_text left rest right []
  cases leading <;> cases after <;> cases found <;> simp [settle, behind]

/-- Behind the last text white space is left, or nothing. -/
lemma collapseFrom_end (last cs : List Char) (found : Option Int) (after : Gap) :
    ∃ back, (∀ s ∈ back, s.isWhite = true) ∧
      collapseFrom last (.text cs) (lineAt found ++ after.segments) = .text cs :: back := by
  cases found <;> cases after <;>
    simp [lineAt, Gap.segments, collapseFrom, Segment.isWhite]

lemma collapse_start (cs : List Char) (leading : Option Int) (rest : List Segment) :
    ∃ front, (∀ s ∈ front, s.isWhite = true) ∧
      collapse (lineAt leading ++ .text cs :: rest) = front ++ collapseFrom [] (.text cs) rest := by
  cases leading with
  | none => exact ⟨[], by simp, rfl⟩
  | some level =>
    exact ⟨[.line level], by simp [Segment.isWhite], collapseFrom_line_text [] rest cs level⟩

/-- From a text on, the gaps of the layout are left between the texts. -/
lemma collapseFrom_row (c : Calls) (last : List Char) (p : Placed) (ps : List Placed)
    (found : Option Int) :
    ∃ back, (∀ s ∈ back, s.isWhite = true) ∧
      collapseFrom last (.text p.token.text)
          (lineAt found ++ (p.spacing.after.segments ++ breakLines c (emit ps))) =
        joined ((p :: ps).map fun p => p.token.text)
          (prettyGaps (p :: ps) (found :: callBreaksFrom c ps)) ++ back := by
  induction ps generalizing c last p found with
  | nil => simpa [breakLines] using collapseFrom_end last p.token.text found p.spacing.after
  | cons q ps ih =>
    obtain ⟨back, white, collapsed⟩ :=
      ih ((tokenBreak c q ps).2.afterGap q.spacing.after) [] q (tokenBreak c q ps).1
    refine ⟨back, white, ?_⟩
    rw [breakLines_emit_cons, collapseFrom_gap, collapsed, callBreaksFrom_cons, prettyGaps,
      prettyGap]
    simp

end Collapse

/-! ## Many lines -/

lemma place_map {α : Type} (f : Token → α) (ts : List Token) :
    ((place ts).map fun p => f p.token) = ts.map f := by
  conv_rhs => rw [← place_map_token ts, List.map_map]
  rfl

/-- The gaps of the many-line layout of a row. -/
def wideGaps (ts : List Token) : List Gap :=
  prettyGaps (place ts) (callBreaks (place ts))

/-- The gaps of the one-line layout of a row. -/
def narrowGaps (ts : List Token) : List Gap :=
  conciseGaps (place ts)

/-- The passes of the many-line layout leave the texts of a row with its gaps. -/
theorem prettySegments_eq (ts : List Token) :
    prettySegments ts = joined (ts.map Token.text) (wideGaps ts) := by
  rw [← place_map Token.text, prettySegments, wideGaps, callBreaks]
  cases place ts with
  | nil => rfl
  | cons p ps =>
    let step := tokenBreak .initial p ps
    let c := step.2.afterGap p.spacing.after
    obtain ⟨front, before, collapsed⟩ := collapse_start p.token.text p.spacing.leading
      (lineAt step.1 ++ (p.spacing.after.segments ++ breakLines c (emit ps)))
    obtain ⟨back, behind, row⟩ := collapseFrom_row c [] p ps step.1
    rw [breakLines_emit_cons, collapsed, row, callBreaksFrom_cons]
    exact trimSegments_append (joined_ne_nil _ _ _) before behind (head?_joined _ _)
      (getLast?_joined _ _)

/-- The many-line layout is what its passes leave. -/
theorem pretty_eq_passes (indent : List Char) (ts : List Token) :
    pretty indent ts = renderSegments indent (prettySegments ts) := by
  rw [prettySegments_eq, render_joined]
  rfl

/-! ## One line -/

section OneLine

/-- A comment continues its line and ends it. -/
def Placed.Settled (p : Placed) : Prop :=
  p.token.isComment = true → ∃ level, p.spacing = .inline (.line level)

lemma settled_of_mem_placeFrom (n : Nesting) (ts : List Token) :
    ∀ p ∈ placeFrom n ts, p.Settled := by
  induction ts generalizing n with
  | nil => simp [placeFrom]
  | cons t ts ih =>
    refine List.forall_mem_cons.2 ⟨fun isComment => ?_, ih _⟩
    exact ⟨_, spacing_comment isComment _⟩

/-- The gap that a token leaves on one line. -/
def Placed.narrowAfter (p : Placed) : Gap :=
  if p.token.isComment then .line 0 else if p.spacing.after == .touch then .touch else .space

lemma flat_segments {p : Placed} (settled : p.Settled) :
    p.segments.map (Segment.flat p.token) =
      (if p.spacing.leading.isSome then [.space] else []) ++
        .text (conciseText p.token) :: p.narrowAfter.segments := by
  by_cases isComment : p.token.isComment = true
  · obtain ⟨level, spacing⟩ := settled isComment
    simp [Placed.segments, Placed.narrowAfter, spacing, Spacing.inline, isComment]
  · have notComment : p.token.isComment = false := by simpa using isComment
    cases leading : p.spacing.leading <;> cases after : p.spacing.after <;>
      simp [Placed.segments, Placed.narrowAfter, leading, after, notComment]

lemma flat_emit_cons (p : Placed) (ps : List Placed) :
    ((emit (p :: ps)).map fun (t, s) => s.flat t) =
      p.segments.map (Segment.flat p.token) ++ (emit ps).map fun (t, s) => s.flat t := by
  simp [Function.comp_def]

/-- The stack after one token more: between the last text and the new one it holds the gap of the
layout, and on top what the token leaves. -/
lemma foldl_push_segments {p q : Placed} (settled : q.Settled) (cs : List Char)
    (done : List Segment) :
    (q.segments.map (Segment.flat q.token)).foldl push
        (p.narrowAfter.segments ++ .text cs :: done) =
      q.narrowAfter.segments ++ .text (conciseText q.token) ::
        ((conciseGap p q).segments ++ .text cs :: done) := by
  rw [flat_segments settled]
  -- the line that `q` starts is a space here, and is put down only if `p` left no gap
  cases leading : q.spacing.leading with
  | none =>
    have gap : conciseGap p q = p.narrowAfter := by
      simp [conciseGap, Placed.narrowAfter, leading]
    simp only [Option.isSome_none, Bool.false_eq_true, if_false, List.nil_append, List.foldl_cons,
      push_text, foldl_push_gap, gap]
  | some level =>
    have gap : conciseGap p q = if p.narrowAfter = .touch then .space else p.narrowAfter := by
      simp only [conciseGap, Placed.narrowAfter, leading]
      split <;> simp
    simp only [Option.isSome_some, if_true, List.singleton_append, List.foldl_cons, push_space_gap,
      push_text, foldl_push_gap, gap]

/-- From a text on, the stack holds the row joined by its gaps, and on top at most white space. -/
lemma foldl_push_row {p : Placed} {ps : List Placed} (settled : ∀ q ∈ ps, q.Settled)
    (done : List Segment) :
    ∃ top, (∀ s ∈ top, s.isWhite = true) ∧
      ((emit ps).map fun (t, s) => s.flat t).foldl push
          (p.narrowAfter.segments ++ .text (conciseText p.token) :: done) =
        top ++ ((joined ((p :: ps).map fun p => conciseText p.token)
          (conciseGaps (p :: ps))).reverse ++ done) := by
  induction ps generalizing p done with
  | nil =>
    refine ⟨p.narrowAfter.segments, ?_, by simp⟩
    cases p.narrowAfter <;> simp [Segment.isWhite]
  | cons q ps ih =>
    obtain ⟨first, settled⟩ := List.forall_mem_cons.1 settled
    obtain ⟨top, white, row⟩ := ih settled
      ((conciseGap p q).segments ++ .text (conciseText p.token) :: done)
    refine ⟨top, white, ?_⟩
    have symmetric : (conciseGap p q).segments.reverse = (conciseGap p q).segments := by
      cases conciseGap p q <;> rfl
    rw [flat_emit_cons, List.foldl_append, foldl_push_segments first, row, conciseGaps]
    simp [symmetric]

end OneLine

/-- The loop of the one-line layout leaves the texts of a row with its gaps. -/
theorem conciseSegments_eq (ts : List Token) :
    conciseSegments ts = joined (ts.map conciseText) (narrowGaps ts) := by
  have settled : ∀ p ∈ place ts, p.Settled := settled_of_mem_placeFrom .outermost ts
  rw [← place_map conciseText, conciseSegments, narrowGaps]
  cases hps : place ts with
  | nil => rfl
  | cons p ps =>
    rw [hps] at settled
    obtain ⟨first, settled⟩ := List.forall_mem_cons.1 settled
    obtain ⟨top, white, row⟩ := foldl_push_row (p := p) settled []
    -- no space is put down in front of the first text
    have start : (p.segments.map (Segment.flat p.token)).foldl push [] =
        p.narrowAfter.segments ++ [.text (conciseText p.token)] := by
      rw [flat_segments first]
      split <;> simp [push, foldl_push_gap]
    rw [flat_emit_cons, List.foldl_append, start, row, List.append_nil,
      dropWhile_append_stop white (by rw [List.head?_reverse]; exact getLast?_joined _ _),
      List.reverse_reverse]

/-- The one-line layout is what its loop leaves. -/
theorem concise_eq_passes (ts : List Token) :
    concise ts = renderSegments [] (conciseSegments ts) := by
  rw [conciseSegments_eq, render_joined]
  rfl

end SparqlFormat.Layout
