import SparqlFormat.Proofs.OneLine
import SparqlFormat.Proofs.Passes

/-!
# The two layouts compared

Without comments the two layouts separate the same neighbours, but for one case: on many lines the
line is broken after the bracket that ends a call, also where the rules let the next token touch
it. `Agrees` says so of the gaps at one place, and `layouts_agree` of every place in every row.

The breaks after calls are the one thing that a place does not decide by itself. What a step of
that pass can do is said once (`tokenBreak_spec`): it breaks a line only after a closing bracket
and only while a call waits, and no call waits before a word for one has been passed.

A row without calls is then laid out on one line as it is on many, with every line break and its
indentation replaced by a space.
-/

namespace SparqlFormat.Layout

/-! ## Gaps at one place -/

/-- A gap on one line: a line break becomes a space. -/
def Gap.flat : Gap → Gap
  | .line _ => .space
  | g => g

/-- How the gaps of the two layouts at one place go together, given the tokens before the left
neighbour. -/
structure Agrees (before : List Token) (left : Token) (wide narrow : Gap) : Prop where
  /-- One line is not broken. -/
  unbroken : narrow = .touch ∨ narrow = .space
  /-- What a space parts on one line is parted on many. -/
  parted : narrow = .space → wide = .space ∨ ∃ level, wide = .line level
  /-- What touches on one line is parted on many only at the end of a call. -/
  touching : narrow = .touch → wide ≠ .touch →
    (left = .mark .closeParen ∨ left = .mark .emptyParens) ∧
      ∃ t ∈ before, t.isWord callWords = true

/-- Where no call has begun the gaps are the same, line breaks apart. -/
lemma Agrees.eq_flat {before : List Token} {left : Token} {wide narrow : Gap}
    (h : Agrees before left wide narrow) (noCall : ∀ t ∈ before, t.isWord callWords = false) :
    narrow = wide.flat := by
  rcases h.unbroken with rfl | rfl
  · by_contra apart
    have white : wide ≠ .touch := by
      rintro rfl
      exact apart rfl
    obtain ⟨-, t, mem, isCall⟩ := h.touching rfl white
    rw [noCall t mem] at isCall
    contradiction
  · rcases h.parted rfl with rfl | ⟨level, rfl⟩ <;> rfl

/-- What the rules leave where no line is broken after a call. -/
lemma agrees_gap {before : List Token} (left right : Placed) {found : Option Int}
    (notComment : left.token.isComment = false)
    (ends : found.isSome = true →
      (left.token = .mark .closeParen ∨ left.token = .mark .emptyParens) ∧
        ∃ t ∈ before, t.isWord callWords = true) :
    Agrees before left.token (prettyGap left found right) (conciseGap left right) := by
  have broken : ∀ level, rejoin left.token.text right.token.text (.line level) = .space ∨
      ∃ level', rejoin left.token.text right.token.text (.line level) = .line level' := by
    intro level
    cases stays : staysJoined left.token.text right.token.text <;> simp [rejoin, stays]
  rw [prettyGap, conciseGap, if_neg (by simp [notComment])]
  cases leading : right.spacing.leading with
  | some level => exact ⟨by simp, fun _ => broken level, by simp⟩
  | none =>
    cases after : left.spacing.after with
    | line level => exact ⟨by simp, fun _ => broken level, by simp⟩
    | space =>
      cases found with
      | some level => exact ⟨by simp, fun _ => broken level, by simp⟩
      | none => exact ⟨by simp, fun _ => .inl rfl, by simp⟩
    | touch =>
      cases found with
      | some level => exact ⟨by simp, by simp, fun _ _ => ends rfl⟩
      | none => exact ⟨by simp, by simp, fun _ white => absurd rfl white⟩

/-! ## Calls -/

section Calls

variable {c : Calls} {t : Token} {after : Gap} {next : Option Token}

lemma callBreak_isSome (h : (callBreak c t after next).1.isSome = true) :
    (t = .mark .closeParen ∨ t = .mark .emptyParens) ∧ c.waiting ≠ 0 := by
  revert h
  fun_cases callBreak c t after next <;> simp_all [← Token.isMark_iff]

lemma waiting_callBreak (h : (callBreak c t after next).2.waiting ≠ 0) :
    t.isWord callWords = true ∨ c.waiting ≠ 0 := by
  revert h
  fun_cases callBreak c t after next <;> simp_all

end Calls

lemma waiting_elim_beginLine (c : Calls) (leading : Option Int) :
    (leading.elim c c.beginLine).waiting = c.waiting := by
  cases leading <;> rfl

lemma waiting_afterGap (c : Calls) (g : Gap) : (c.afterGap g).waiting = c.waiting := by
  cases g <;> rfl

/-- What a step of the pass over the calls can do: it breaks a line only after a closing bracket
while a call waits, and a call waits behind it only if one did before or begins there. -/
lemma tokenBreak_spec (c : Calls) (p : Placed) (ps : List Placed) :
    ((tokenBreak c p ps).1.isSome = true →
        (p.token = .mark .closeParen ∨ p.token = .mark .emptyParens) ∧ c.waiting ≠ 0) ∧
      (((tokenBreak c p ps).2.afterGap p.spacing.after).waiting ≠ 0 →
        p.token.isWord callWords = true ∨ c.waiting ≠ 0) := by
  rw [waiting_afterGap, ← waiting_elim_beginLine c p.spacing.leading]
  exact ⟨callBreak_isSome, waiting_callBreak⟩

/-! ## Gaps at every place -/

section Row

lemma getElem?_prettyGaps_succ {p : Placed} {ps : List Placed} (more : ps ≠ [])
    (found : Option Int) (others : List (Option Int)) (i : Nat) :
    (prettyGaps (p :: ps) (found :: others))[i + 1]? = (prettyGaps ps others)[i]? := by
  cases ps with
  | nil => contradiction
  | cons q ps => rfl

lemma getElem?_conciseGaps_succ {p : Placed} {ps : List Placed} (more : ps ≠ []) (i : Nat) :
    (conciseGaps (p :: ps))[i + 1]? = (conciseGaps ps)[i]? := by
  cases ps with
  | nil => contradiction
  | cons q ps => rfl

/-- The gaps at a place agree, however far the row has been set: a call that waits has its word
among the tokens seen. -/
lemma agrees_placeFrom {seen : List Token} {c : Calls}
    (waits : c.waiting ≠ 0 → ∃ t ∈ seen, t.isWord callWords = true) (n : Nesting)
    (before : List Token) {left : Token} (notComment : left.isComment = false) (right : Token)
    (after : List Token) :
    let ps := placeFrom n (before ++ left :: right :: after)
    ∃ wide narrow, (prettyGaps ps (callBreaksFrom c ps))[before.length]? = some wide ∧
      (conciseGaps ps)[before.length]? = some narrow ∧
      Agrees (seen ++ before) left wide narrow := by
  -- by the tokens before the place: each that is passed is one more seen
  induction before generalizing seen c n with
  | nil =>
    let p : Placed := ⟨left, spacing (n.enter left) left (some right)⟩
    obtain ⟨q, qs, hps⟩ : ∃ q qs, placeFrom n (left :: right :: after) = p :: q :: qs :=
      ⟨_, _, rfl⟩
    simp only [List.nil_append, List.append_nil, hps, callBreaksFrom_cons c p, prettyGaps,
      conciseGaps]
    refine ⟨_, _, rfl, rfl, agrees_gap p q notComment fun isSome => ?_⟩
    obtain ⟨closing, waiting⟩ := (tokenBreak_spec c p (q :: qs)).1 isSome
    exact ⟨closing, waits waiting⟩
  | cons b before ih =>
    let row := before ++ left :: right :: after
    let p : Placed := ⟨b, spacing (n.enter b) b row.head?⟩
    let ps := placeFrom ((n.enter b).leave b) row
    have more : ps ≠ [] := by
      have tokens : ps.map Placed.token = row := placeFrom_map_token _ row
      rintro none
      simp [none, row] at tokens
    let c' := (tokenBreak c p ps).2.afterGap p.spacing.after
    have waits' : c'.waiting ≠ 0 → ∃ t ∈ seen ++ [b], t.isWord callWords = true := by
      intro waiting
      rcases (tokenBreak_spec c p ps).2 waiting with isCall | waiting
      · exact ⟨b, by simp, isCall⟩
      · obtain ⟨t, mem, isCall⟩ := waits waiting
        exact ⟨t, by simp [mem], isCall⟩
    obtain ⟨wide, narrow, hwide, hnarrow, agrees⟩ := ih waits' ((n.enter b).leave b)
    refine ⟨wide, narrow, ?_, ?_, by simpa using agrees⟩
    · show (prettyGaps (p :: ps) (callBreaksFrom c (p :: ps)))[before.length + 1]? = some wide
      rw [callBreaksFrom_cons, getElem?_prettyGaps_succ more]
      exact hwide
    · show (conciseGaps (p :: ps))[before.length + 1]? = some narrow
      rw [getElem?_conciseGaps_succ more]
      exact hnarrow

lemma conciseGaps_eq_flat {c : Calls} (idle : c.waiting = 0) (n : Nesting) {ts : List Token}
    (noComment : ∀ t ∈ ts, t.isComment = false)
    (noCall : ∀ t ∈ ts, t.isWord callWords = false) :
    conciseGaps (placeFrom n ts) =
      (prettyGaps (placeFrom n ts) (callBreaksFrom c (placeFrom n ts))).map Gap.flat := by
  induction ts generalizing c n with
  | nil => rfl
  | cons t ts ih =>
    obtain ⟨notComment, noComment⟩ := List.forall_mem_cons.1 noComment
    obtain ⟨notCall, noCall⟩ := List.forall_mem_cons.1 noCall
    let p : Placed := ⟨t, spacing (n.enter t) t ts.head?⟩
    let n' := (n.enter t).leave t
    obtain ⟨ends, waits⟩ := tokenBreak_spec c p (placeFrom n' ts)
    have idle' : ((tokenBreak c p (placeFrom n' ts)).2.afterGap p.spacing.after).waiting = 0 := by
      by_contra waiting
      rcases waits waiting with isCall | waiting
      · rw [notCall] at isCall
        contradiction
      · exact waiting idle
    have rest := ih idle' n' noComment noCall
    show conciseGaps (p :: placeFrom n' ts) =
      (prettyGaps (p :: placeFrom n' ts) (callBreaksFrom c (p :: placeFrom n' ts))).map Gap.flat
    rw [callBreaksFrom_cons]
    cases hps : placeFrom n' ts with
    | nil => rfl
    | cons q ps =>
      rw [hps] at rest ends
      have agrees : Agrees [] t (prettyGap p (tokenBreak c p (q :: ps)).1 q) (conciseGap p q) :=
        agrees_gap p q notComment fun isSome => absurd idle (ends isSome).2
      rw [conciseGaps, prettyGaps, List.map_cons, rest, agrees.eq_flat (by simp)]

end Row

/-! ## Lines joined -/

/-- The second text is the first with every line break, and the copies of the indentation behind
it, replaced by a space. -/
inductive JoinsLines (indent : List Char) : List Char → List Char → Prop
  | nil : JoinsLines indent [] []
  | keep {c : Char} {s t : List Char} : c ≠ '\n' → JoinsLines indent s t →
      JoinsLines indent (c :: s) (c :: t)
  | line (n : Nat) {s t : List Char} : JoinsLines indent s t →
      JoinsLines indent ('\n' :: ((List.replicate n indent).flatten ++ s)) (' ' :: t)

namespace JoinsLines

variable {indent s t : List Char}

lemma append {w : List Char} (noFeed : '\n' ∉ w) (h : JoinsLines indent s t) :
    JoinsLines indent (w ++ s) (w ++ t) := by
  induction w with
  | nil => exact h
  | cons c w ih =>
    rw [List.mem_cons, not_or] at noFeed
    exact .keep (Ne.symm noFeed.1) (ih noFeed.2)

lemma gap (g : Gap) (h : JoinsLines indent s t) :
    JoinsLines indent (g.render indent ++ s) (g.flat.render indent ++ t) := by
  cases g with
  | touch => exact h
  | space => exact .keep (by decide) h
  | line level => exact .line level.toNat h

end JoinsLines

/-- Texts without line feeds are woven into lines, and those are joined to one. -/
lemma joinsLines_weave (indent : List Char) {texts : List (List Char)}
    (noFeed : ∀ t ∈ texts, '\n' ∉ t) (gs : List Gap) :
    JoinsLines indent (weave indent texts gs) (weave indent texts (gs.map Gap.flat)) := by
  induction texts generalizing gs with
  | nil => simpa using JoinsLines.nil
  | cons t texts ih =>
    obtain ⟨first, noFeed⟩ := List.forall_mem_cons.1 noFeed
    cases gs with
    | nil => exact (ih noFeed []).append first
    | cons g gs =>
      rw [List.map_cons, weave, weave, List.append_assoc, List.append_assoc]
      refine JoinsLines.append first ?_
      split
      · exact ih noFeed gs
      · exact (ih noFeed gs).gap g

lemma weave_flat (indent : List Char) (texts : List (List Char)) (gs : List Gap) :
    weave indent texts (gs.map Gap.flat) = weave [] texts (gs.map Gap.flat) := by
  have onLine : ∀ g : Gap, g.flat.render indent = g.flat.render [] := by
    intro g
    cases g <;> rfl
  induction texts generalizing gs with
  | nil => simp
  | cons t texts ih =>
    cases gs with
    | nil => exact congrArg (t ++ ·) (ih [])
    | cons g gs => simp only [List.map_cons, weave, onLine, ih]

lemma conciseText_of_unbroken {t : Token} (unbroken : Unbroken t.text) :
    conciseText t = t.text := by
  cases t with
  | string source =>
    have kept := escapeLineBreaks_append unbroken []
    rwa [List.append_nil, show escapeLineBreaks [] = [] from rfl, List.append_nil] at kept
  | _ => rfl

/-! ## The comparison -/

/-- The gaps of a row in its two layouts, and in the segments that their passes leave. -/
structure GapsOf (ts : List Token) (wide narrow : List Gap) : Prop where
  pretty_eq : ∀ indent, pretty indent ts = weave indent (ts.map Token.text) wide
  concise_eq : concise ts = weave [] (ts.map conciseText) narrow
  prettySegments_eq : prettySegments ts = joined (ts.map Token.text) wide
  conciseSegments_eq : conciseSegments ts = joined (ts.map conciseText) narrow

lemma gapsOf (ts : List Token) : GapsOf ts (wideGaps ts) (narrowGaps ts) where
  pretty_eq _ := rfl
  concise_eq := rfl
  prettySegments_eq := prettySegments_eq ts
  conciseSegments_eq := conciseSegments_eq ts

/-- The gaps of a row without comments agree between every two neighbours. If there is no word for
a call in it and no text of it has a line break, its one-line layout is its many-line layout with
every line break and its indentation replaced by a space. -/
theorem layouts_agree {ts : List Token} (noComment : ∀ t ∈ ts, t.isComment = false) :
    GapsOf ts (wideGaps ts) (narrowGaps ts) ∧
      (∀ before left right after, ts = before ++ left :: right :: after →
        ∃ wide narrow, (wideGaps ts)[before.length]? = some wide ∧
          (narrowGaps ts)[before.length]? = some narrow ∧ Agrees before left wide narrow) ∧
      ((∀ t ∈ ts, t.isWord callWords = false) → (∀ t ∈ ts, Unbroken t.text) → ∀ indent,
        concise ts = weave indent (ts.map Token.text) ((wideGaps ts).map Gap.flat) ∧
          JoinsLines indent (pretty indent ts) (concise ts)) := by
  refine ⟨gapsOf ts, ?_, ?_⟩
  · rintro before left right after rfl
    have notComment := noComment left (by simp)
    have waits : Calls.initial.waiting ≠ 0 →
        ∃ t ∈ ([] : List Token), t.isWord callWords = true := fun waiting => absurd rfl waiting
    exact agrees_placeFrom waits .outermost before notComment right after
  · intro noCall unbroken indent
    have gaps : narrowGaps ts = (wideGaps ts).map Gap.flat :=
      conciseGaps_eq_flat rfl .outermost noComment noCall
    have texts : ts.map conciseText = ts.map Token.text :=
      List.map_congr_left fun t mem => conciseText_of_unbroken (unbroken t mem)
    have flat : concise ts = weave indent (ts.map Token.text) ((wideGaps ts).map Gap.flat) := by
      rw [(gapsOf ts).concise_eq, gaps, texts, weave_flat indent]
    have noFeed : ∀ s ∈ ts.map Token.text, '\n' ∉ s := by
      simp only [List.forall_mem_map]
      intro t mem feed
      exact absurd (unbroken t mem _ feed) (by decide)
    refine ⟨flat, ?_⟩
    rw [flat, (gapsOf ts).pretty_eq]
    exact joinsLines_weave indent noFeed (wideGaps ts)

/-- A call that a path goes on right behind, with a bracket closed once too often. -/
def calledPath : List Token :=
  [.keyword "FILTER".toList, .mark .openParen, .var ['x'], .mark .closeParen, .mark .bar,
    .var ['y'], .mark .closeParen]

/-- A pattern with two triples and a block in it. -/
def patterns : List Token :=
  [.keyword "ASK".toList, .mark .openBrace, .var ['x'], .keyword "A".toList, .iri ['c'],
    .mark .dot, .keyword "OPTIONAL".toList, .mark .openBrace, .var ['x'], .prefixed [':', 'p'],
    .mark .plus, .string "'v'".toList, .language "en".toList, .mark .closeBrace,
    .mark .closeBrace]

/-- On many lines the line is broken behind the call, on one line nothing parts it from the path;
and the lines of the patterns are joined. -/
theorem layouts_agree_calledPath :
    (pretty defaultIndent calledPath = "FILTER(?x)\n|?y)".toList ∧
        concise calledPath = "FILTER(?x)|?y)".toList ∧
        ∃ wide narrow, (wideGaps calledPath)[3]? = some wide ∧
          (narrowGaps calledPath)[3]? = some narrow ∧ wide ≠ .touch ∧ narrow = .touch ∧
          Agrees (calledPath.take 3) (.mark .closeParen) wide narrow) ∧
      concise patterns = "ASK \x7b ?x a <c> . OPTIONAL \x7b ?x :p+ 'v'@en \x7d \x7d".toList ∧
        JoinsLines defaultIndent (pretty defaultIndent patterns) (concise patterns) := by
  have noComment : ∀ t ∈ calledPath, t.isComment = false := by simp [calledPath, Token.isComment]
  have noComment' : ∀ t ∈ patterns, t.isComment = false := by simp [patterns, Token.isComment]
  have noCall : ∀ t ∈ patterns, t.isWord callWords = false := by
    simp [patterns, Token.isWord, callWords, words]
  have unbroken : ∀ t ∈ patterns, Unbroken t.text := by
    have checked : patterns.all (fun t => t.text.all fun c => !isLineBreak c) = true := by decide
    simpa [Unbroken] using checked
  obtain ⟨wide, narrow, hwide, hnarrow, agrees⟩ :=
    (layouts_agree noComment).2.1 (calledPath.take 3) (.mark .closeParen) (.mark .bar) _ rfl
  have line : (wideGaps calledPath)[(calledPath.take 3).length]? = some (.line 0) := by decide
  have touch : (narrowGaps calledPath)[(calledPath.take 3).length]? = some .touch := by decide
  obtain rfl : .line 0 = wide := Option.some.inj (line.symm.trans hwide)
  obtain rfl : .touch = narrow := Option.some.inj (touch.symm.trans hnarrow)
  refine ⟨⟨by decide, by decide, .line 0, .touch, hwide, hnarrow, ?_, rfl, agrees⟩, by decide, ?_⟩
  · simp
  · exact ((layouts_agree noComment').2.2 noCall unbroken defaultIndent).2

end SparqlFormat.Layout
