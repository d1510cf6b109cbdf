import SparqlFormat.Proofs.CallSites
import SparqlFormat.Proofs.Places

/-!
# Line breaks behind calls

The pass over the calls keeps numbers: how many calls wait, the depths at which they began, how many
parentheses are open since. `Tracks` ties these to the site that the pass has come to, and each
token of an orderly row keeps the tie (`Tracks.kept`): a call that waits and a call whose
parenthesis is open count alike, a parenthesis is counted if it stands within a call or begins one,
and no two calls with open parentheses began at one depth. So the pass breaks the line exactly where
the site has a call end, and the line does not go on behind a closing parenthesis.

`breakLines_endsCall` is the result. Every call gets its line break in an orderly row, also behind
a filter that has a block and no parentheses. Such a filter goes on waiting, though, and takes the
next parentheses for its own; only where calls get their brackets promptly are there no line breaks
but behind calls.
-/

namespace SparqlFormat.Layout

open Lexeme

/-! ## What the pass counts -/

/-- How many calls are open or wait, at all levels. -/
def callCount : List Open → Nat
  | [] => 0
  | .brace :: outer => callCount outer
  | .paren call waiting :: outer => call.toNat + waiting + callCount outer

/-- The depths at which the calls began whose parentheses are open. -/
def callStarts : List Open → List Nat
  | [] => []
  | .brace :: outer => callStarts outer
  | .paren call _ :: outer =>
    if call then callDepth outer :: callStarts outer else callStarts outer

/-- Outside a parenthesis calls wait only if it is that of a call and no other call is open. -/
def Unhurried : List Open → Prop
  | [] => True
  | .brace :: outer => Unhurried outer
  | .paren call waiting :: outer =>
    (waiting ≠ 0 → call = true ∧ callDepth outer = 0) ∧ Unhurried outer

section Counts

variable {opened : List Open}

lemma lt_callDepth {d : Nat} (mem : d ∈ callStarts opened) : d < callDepth opened := by
  induction opened with
  | nil => simp [callStarts] at mem
  | cons o outer ih =>
    cases o with
    | brace => exact ih mem
    | paren call waiting =>
      cases call with
      | true =>
        simp only [callStarts, if_true, List.mem_cons] at mem
        simp only [callDepth, Bool.true_or, if_true]
        rcases mem with rfl | mem
        · omega
        · have := ih mem
          omega
      | false =>
        have below := ih mem
        have inside : callDepth outer ≠ 0 := by omega
        simp only [callDepth, Bool.false_or, bne_iff_ne.2 inside, if_true]
        omega

/-- Calls are open, or wait outside an open parenthesis, exactly if the depth is counted. -/
lemma callCount_eq_zero (h : Unhurried opened) : callCount opened = 0 ↔ callDepth opened = 0 := by
  induction opened with
  | nil => simp [callCount, callDepth]
  | cons o outer ih =>
    cases o with
    | brace => exact ih h
    | paren call waiting =>
      obtain ⟨here, h⟩ := h
      specialize ih h
      cases call with
      | true => simp [callCount, callDepth]
      | false =>
        have none : waiting = 0 := by
          by_contra some
          exact absurd (here some).1 (by decide)
        simp only [callCount, callDepth, none, Bool.toNat_false, Bool.false_or, bne_iff_ne]
        split <;> omega

end Counts

/-! ## The invariant -/

/-- What the pass remembers at a site. -/
structure Tracks (s : Site) (c : Calls) : Prop where
  waiting : c.waiting = s.waiting + callCount s.opened
  depth : c.depth = callDepth s.opened
  /-- Depth zero is no matter: there a call ends in any case. -/
  starts : ∀ d : Nat, d ≠ 0 →
    ((d : Int) ∈ c.starts ↔ d ∈ callStarts s.opened ∨ s.waiting ≠ 0 ∧ d = callDepth s.opened)
  unhurried : Unhurried s.opened
  single : callDepth s.opened ≠ 0 → s.waiting ≤ 1

lemma tracks_start : Tracks .start .initial where
  waiting := rfl
  depth := rfl
  starts := by simp [Calls.initial, Site.start, callStarts]
  unhurried := trivial
  single h := absurd rfl h

namespace Tracks

variable {s : Site} {c : Calls}

lemma beginLine (h : Tracks s c) (level : Int) : Tracks s (c.beginLine level) :=
  ⟨h.waiting, h.depth, h.starts, h.unhurried, h.single⟩

lemma elim_beginLine (h : Tracks s c) (leading : Option Int) :
    Tracks s (leading.elim c c.beginLine) := by
  cases leading with
  | none => exact h
  | some level => exact h.beginLine level

lemma afterGap (h : Tracks s c) (g : Gap) : Tracks s (c.afterGap g) := by
  cases g with
  | line level => exact h.beginLine level
  | _ => exact h

/-- Nothing is remembered exactly where no call waits and none is open. -/
lemma idle_iff (h : Tracks s c) : c.waiting = 0 ↔ s.waiting = 0 ∧ callDepth s.opened = 0 := by
  rw [h.waiting, ← callCount_eq_zero h.unhurried]
  omega

lemma word (h : Tracks s c) (single : callDepth s.opened ≠ 0 → s.waiting = 0) :
    Tracks { s with waiting := s.waiting + 1 } c.beginCall where
  waiting := by
    have := h.waiting
    simp only [Calls.beginCall]
    omega
  depth := h.depth
  starts d notZero := by
    have before := h.starts d notZero
    have present : (d : Int) ∈ c.beginCall.starts ↔
        (d : Int) ∈ c.starts ∨ d = callDepth s.opened := by
      simp only [Calls.beginCall, h.depth]
      split
      · next known =>
        have known := List.contains_iff_mem.1 known
        constructor
        · exact .inl
        · rintro (mem | rfl)
          · exact mem
          · exact known
      · rw [List.mem_cons, Int.natCast_inj, or_comm]
    have waits : s.waiting + 1 ≠ 0 := Nat.succ_ne_zero _
    rw [present, before]
    tauto
  unhurried := h.unhurried
  single inside := by
    have := single inside
    simp only
    omega

lemma openParen (h : Tracks s c) (waits : c.waiting ≠ 0) :
    Tracks (s.step (.mark .openParen)) c.openParen := by
  have counted : callDepth (s.step (.mark .openParen)).opened = callDepth s.opened + 1 := by
    have some := mt h.idle_iff.2 waits
    simp only [Site.step, callDepth, Bool.or_eq_true, bne_iff_ne]
    rw [if_pos (by tauto)]
  refine ⟨?_, ?_, fun d notZero => ?_, ⟨fun more => ?_, h.unhurried⟩, fun _ => Nat.zero_le 1⟩
  · have taken : (s.waiting != 0).toNat + (s.waiting - 1) = s.waiting := by
      cases s.waiting <;> simp [Nat.add_comm]
    simp only [Calls.openParen, Site.step, callCount, h.waiting, taken, Nat.zero_add]
  · rw [counted, Calls.openParen, h.depth, Int.natCast_add]
    rfl
  · have before := h.starts d notZero
    rw [Calls.openParen, before]
    by_cases none : s.waiting = 0
    · simp [Site.step, callStarts, none]
    · simp [Site.step, callStarts, none, or_comm]
  · have := h.single
    refine ⟨bne_iff_ne.2 (by omega), ?_⟩
    by_contra inside
    have := this inside
    omega

lemma openParen_idle (h : Tracks s c) (idle : c.waiting = 0) :
    Tracks (s.step (.mark .openParen)) c := by
  obtain ⟨none, outside⟩ := h.idle_iff.1 idle
  have uncounted : callDepth (s.step (.mark .openParen)).opened = 0 := by
    simp [Site.step, callDepth, none, outside]
  refine ⟨?_, ?_, ?_, ?_, ?_⟩
  · rw [h.waiting]
    simp [Site.step, callCount, none]
  · rw [h.depth, uncounted, outside]
  · intro d notZero
    rw [h.starts d notZero]
    simp [Site.step, callStarts, none]
  · exact ⟨by simp [none], h.unhurried⟩
  · intro inside
    exact absurd uncounted inside

section Close

variable {waiting : Nat} {outer : List Open}

/-- A parenthesis of no call is closed, within no call: it has not been counted. -/
lemma closeParen_outside (h : Tracks s c) (hs : s.opened = .paren false waiting :: outer)
    (idle : s.waiting = 0) (outside : callDepth outer = 0) :
    Tracks ⟨waiting, outer⟩ c ∧ c.waiting = 0 := by
  obtain ⟨here, unhurried⟩ : Unhurried (.paren false waiting :: outer) := hs ▸ h.unhurried
  obtain rfl : waiting = 0 := by
    by_contra some
    exact absurd (here some).1 (by decide)
  have uncounted : callDepth s.opened = 0 := by simp [hs, callDepth, outside]
  have nothing := h.idle_iff.2 ⟨idle, uncounted⟩
  refine ⟨⟨?_, ?_, fun d notZero => ?_, unhurried, fun inside => absurd outside inside⟩, nothing⟩
  · rw [nothing, (callCount_eq_zero unhurried).2 outside]
  · rw [h.depth, uncounted, outside]
  · rw [h.starts d notZero, hs, idle]
    simp [callStarts]

/-- A parenthesis of no call is closed, within one: no call ends at this depth. -/
lemma closeParen_inside (h : Tracks s c) (hs : s.opened = .paren false waiting :: outer)
    (idle : s.waiting = 0) (inside : callDepth outer ≠ 0) :
    Tracks ⟨waiting, outer⟩ c.closeParen ∧ c.waiting ≠ 0 ∧ c.closeParen.endsHere = false := by
  obtain ⟨here, unhurried⟩ : Unhurried (.paren false waiting :: outer) := hs ▸ h.unhurried
  obtain rfl : waiting = 0 := by
    by_contra some
    exact absurd (here some).1 (by decide)
  have depth : c.closeParen.depth = callDepth outer := by
    rw [Calls.closeParen, h.depth, hs]
    simp [callDepth, inside]
  have started : ∀ d : Nat, d ≠ 0 → ((d : Int) ∈ c.starts ↔ d ∈ callStarts outer) := by
    intro d notZero
    rw [h.starts d notZero, hs, idle]
    simp [callStarts]
  refine ⟨⟨?_, depth, fun d notZero => ?_, unhurried, fun _ => Nat.zero_le 1⟩, ?_, ?_⟩
  · rw [Calls.closeParen, h.waiting, hs, idle]
    simp [callCount]
  · rw [Calls.closeParen, started d notZero]
    simp
  · rw [Ne, h.idle_iff, hs]
    simp [callDepth, inside]
  · have notStarted : (callDepth outer : Int) ∉ c.starts := fun mem =>
      Nat.lt_irrefl _ (lt_callDepth ((started _ inside).1 mem))
    have notZero : (callDepth outer : Int) ≠ 0 := by omega
    rw [Calls.endsHere, depth, Bool.or_eq_false_iff, beq_eq_false_iff_ne]
    exact ⟨by simpa [Calls.closeParen] using notStarted, notZero⟩

/-- The parenthesis of a call is closed: a call ends at this depth. -/
lemma closeParen_call (h : Tracks s c) (hs : s.opened = .paren true waiting :: outer)
    (idle : s.waiting = 0) :
    Tracks ⟨waiting, outer⟩ c.closeParen.endCall ∧ c.waiting ≠ 0 ∧
      c.closeParen.endsHere = true := by
  obtain ⟨here, unhurried⟩ : Unhurried (.paren true waiting :: outer) := hs ▸ h.unhurried
  have depth : c.closeParen.depth = callDepth outer := by
    rw [Calls.closeParen, h.depth, hs]
    simp [callDepth]
  have started : ∀ d : Nat, d ≠ 0 →
      ((d : Int) ∈ c.starts ↔ d = callDepth outer ∨ d ∈ callStarts outer) := by
    intro d notZero
    rw [h.starts d notZero, hs, idle]
    simp [callStarts]
  refine ⟨⟨?_, depth, fun d notZero => ?_, unhurried, fun inside => ?_⟩, ?_, ?_⟩
  · have := h.waiting
    rw [hs, callCount, idle, Bool.toNat_true] at this
    simp only [Calls.endCall, Calls.closeParen]
    omega
  · have remains : (d : Int) ∈ c.closeParen.endCall.starts ↔
        (d : Int) ∈ c.starts ∧ d ≠ callDepth outer := by
      rw [Calls.endCall, List.mem_filter, depth, bne_iff_ne, Ne, Int.natCast_inj]
      rfl
    rw [remains, started d notZero]
    constructor
    · rintro ⟨rfl | mem, other⟩
      · exact absurd rfl other
      · exact .inl mem
    · rintro (mem | ⟨more, rfl⟩)
      · exact ⟨.inr mem, Nat.ne_of_lt (lt_callDepth mem)⟩
      · exact absurd (here more).2 notZero
  · have none : ¬ waiting ≠ 0 := fun more => inside (here more).2
    show waiting ≤ 1
    omega
  · rw [Ne, h.idle_iff, hs]
    simp [callDepth]
  · rw [Calls.endsHere, depth, Bool.or_eq_true, beq_iff_eq, List.contains_iff_mem]
    by_cases outside : callDepth outer = 0
    · exact .inr (by omega)
    · exact .inl ((started _ outside).2 (.inl rfl))

end Close

lemma emptyParens (h : Tracks s c) (waits : s.waiting ≠ 0) (outside : callDepth s.opened = 0) :
    Tracks (s.step (.mark .emptyParens)) c.endEmptyCall ∧ c.waiting ≠ 0 ∧ c.depth = 0 := by
  refine ⟨⟨?_, h.depth, fun d notZero => ?_, h.unhurried, fun inside => absurd outside inside⟩,
    mt h.idle_iff.1 fun idle => waits idle.1, by rw [h.depth, outside]; rfl⟩
  · have := h.waiting
    simp only [Calls.endEmptyCall, Site.step]
    omega
  · show (d : Int) ∈ c.starts ↔ _
    rw [h.starts d notZero]
    simp [Site.step, outside, notZero]

lemma openBrace (h : Tracks s c) : Tracks (s.step (.mark .openBrace)) c :=
  ⟨h.waiting, h.depth, h.starts, h.unhurried, h.single⟩

lemma closeBrace {outer : List Open} (h : Tracks s c) (hs : s.opened = .brace :: outer) :
    Tracks (s.step (.mark .closeBrace)) c := by
  obtain ⟨waiting, opened⟩ := s
  obtain rfl : opened = .brace :: outer := hs
  exact ⟨h.waiting, h.depth, h.starts, h.unhurried, h.single⟩

end Tracks

/-! ## One token -/

section Step

variable {s : Site} {c : Calls} {t : Token} (after : Gap) (next : Option Token)

lemma callBreak_word (isWord : t.isWord callWords = true) :
    callBreak c t after next = (none, c.beginCall) := by
  rw [callBreak, if_pos isWord]

lemma callBreak_idle (idle : c.waiting = 0) (notWord : t.isWord callWords = false) :
    callBreak c t after next = (none, c) := by
  simp [callBreak, notWord, idle]

lemma callBreak_openParen (waits : c.waiting ≠ 0) :
    callBreak c (.mark .openParen) after next = (none, c.openParen) := by
  simp [callBreak, waits, Token.isWord, Token.isMark]

lemma callBreak_closeParen (waits : c.waiting ≠ 0) :
    callBreak c (.mark .closeParen) after next =
      if c.closeParen.endsHere then
        (if callContinues after next then none else some c.closeParen.indent,
          c.closeParen.endCall)
      else (none, c.closeParen) := by
  simp [callBreak, waits, Token.isWord, Token.isMark]

lemma callBreak_emptyParens (waits : c.waiting ≠ 0) (outermost : c.depth = 0) :
    callBreak c (.mark .emptyParens) after next = (some c.indent, c.endEmptyCall) := by
  simp [callBreak, waits, outermost, Token.isWord, Token.isMark]

lemma callBreak_emptyParens_inside (inside : c.depth ≠ 0) :
    callBreak c (.mark .emptyParens) after next = (none, c) := by
  simp [callBreak, inside, Token.isWord, Token.isMark]

lemma callBreak_other (notWord : t.isWord callWords = false)
    (other : t ∉ [.mark .openParen, .mark .closeParen, .mark .emptyParens]) :
    callBreak c t after next = (none, c) := by
  simp only [List.mem_cons, List.not_mem_nil, or_false, not_or, ← Token.isMark_iff,
    Bool.not_eq_true] at other
  obtain ⟨notOpen, notClose, notEmpty⟩ := other
  simp [callBreak, notWord, notOpen, notClose, notEmpty]

/-- What the pass makes of one token: it keeps track of the site, and it breaks the line right
behind the token exactly if that ends a call and, for a closing parenthesis, the line does not go
on. -/
structure Kept (s : Site) (c : Calls) (t : Token) (after : Gap) (next : Option Token) : Prop where
  tracks : Tracks (s.step t) (callBreak c t after next).2
  breaks : (callBreak c t after next).1.isSome = true ↔
    s.Ends t ∧ (t = .mark .closeParen → callContinues after next = false)

variable {after next}

/-- The line is not broken behind a token, and the token ends no call. -/
lemma Kept.of_unbroken {c' : Calls} (read : callBreak c t after next = (none, c'))
    (tracks : Tracks (s.step t) c') (notEnds : ¬ s.Ends t) : Kept s c t after next where
  tracks := by
    rw [read]
    exact tracks
  breaks := by simp [read, notEnds]

variable (after next)

namespace Tracks

lemma kept_openParen (h : Tracks s c) : Kept s c (.mark .openParen) after next := by
  have notEnds : ¬ s.Ends (.mark .openParen) := id
  by_cases waits : c.waiting = 0
  · exact .of_unbroken (callBreak_idle after next waits rfl) (h.openParen_idle waits) notEnds
  · exact .of_unbroken (callBreak_openParen after next waits) (h.openParen waits) notEnds

lemma kept_closeParen {call : Bool} {waiting : Nat} {outer : List Open} (h : Tracks s c)
    (hs : s.opened = .paren call waiting :: outer) (idle : s.waiting = 0) :
    Kept s c (.mark .closeParen) after next := by
  have left : s.step (.mark .closeParen) = ⟨waiting, outer⟩ := by
    simp [Site.step, hs]
  cases call with
  | true =>
    obtain ⟨tracks, waits, ends⟩ := h.closeParen_call hs idle
    have read := callBreak_closeParen after next waits
    rw [if_pos ends] at read
    refine ⟨?_, ?_⟩
    · rw [left, read]
      exact tracks
    · rw [read]
      cases callContinues after next <;> simp [Site.Ends, hs]
  | false =>
    have notEnds : ¬ s.Ends (.mark .closeParen) := by
      simp [Site.Ends, hs]
    by_cases outside : callDepth outer = 0
    · obtain ⟨tracks, idle⟩ := h.closeParen_outside hs idle outside
      exact .of_unbroken (callBreak_idle after next idle rfl) (left ▸ tracks) notEnds
    · obtain ⟨tracks, waits, goesOn⟩ := h.closeParen_inside hs idle outside
      have read := callBreak_closeParen after next waits
      rw [if_neg (by simp [goesOn])] at read
      exact .of_unbroken read (left ▸ tracks) notEnds

lemma kept_emptyParens (h : Tracks s c) (orderly : s.Orderly (.mark .emptyParens)) :
    Kept s c (.mark .emptyParens) after next := by
  by_cases waits : s.waiting = 0
  · have same : s.step (.mark .emptyParens) = s := by
      rw [Site.step, waits, Nat.zero_sub, ← waits]
    have notEnds : ¬ s.Ends (.mark .emptyParens) := fun ends => ends waits
    by_cases outermost : callDepth s.opened = 0
    · have idle := h.idle_iff.2 ⟨waits, outermost⟩
      exact .of_unbroken (callBreak_idle after next idle rfl) (same.symm ▸ h) notEnds
    · have inside : c.depth ≠ 0 := by
        rw [h.depth]
        omega
      exact .of_unbroken (callBreak_emptyParens_inside after next inside) (same.symm ▸ h) notEnds
  · have outside : callDepth s.opened = 0 := by
      by_contra inside
      exact ((orderly waits).2 inside).2 rfl
    obtain ⟨tracks, some, outermost⟩ := h.emptyParens waits outside
    have read := callBreak_emptyParens after next some outermost
    refine ⟨?_, ?_⟩
    · rw [read]
      exact tracks
    · simp [read, Site.Ends, waits]

/-- One token of an orderly row. -/
theorem kept (h : Tracks s c) (orderly : s.Orderly t)
    (nested : (stack (s.opened.map Open.kind) t).isSome = true) : Kept s c t after next := by
  rcases site_cases t with ⟨b, rfl | rfl⟩ | rfl | isWord | ⟨same, notWord, notEmpty, other⟩
  · cases b with
    | brace => exact .of_unbroken (callBreak_other after next rfl (by decide)) h.openBrace id
    | paren => exact h.kept_openParen after next
  · obtain ⟨opened, closed⟩ := Option.isSome_iff_exists.1 nested
    rw [stack_closing, Bracket.close_eq_some, List.map_eq_cons_iff] at closed
    obtain ⟨o, outer, hs, kind, -⟩ := closed
    cases b with
    | brace =>
      cases o with
      | paren call waiting => cases kind
      | brace =>
        exact .of_unbroken (callBreak_other after next rfl (by decide)) (h.closeBrace hs) id
    | paren =>
      cases o with
      | brace => cases kind
      | paren call waiting =>
        have idle : s.waiting = 0 := by
          by_contra waits
          exact (orderly waits).1 rfl
        exact h.kept_closeParen after next hs idle
  · exact h.kept_emptyParens after next orderly
  · have single : callDepth s.opened ≠ 0 → s.waiting = 0 := by
      intro inside
      by_contra waits
      rw [((orderly waits).2 inside).1] at isWord
      contradiction
    have notEnds : ¬ s.Ends t := by
      cases t <;> simp_all [Site.Ends, Token.isWord]
    have tracks := h.word single
    rw [← step_word isWord] at tracks
    exact .of_unbroken (callBreak_word after next isWord) tracks notEnds
  · have openParen := (other .paren).1
    have closeParen := (other .paren).2
    simp only [Bracket.opening, Bracket.closing] at openParen closeParen
    have notEnds : ¬ s.Ends t := by
      unfold Site.Ends
      split
      · contradiction
      · contradiction
      · exact id
    have noBracket : t ∉ [.mark .openParen, .mark .closeParen, .mark .emptyParens] := by
      simp [openParen, closeParen, notEmpty]
    refine .of_unbroken (callBreak_other after next notWord noBracket) ?_ notEnds
    rw [same]
    exact h

end Tracks

end Step

/-! ## A row of tokens -/

/-- Whether the line of a call goes on with the next token: a dot or a sort direction. -/
def keepsLine (next : Option Token) : Bool :=
  isNextMark .dot next || isNextWord sortWords next

/-- The segments of a token, with the line that is broken right behind its text, if one is. -/
def Placed.brokenSegments (p : Placed) (found : Option Int) : List Segment :=
  lineAt p.spacing.leading ++
    .text p.token.text :: (lineAt found ++ p.spacing.after.segments)

lemma brokenSegments_none (p : Placed) : p.brokenSegments none = p.segments := rfl

section Row

/-- The pass changes nothing but that it breaks lines, each right behind a text. -/
lemma breakLines_emit (c : Calls) (ps : List Placed) :
    breakLines c (emit ps) =
      (ps.zip (callBreaksFrom c ps)).flatMap fun entry => entry.1.brokenSegments entry.2 := by
  induction ps generalizing c with
  | nil => rfl
  | cons p ps ih =>
    rw [breakLines_emit_cons, callBreaksFrom_cons, ih, List.zip_cons_cons, List.flatMap_cons,
      Placed.brokenSegments]
    simp only [List.append_assoc, List.cons_append]

/-- A dot and a sort direction are set on the line of the parenthesis before them. -/
lemma callContinues_closeParen (n : Nesting) (next : Option Token) :
    callContinues (spacing n (.mark .closeParen) next).after next = keepsLine next := by
  cases keeps : keepsLine next with
  | false =>
    rw [callContinues]
    rw [keepsLine] at keeps
    rw [keeps, Bool.and_false]
  | true =>
    obtain ⟨u, rfl, isKept⟩ : ∃ u, next = some u ∧
        u ∈ [.mark .dot, .keyword "ASC".toList, .keyword "DESC".toList] := by
      cases next with
      | none => simp [keepsLine, isNextMark, isNextWord] at keeps
      | some u =>
        refine ⟨u, rfl, ?_⟩
        simp only [keepsLine, isNextMark, isNextWord, Option.any_some, Bool.or_eq_true,
          Token.isMark_iff] at keeps
        rcases keeps with rfl | isWord
        · simp
        · cases u with
          | keyword word => simpa [Token.isWord, sortWords, words] using isWord
          | _ => simp [Token.isWord] at isWord
    have spaced : spacing n (.mark .closeParen) (some u) = .inline .space := by
      simp only [List.mem_cons, List.not_mem_nil, or_false] at isKept
      have notBrace : (n.braces == 0 && isNextMark .openBrace (some u)) = false := by
        rcases isKept with rfl | rfl | rfl <;> exact Bool.and_false _
      rw [spacing, notBrace]
      rcases isKept with rfl | rfl | rfl <;> rfl
    rw [callContinues, spaced]
    exact keeps

/-- The breaks of a row from a site on: in an orderly row a line is broken right behind a token
exactly if the token ends a call and, for a closing parenthesis, the line does not go on. -/
lemma isSome_callBreaksFrom {s : Site} {c : Calls} (tracks : Tracks s c) {n : Nesting}
    {before : List Token} {t : Token} {after : List Token} {found : Option Int}
    (here : (callBreaksFrom c (placeFrom n (before ++ t :: after)))[before.length]? = some found)
    (nested : (openFrom (s.opened.map Open.kind) (before ++ [t])).isSome = true)
    (orderly : Site.Along Site.Orderly s (before ++ [t])) :
    found.isSome = true ↔
      (s.after before).Ends t ∧ (t = .mark .closeParen → keepsLine after.head? = false) := by
  induction before generalizing s c n with
  | nil =>
    let p : Placed := ⟨t, spacing (n.enter t) t after.head?⟩
    let ps := placeFrom ((n.enter t).leave t) after
    have next : ps.head?.map Placed.token = after.head? := by
      rw [← List.head?_map, placeFrom_map_token]
    have opens : (stack (s.opened.map Open.kind) t).isSome = true := by
      simpa using nested
    obtain ⟨-, breaks⟩ := (tracks.elim_beginLine p.spacing.leading).kept p.spacing.after
      after.head? orderly.1 opens
    have here : (callBreaksFrom c (p :: ps))[0]? = some found := here
    rw [callBreaksFrom_cons, List.getElem?_cons_zero, Option.some.injEq] at here
    rw [← here, tokenBreak, next, breaks, Site.after_nil]
    refine and_congr_right fun _ => forall_congr' fun isParen => ?_
    subst isParen
    rw [callContinues_closeParen]
  | cons b before ih =>
    let row := before ++ t :: after
    let p : Placed := ⟨b, spacing (n.enter b) b row.head?⟩
    let ps := placeFrom ((n.enter b).leave b) row
    obtain ⟨last, opens⟩ := Option.isSome_iff_exists.1 nested
    obtain ⟨opened, first, rest⟩ := Option.bind_eq_some_iff.1 opens
    obtain ⟨top, hs, kinds⟩ := opened_step (List.append_nil _).symm first
    rw [List.append_nil] at hs
    obtain ⟨tracks, -⟩ := (tracks.elim_beginLine p.spacing.leading).kept p.spacing.after
      (ps.head?.map Placed.token) orderly.1 (first ▸ rfl)
    have here : (callBreaksFrom c (p :: ps))[before.length + 1]? = some found := here
    rw [callBreaksFrom_cons, List.getElem?_cons_succ] at here
    refine ih (tracks.afterGap p.spacing.after) here ?_ orderly.2
    rw [hs, kinds]
    exact Option.isSome_iff_exists.2 ⟨last, rest⟩

end Row

/-- What the pass over the calls makes of a nested row. It adds line breaks to what the tokens emit
and changes nothing else, and it adds them right behind texts. As long as no parenthesis is closed
while a call waits inside it, and within the parentheses of a call nothing else comes up in the
place of another's, the line is broken exactly behind what ends a call at its site; so no call loses
the line break behind it. If each call gets its brackets before a brace, a closing parenthesis or
another call, there are no other line breaks. A closing parenthesis is left without one in front of
a dot and a sort direction, an empty pair never is. -/
theorem breakLines_endsCall {ts : List Token} (nested : Nested ts) :
    ((emit (place ts)).map Prod.snd =
        (place ts).flatMap fun p => p.brokenSegments none) ∧
      breakLines .initial (emit (place ts)) =
        ((place ts).zip (callBreaks (place ts))).flatMap (fun entry =>
          entry.1.brokenSegments entry.2) ∧
      ∀ before t after, ts = before ++ t :: after →
        ∃ found, (callBreaks (place ts))[before.length]? = some found ∧
          (Site.Along Site.Orderly .start (before ++ [t]) →
            (found.isSome = true ↔ (Site.start.after before).Ends t ∧
                (t = .mark .closeParen → keepsLine after.head? = false)) ∧
              (EndsCall before t → (t = .mark .closeParen → keepsLine after.head? = false) →
                found.isSome = true) ∧
              (Site.Along Site.Prompt .start before →
                (found.isSome = true ↔ EndsCall before t ∧
                  (t = .mark .closeParen → keepsLine after.head? = false)))) := by
  have emitted : (emit (place ts)).map Prod.snd =
      (place ts).flatMap fun p => p.brokenSegments none := by
    simp [emit, List.map_flatMap, Function.comp_def, brokenSegments_none]
  refine ⟨emitted, breakLines_emit _ _, ?_⟩
  rintro before t after rfl
  obtain ⟨found, here⟩ : ∃ found,
      (callBreaks (place (before ++ t :: after)))[before.length]? = some found := by
    refine ⟨_, List.getElem?_eq_getElem ?_⟩
    rw [callBreaks, length_callBreaksFrom, length_place, List.length_append, List.length_cons]
    omega
  obtain ⟨opened, opens, rest⟩ : ∃ opened, openFrom [] before = some opened ∧
      openFrom opened (t :: after) = some [] := by
    rwa [Nested, openFrom_append, Option.bind_eq_some_iff] at nested
  have upTo : (openFrom [] (before ++ [t])).isSome = true := by
    obtain ⟨opened', first, -⟩ := Option.bind_eq_some_iff.1 rest
    rw [openFrom_append, opens, Option.bind_some, openFrom_cons, first]
    rfl
  refine ⟨found, here, fun orderly => ?_⟩
  have breaks := isSome_callBreaksFrom tracks_start here upTo orderly
  refine ⟨breaks, fun ends broken => ?_, fun prompt => ?_⟩
  · exact breaks.2 ⟨ends.ends (Site.along_append.1 orderly).1, broken⟩
  · rw [breaks, ends_iff_endsCall opens prompt]

/-- A filter with a block in its parentheses that holds a collection and a call, and behind it a
filter with an empty pair and another collection. -/
def nestedCalls : List Token :=
  [.keyword "ASK".toList, .mark .openBrace, .keyword "FILTER".toList, .mark .openParen,
    .keyword "EXISTS".toList, .mark .openBrace, .var ['s'], .var ['p'], .mark .openParen,
    .number .integer ['1'], .mark .closeParen, .keyword "BIND".toList, .mark .openParen,
    .number .integer ['1'], .keyword "AS".toList, .var ['x'], .mark .closeParen,
    .mark .closeBrace, .mark .closeParen, .keyword "FILTER".toList, .iri ['f'],
    .mark .emptyParens, .var ['s'], .var ['p'], .mark .openParen, .number .integer ['1'],
    .mark .closeParen, .mark .closeBrace]

/-- A query with a filter that has a block and no parentheses, and behind it a collection and a
filter that has them. -/
def strayCollection : List Char :=
  "ASK \x7b FILTER EXISTS \x7b ?s ?p ?o \x7d ?s ?p (1 2) , 3 FILTER(?o) \x7d".toList

/-- Its tokens. -/
def strayCollectionRow : List Token :=
  [.keyword "ASK".toList, .mark .openBrace, .keyword "FILTER".toList, .keyword "EXISTS".toList,
    .mark .openBrace, .var ['s'], .var ['p'], .var ['o'], .mark .closeBrace, .var ['s'],
    .var ['p'], .mark .openParen, .number .integer ['1'], .number .integer ['2'],
    .mark .closeParen, .mark .comma, .number .integer ['3'], .keyword "FILTER".toList,
    .mark .openParen, .var ['o'], .mark .closeParen, .mark .closeBrace]

/-- In the first row the line is broken behind the call in the block, and not behind the last
collection. In the second it is broken behind the filter with parentheses, and behind the
collection, which ends no call. -/
theorem breakLines_endsCall_strayCollection :
    ((∃ found, (callBreaks (place nestedCalls))[16]? = some found ∧ found.isSome = true) ∧
        EndsCall (nestedCalls.take 16) (.mark .closeParen) ∧
        (callBreaks (place nestedCalls))[26]? = some none ∧
        ¬ EndsCall (nestedCalls.take 26) (.mark .closeParen)) ∧
      (Reads ⟨true, false⟩ strayCollection strayCollectionRow ∧
        reformat (some .grammar) .pretty strayCollection = .ok
          ("ASK \x7b\n    FILTER\n    EXISTS \x7b\n        ?s ?p ?o\n    \x7d\n".toList ++
            "    ?s ?p (1 2)\n    , 3\n    FILTER(?o)\n\x7d".toList) ∧
        (∃ found, (callBreaks (place strayCollectionRow))[20]? = some found ∧
          found.isSome = true) ∧
        (callBreaks (place strayCollectionRow))[14]? = some (some 1) ∧
        ¬ EndsCall (strayCollectionRow.take 14) (.mark .closeParen)) := by
  have nested : Nested nestedCalls := by decide
  have nested' : Nested strayCollectionRow := by decide
  have ends : EndsCall (nestedCalls.take 16) (.mark .closeParen) :=
    @EndsCall.parens (nestedCalls.take 12) ((nestedCalls.take 16).drop 13) (by decide) (by decide)
  have ends' : EndsCall (strayCollectionRow.take 20) (.mark .closeParen) :=
    @EndsCall.parens (strayCollectionRow.take 18) [.var ['o']] (by decide) (by decide)
  have notEnds : ¬ EndsCall (nestedCalls.take 26) (.mark .closeParen) := by
    have inner : Nested [.number .integer ['1']] := by decide
    rw [show nestedCalls.take 26 = nestedCalls.take 24 ++ .mark .openParen ::
      [.number .integer ['1']] from rfl, endsCall_closeParen_iff inner]
    decide
  have notEnds' : ¬ EndsCall (strayCollectionRow.take 14) (.mark .closeParen) := by
    have inner : Nested [.number .integer ['1'], .number .integer ['2']] := by decide
    rw [show strayCollectionRow.take 14 = strayCollectionRow.take 11 ++ .mark .openParen ::
      [.number .integer ['1'], .number .integer ['2']] from rfl, endsCall_closeParen_iff inner]
    decide
  obtain ⟨found, here, breaks⟩ := (breakLines_endsCall nested).2.2 (nestedCalls.take 16)
    (.mark .closeParen) (nestedCalls.drop 17) rfl
  obtain ⟨last, atLast, lastBreaks⟩ := (breakLines_endsCall nested).2.2 (nestedCalls.take 26)
    (.mark .closeParen) (nestedCalls.drop 27) rfl
  obtain ⟨found', here', breaks'⟩ := (breakLines_endsCall nested').2.2
    (strayCollectionRow.take 20) (.mark .closeParen) (strayCollectionRow.drop 21) rfl
  have unbroken : last = none := by
    have apart := (lastBreaks (by decide)).2.2 (by decide)
    cases last with
    | none => rfl
    | some level => exact absurd (apart.1 rfl).1 notEnds
  refine ⟨⟨⟨found, here, ?_⟩, ends, unbroken ▸ atLast, notEnds⟩,
    reads_of_tokens (by decide +kernel), by decide +kernel, ⟨found', here', ?_⟩,
    by decide +kernel, notEnds'⟩
  · exact ((breaks (by decide)).2.2 (by decide)).2 ⟨ends, by decide⟩
  · exact (breaks' (by decide)).2.1 ends' (by decide)

end SparqlFormat.Layout
