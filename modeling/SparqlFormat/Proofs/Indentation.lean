import Mathlib.Data.List.Infix
import Mathlib.Order.Bounds.Basic
import SparqlFormat.Layout.Counters
import SparqlFormat.Proofs.Places

/-!
# Indentation counts the open brackets

The level of indentation is kept beside the numbers of open braces and parentheses. It is moved
before a closing brace and after a closing parenthesis, and the levels of lines are copied: the pass
over the calls remembers one for each depth, also for depths below zero, and breaks lines with it.
Two invariants carry the bounds through.

* A step of the loop keeps the level equal to the sum of the two numbers (`Counters.Counts.step`),
  so the loop emits what `place` sets, and every line that the rules ask for has a level of the row,
  which is the number of brackets open at some place of it, or one more (`isLevelOf_emit`).
* No pass invents a level (`everyLine_of_asked`): a property that holds of every line of
  the rules, and of the outermost one, holds of what is remembered and of every line that is left.

`indentation_grounded` is the result. Rows of the language are nested, and a nested row closes no
bracket that is not open (`Nested.grounded`).
-/

namespace SparqlFormat.Layout

/-! ## The counters -/

namespace Counters

/-- The level is the number of brackets that have been counted. -/
def Balanced (c : Counters) : Prop :=
  c.level = c.braces + c.parens

/-- The counters have counted a row, and the level with it. -/
structure Counts (c : Counters) (seen : List Token) : Prop where
  braces : c.braces = openBraces seen
  parens : c.parens = openParens seen
  balanced : c.Balanced

section Step

variable {c : Counters} (t : Token)

lemma nesting_enter (c : Counters) : (c.enter t).nesting = c.nesting.enter t := by
  cases t with
  | mark m => cases m <;> rfl
  | _ => rfl

lemma nesting_leave (c : Counters) : (c.leave t).nesting = c.nesting.leave t := by
  cases t with
  | mark m => cases m <;> rfl
  | _ => rfl

lemma Balanced.enter (h : c.Balanced) : (c.enter t).Balanced := by
  unfold Balanced at h
  fun_cases Counters.enter c t with
  | case1 =>
    show c.level - 1 = c.braces - 1 + c.parens
    omega
  | case2 => exact h

lemma Balanced.leave (h : c.Balanced) : (c.leave t).Balanced := by
  unfold Balanced at h
  fun_cases Counters.leave c t with
  | case1 =>
    show c.level + 1 = c.braces + 1 + c.parens
    omega
  | case2 =>
    show c.level + 1 = c.braces + (c.parens + 1)
    omega
  | case3 =>
    show c.level - 1 = c.braces + (c.parens - 1)
    omega
  | case4 => exact h

lemma Balanced.step (h : c.Balanced) : (c.step t).Balanced :=
  (h.enter t).leave t

lemma Counts.step {seen : List Token} (h : c.Counts seen) : (c.step t).Counts (seen ++ [t]) := by
  have counted : (c.step t).nesting = nestingAfter (seen ++ [t]) := by
    have before : c.nesting = nestingAfter seen := by
      rw [nesting, nestingAfter, h.braces, h.parens]
    rw [Counters.step, nesting_leave, nesting_enter, before, leave_enter_nestingAfter]
  simp only [nesting, nestingAfter, Nesting.mk.injEq] at counted
  exact ⟨counted.1, counted.2, h.balanced.step t⟩

end Step

lemma counts_run (ts : List Token) : (run ts).Counts ts := by
  induction ts using List.reverseRecOn with
  | nil => exact ⟨rfl, rfl, rfl⟩
  | append_singleton ts t ih =>
    rw [run, List.foldl_append]
    exact ih.step t

/-- At such counters the rules are those of `spacing`. -/
lemma Balanced.segments_eq {c : Counters} (h : c.Balanced) (t : Token) (next : Option Token) :
    c.segments t next = (Placed.mk t (spacing c.nesting t next)).segments := by
  have level : c.nesting.level = c.level := h.symm
  rw [Counters.segments, spacing, level]
  simp only [apply_ite (Placed.mk t), apply_ite Placed.segments]
  rfl

/-- The loop emits what is set. -/
lemma Balanced.emitFrom_eq {c : Counters} (h : c.Balanced) (ts : List Token) :
    emitFrom c ts = emit (placeFrom c.nesting ts) := by
  induction ts generalizing c with
  | nil => rfl
  | cons t ts ih =>
    rw [emitFrom, placeFrom, emit_cons, (h.enter t).segments_eq, nesting_enter, ih (h.step t),
      Counters.step, nesting_leave, nesting_enter]

end Counters

/-! ## The levels that the rules ask for -/

/-- A level of a row: the number of brackets that are open at some place of it, or one more. -/
def IsLevelOf (ts : List Token) (level : Int) : Prop :=
  ∃ seen, seen <+: ts ∧ (level = openCount seen ∨ level = openCount seen + 1)

section Rules

variable {n : Nesting} {t : Token} {next : Option Token} {level : Int}

lemma leading_spacing (h : (spacing n t next).leading = some level) : level = n.level := by
  revert h
  fun_cases spacing n t next <;> simp +zetaDelta [Spacing.inline, eq_comm]

/-- A line that is begun behind a token has the level of the token, or the next one. -/
lemma after_spacing (h : (spacing n t next).after = .line level) :
    level = n.level ∨ level = n.level + 1 := by
  revert h
  fun_cases spacing n t next <;>
    simp +zetaDelta only [Spacing.inline, Gap.line.injEq, reduceCtorEq, false_implies] <;>
    omega

lemma line_mem_segments {p : Placed} :
    .line level ∈ p.segments ↔ p.spacing.leading = some level ∨ p.spacing.after = .line level := by
  cases leading : p.spacing.leading <;> cases after : p.spacing.after <;>
    simp [Placed.segments, leading, after, eq_comm]

/-- A token is set at as many brackets as are open in front of it or behind it. -/
lemma exists_level_enter (before : List Token) (t : Token) :
    ∃ seen, seen <+: before ++ [t] ∧ ((nestingAfter before).enter t).level = openCount seen := by
  by_cases closes : t = .mark .closeBrace
  · subst closes
    refine ⟨before ++ [.mark .closeBrace], List.prefix_rfl, ?_⟩
    rw [← level_nestingAfter, ← leave_enter_nestingAfter]
    rfl
  · refine ⟨before, List.prefix_append before [t], ?_⟩
    rw [← level_nestingAfter]
    fun_cases Nesting.enter (nestingAfter before) t with
    | case1 => contradiction
    | case2 => rfl

/-- The lines of a row that is laid out behind another have levels of the two together. -/
lemma isLevelOf_placeFrom (seen ts : List Token) {p : Placed}
    (mem : p ∈ placeFrom (nestingAfter seen) ts) (line : .line level ∈ p.segments) :
    IsLevelOf (seen ++ ts) level := by
  induction ts generalizing seen with
  | nil => simp [placeFrom] at mem
  | cons t ts ih =>
    rw [placeFrom, leave_enter_nestingAfter, List.mem_cons] at mem
    rcases mem with rfl | mem
    · obtain ⟨counted, begins, enters⟩ := exists_level_enter seen t
      have part : counted <+: seen ++ t :: ts := begins.trans ⟨ts, by simp⟩
      refine ⟨counted, part, ?_⟩
      rw [← enters]
      rcases line_mem_segments.1 line with leading | after
      · exact .inl (leading_spacing leading)
      · exact after_spacing after
    · have rest := ih (seen ++ [t]) mem
      rwa [List.append_assoc, List.singleton_append] at rest

lemma isLevelOf_emit {ts : List Token} (line : .line level ∈ (emit (place ts)).map Prod.snd) :
    IsLevelOf ts level := by
  simp only [emit, List.map_flatMap, List.map_map, List.mem_flatMap] at line
  obtain ⟨p, mem, line⟩ := line
  apply isLevelOf_placeFrom [] ts mem
  simpa using line

end Rules

/-! ## The lines that the passes leave -/

/-- Every line in a row of segments has a level with this property. -/
def LinesSatisfy (P : Int → Prop) (segments : List Segment) : Prop :=
  ∀ level, .line level ∈ segments → P level

/-- Every level that has been remembered has this property. -/
def Calls.Remembers (P : Int → Prop) (c : Calls) : Prop :=
  ∀ entry ∈ c.indents, P entry.2

section Passes

variable {P : Int → Prop} {c : Calls} {level : Int}

namespace Calls.Remembers

/-- The level that is looked up has been remembered, or is that of the outermost line. -/
lemma indent (outermost : P 0) (h : c.Remembers P) : P c.indent := by
  rw [Calls.indent]
  cases found : c.indents.lookup c.depth with
  | none => exact outermost
  | some level =>
    obtain ⟨others, others', indents, -⟩ := List.lookup_eq_some_iff.1 found
    apply h (c.depth, level)
    simp [indents]

lemma beginLine (h : c.Remembers P) (here : P level) : (c.beginLine level).Remembers P := by
  intro entry mem
  rcases List.mem_cons.1 mem with rfl | mem
  · exact here
  · exact h entry (List.mem_of_mem_filter mem)

/-- A line is broken after a call at a level that has been remembered, and none is forgotten. -/
lemma callBreak (outermost : P 0) (h : c.Remembers P) (t : Token) (after : Gap)
    (next : Option Token) :
    (∀ level, (Layout.callBreak c t after next).1 = some level → P level) ∧
      (Layout.callBreak c t after next).2.Remembers P := by
  have outer : c.closeParen.Remembers P := h
  -- a line is broken only in `case3`, where a call ends, and in `case5`, behind empty parentheses
  fun_cases Layout.callBreak c t after next with
  | case1 | case2 | case6 => exact ⟨by simp, h⟩
  | case3 =>
    refine ⟨?_, outer⟩
    intro level found
    simp only [Option.ite_none_left_eq_some, Option.some.injEq] at found
    rw [← found.2]
    exact outer.indent outermost
  | case4 => exact ⟨by simp, outer⟩
  | case5 =>
    refine ⟨?_, h⟩
    intro level found
    rw [← Option.some.inj found]
    exact h.indent outermost

end Calls.Remembers

lemma line_mem_lineAt {begun : Option Int} : .line level ∈ lineAt begun ↔ begun = some level := by
  cases begun with
  | none => simp
  | some here => simp [eq_comm]

/-- The lines broken after calls have levels that the rules asked for before, or the outermost
one. -/
lemma linesSatisfy_breakLines (outermost : P 0) {row : List (Token × Segment)}
    (h : c.Remembers P) (rules : LinesSatisfy P (row.map Prod.snd)) :
    LinesSatisfy P (breakLines c row) := by
  induction row generalizing c with
  | nil => simp [breakLines, LinesSatisfy]
  | cons entry row ih =>
    obtain ⟨t, segment⟩ := entry
    have rest : LinesSatisfy P (row.map Prod.snd) :=
      fun level mem => rules level (List.mem_cons_of_mem _ mem)
    intro level mem
    cases segment with
    | line here =>
      have first : P here := rules here List.mem_cons_self
      rcases List.mem_cons.1 mem with same | mem
      · rwa [Segment.line.inj same]
      · exact ih (h.beginLine first) rest level mem
    | space =>
      rcases List.mem_cons.1 mem with same | mem
      · contradiction
      · exact ih h rest level mem
    | text cs =>
      obtain ⟨broken, remembers⟩ := h.callBreak outermost t (gapAhead row) (row[1]?.map Prod.fst)
      simp only [breakLines, List.mem_cons, List.mem_append, reduceCtorEq, false_or] at mem
      rcases mem with mem | mem
      · exact broken level (line_mem_lineAt.1 mem)
      · exact ih remembers rest level mem

lemma line_mem_of_collapseFrom {last : List Char} {here : Segment} {segments : List Segment}
    (mem : .line level ∈ collapseFrom last here segments) : .line level ∈ here :: segments := by
  fun_induction collapseFrom last here segments with
  | case1 => exact mem
  | case2 last rest level' ih =>
    rcases List.mem_cons.1 (ih mem) with same | mem
    · rw [same]
      exact List.mem_cons_self
    · exact List.mem_cons_of_mem _ (List.mem_cons_of_mem _ mem)
  | case3 last rest _ _ ih | case4 last rest _ ih => exact List.mem_cons_of_mem _ (ih mem)
  | case5 last rest level' cs ih =>
    rcases List.mem_cons.1 mem with same | mem
    · split at same
      · contradiction
      · rw [same]
        exact List.mem_cons_self
    · exact List.mem_cons_of_mem _ (ih mem)
  | case6 last rest here next _ _ _ _ ih =>
    rcases List.mem_cons.1 mem with same | mem
    · rw [same]
      exact List.mem_cons_self
    · exact List.mem_cons_of_mem _ (ih mem)

lemma mem_of_mem_trimSegments {s : Segment} {segments : List Segment}
    (mem : s ∈ trimSegments segments) : s ∈ segments := by
  rw [trimSegments, List.mem_reverse] at mem
  have mem := List.mem_reverse.1 ((List.dropWhile_sublist _).subset mem)
  exact (List.dropWhile_sublist _).subset mem

/-- Every line of the many-line layout has a level with this property. -/
structure EveryLine (P : Int → Prop) (ts : List Token) : Prop where
  /-- The lines that the rules ask for. -/
  asked : LinesSatisfy P ((emit (place ts)).map Prod.snd)
  /-- These and the lines broken after calls. -/
  broken : LinesSatisfy P (breakLines .initial (emit (place ts)))
  /-- The lines that are left to be written. -/
  written : LinesSatisfy P (prettySegments ts)

/-- What holds of the levels of the rules and of the outermost one holds of every line. -/
lemma everyLine_of_asked (outermost : P 0) {ts : List Token}
    (asked : LinesSatisfy P ((emit (place ts)).map Prod.snd)) : EveryLine P ts := by
  have broken : LinesSatisfy P (breakLines .initial (emit (place ts))) := by
    apply linesSatisfy_breakLines outermost _ asked
    simp [Calls.Remembers, Calls.initial]
  refine ⟨asked, broken, ?_⟩
  intro level mem
  apply broken
  have mem := mem_of_mem_trimSegments mem
  cases segments : breakLines .initial (emit (place ts)) with
  | nil => simp [segments, collapse] at mem
  | cons here segments' =>
    rw [segments, collapse] at mem
    exact line_mem_of_collapseFrom mem

lemma EveryLine.mono {Q : Int → Prop} {ts : List Token} (h : EveryLine P ts)
    (imp : ∀ level, P level → Q level) : EveryLine Q ts where
  asked level mem := imp level (h.asked level mem)
  broken level mem := imp level (h.broken level mem)
  written level mem := imp level (h.written level mem)

end Passes

lemma everyLine_isLevelOf (ts : List Token) : EveryLine (IsLevelOf ts) ts := by
  apply everyLine_of_asked
  · exact ⟨[], List.nil_prefix, .inl rfl⟩
  · intro level line
    exact isLevelOf_emit line

/-! ## Rows that close no more than they open -/

/-- No part of a row from its start closes more braces or more parentheses than it opens. -/
def Grounded (ts : List Token) : Prop :=
  ∀ seen, seen <+: ts → 0 ≤ openBraces seen ∧ 0 ≤ openParens seen

instance (ts : List Token) : Decidable (Grounded ts) :=
  decidable_of_iff (∀ seen ∈ ts.inits, 0 ≤ openBraces seen ∧ 0 ≤ openParens seen)
    (by simp [Grounded])

lemma openCounts_ne_nil (ts : List Token) : ts.inits.map openCount ≠ [] := by
  cases ts <;> simp

/-- The largest number of braces and parentheses that are open at the same time. -/
def deepest (ts : List Token) : Int :=
  (ts.inits.map openCount).max (openCounts_ne_nil ts)

lemma isGreatest_deepest (ts : List Token) :
    IsGreatest {count | ∃ seen, seen <+: ts ∧ openCount seen = count} (deepest ts) := by
  constructor
  · obtain ⟨seen, mem, count⟩ := List.mem_map.1 (List.max_mem (openCounts_ne_nil ts))
    exact ⟨seen, (List.mem_inits seen ts).1 mem, count⟩
  · rintro count ⟨seen, part, rfl⟩
    apply List.le_max_of_mem
    exact List.mem_map_of_mem ((List.mem_inits seen ts).2 part)

/-- As many brackets of a kind are on the stack as the row opens more than it closes. -/
lemma count_of_openFrom (b : Bracket) {opened opened' : List Bracket} {ts : List Token}
    (h : openFrom opened ts = some opened') :
    (opened'.count b : Int) =
      opened.count b + (ts.count (.mark b.opening) - ts.count (.mark b.closing)) := by
  induction ts generalizing opened with
  | nil =>
    obtain rfl := Option.some.inj h
    simp
  | cons t ts ih =>
    obtain ⟨middle, first, rest⟩ := Option.bind_eq_some_iff.1 h
    rw [ih rest, List.count_cons, List.count_cons]
    rcases stack_cases t with ⟨b', rfl⟩ | ⟨b', rfl⟩ | ⟨same, other⟩
    · rw [stack_opening] at first
      obtain rfl := Option.some.inj first
      cases b <;> cases b' <;> simp [Bracket.opening, Bracket.closing] <;> omega
    · rw [stack_closing, Bracket.close_eq_some] at first
      subst first
      cases b <;> cases b' <;> simp [Bracket.opening, Bracket.closing] <;> omega
    · rw [same] at first
      obtain rfl := Option.some.inj first
      simp [other b]

/-- Properly nested rows are such rows. -/
lemma Nested.grounded {ts : List Token} (nested : Nested ts) : Grounded ts := by
  rintro seen ⟨rest, rfl⟩
  rw [Nested, openFrom_append, Option.bind_eq_some_iff] at nested
  obtain ⟨opened, within, -⟩ := nested
  have braces := count_of_openFrom .brace within
  have parens := count_of_openFrom .paren within
  simp only [Bracket.opening, Bracket.closing, List.count_nil] at braces parens
  rw [openBraces, openParens]
  omega

/-! ## The levels of a row -/

/-- The loop over a row keeps its level: it counts what has been opened, and emits what is set. -/
structure LevelKept (ts : List Token) : Prop where
  /-- Between two tokens, and at the ends, the level is the number of braces and parentheses that
  the tokens so far have opened and not closed. -/
  between : ∀ before after, ts = before ++ after → (Counters.run before).Counts before
  /-- Where a token is set the level is the number of those counted. -/
  within : ∀ before t after, ts = before ++ t :: after → ((Counters.run before).enter t).Balanced
  /-- The rules that read these counters emit the segments of the row. -/
  emits : Counters.emitFrom .initial ts = emit (place ts)

lemma levelKept (ts : List Token) : LevelKept ts where
  between before _ _ := Counters.counts_run before
  within before t _ _ := (Counters.counts_run before).balanced.enter t
  emits := Counters.Balanced.emitFrom_eq (c := .initial) rfl ts

/-- A level that is written as it stands, and no deeper than one beyond the brackets of the row. -/
structure FitsRow (ts : List Token) (level : Int) : Prop where
  notBelow : 0 ≤ level
  notBeyond : level ≤ deepest ts + 1
  /-- The level is the number of copies of the indentation that a line gets. -/
  copies : (level.toNat : Int) = level

/-- In a row that closes no more than it opens, every level fits. -/
lemma IsLevelOf.fitsRow {ts : List Token} {level : Int} (h : IsLevelOf ts level)
    (grounded : Grounded ts) : FitsRow ts level := by
  obtain ⟨seen, part, level_eq⟩ := h
  obtain ⟨braces, parens⟩ := grounded seen part
  have notBelow : 0 ≤ openCount seen := Int.add_nonneg braces parens
  have notBeyond : openCount seen ≤ deepest ts := (isGreatest_deepest ts).2 ⟨seen, part, rfl⟩
  have within : 0 ≤ level ∧ level ≤ deepest ts + 1 := by omega
  exact ⟨within.1, within.2, Int.toNat_of_nonneg within.1⟩

/-- Wherever the loop over a row stands, the level is the number of open braces and parentheses,
and every line has as level the number of those open at some place of the row, or one more. If no
part of the row from its start closes more than it opens, as in a nested row, then every line, be it
asked for by a rule, broken after a call or left by the passes, is indented by a number of levels
from zero to one more than are ever open at the same time, and no level is cut off at zero. -/
theorem indentation_grounded (ts : List Token) :
    LevelKept ts ∧
      EveryLine (IsLevelOf ts) ts ∧
      IsGreatest {count | ∃ seen, seen <+: ts ∧ openCount seen = count} (deepest ts) ∧
      (Nested ts → Grounded ts) ∧
      (Grounded ts → EveryLine (FitsRow ts) ts) ∧
      ∀ indent, pretty indent ts = renderSegments indent (prettySegments ts) := by
  refine ⟨levelKept ts, everyLine_isLevelOf ts, isGreatest_deepest ts, Nested.grounded, ?_, ?_⟩
  · intro grounded
    apply (everyLine_isLevelOf ts).mono
    intro level isLevel
    exact isLevel.fitsRow grounded
  · intro indent
    exact pretty_eq_passes indent ts

/-- A row with a call inside a brace that is never closed. -/
def openBlock : List Token :=
  [.keyword "ASK".toList, .mark .openBrace, .keyword "FILTER".toList, .mark .openParen,
    .var ['x'], .mark .semicolon, .var ['y'], .mark .closeParen, .var ['z']]

/-- Three levels are written where two brackets are open, and none is beyond that. Where a brace
closes nothing, a line asks for less than no indentation. -/
theorem indentation_grounded_openBlock :
    (Grounded openBlock ∧ ¬Nested openBlock ∧ deepest openBlock = 2 ∧
        pretty defaultIndent openBlock =
          "ASK \x7b\n    FILTER(?x ;\n            ?y)\n    ?z".toList ∧
        .line 3 ∈ prettySegments openBlock ∧
        EveryLine (FitsRow openBlock) openBlock) ∧
      ¬Grounded [.var ['x'], .mark .closeBrace] ∧
      .line (-1) ∈ prettySegments [.var ['x'], .mark .closeBrace] := by
  have grounded : Grounded openBlock := by decide
  obtain ⟨-, -, -, -, fits, -⟩ := indentation_grounded openBlock
  exact ⟨⟨grounded, by decide, by decide, by decide, by decide, fits grounded⟩, by decide,
    by decide⟩

end SparqlFormat.Layout
