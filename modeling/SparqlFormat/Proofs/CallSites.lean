import Mathlib.Data.List.Induction
import Mathlib.Data.List.TakeWhile
import SparqlFormat.Proofs.Nested

/-!
# Calls in a row

Where the brackets of a call stand. A word like `FILTER` waits for a bracket, and the first
parenthesis behind it is that of the call (`Awaits`); the call ends where this parenthesis is
closed, or at an empty pair that stands in its place (`EndsCall`).

`Site` says the same going forward: what is open at a place, which of the open parentheses are those
of calls, and how many calls wait at the level of each. Braces do not matter to it, so a word that
never gets a parenthesis of its own, as in front of `EXISTS`, keeps waiting for the next one. Rows
in which each call that waits gets its bracket before a brace, a closing parenthesis or another
call are `Prompt`, and there the two agree (`ends_iff_endsCall`). Without this what ends a call in
the one sense still does in the other (`EndsCall.ends`), as long as no parenthesis is closed while a
call waits inside it.
-/

namespace SparqlFormat.Layout

/-! ## Where calls end -/

/-- Marks that stand between a word for a call and its brackets in no call. -/
def callStops : List Token :=
  [.mark .openParen, .mark .emptyParens, .mark .openBrace, .mark .closeBrace]

/-- The word of a call stands in a row, and neither a parenthesis that opens, nor an empty pair,
nor a brace behind it. -/
def Awaits (before : List Token) : Prop :=
  ∃ seen w between, before = seen ++ w :: between ∧ w.isWord callWords = true ∧
    ∀ t ∈ between, t ∉ callStops

/-- Behind a row, a token ends a call: it closes the first parenthesis behind the word of the call,
or it is an empty pair in the place of one. -/
inductive EndsCall : List Token → Token → Prop
  | parens {outer inner : List Token} : Awaits outer → Nested inner →
      EndsCall (outer ++ .mark .openParen :: inner) (.mark .closeParen)
  | empty {before : List Token} : Awaits before → EndsCall before (.mark .emptyParens)

section EndsCall

variable {before outer inner : List Token} {t : Token}

lemma Awaits.of_word (isWord : t.isWord callWords = true) : Awaits (before ++ [t]) :=
  ⟨before, t, [], rfl, isWord, by simp⟩

lemma Awaits.append (awaits : Awaits before) (goesOn : t ∉ callStops) : Awaits (before ++ [t]) := by
  obtain ⟨seen, w, between, rfl, isWord, none⟩ := awaits
  refine ⟨seen, w, between ++ [t], by simp, isWord, fun u mem => ?_⟩
  rcases List.mem_append.1 mem with mem | mem
  · exact none u mem
  · exact List.mem_singleton.1 mem ▸ goesOn

/-- The word of a call is found going back from the end of the row to the first stop. -/
lemma awaits_iff : Awaits before ↔
    (before.reverse.takeWhile fun t => t ∉ callStops).any (Token.isWord callWords) = true := by
  constructor
  · rintro ⟨seen, w, between, rfl, isWord, between⟩
    have wordGoesOn : w ∉ callStops := by
      cases w <;> simp_all [Token.isWord, callStops]
    refine List.any_eq_true.2 ⟨w, ?_, isWord⟩
    rw [List.reverse_append, List.reverse_cons, List.append_assoc,
      List.takeWhile_append_of_pos (by simpa using between)]
    simp [wordGoesOn]
  · intro found
    obtain ⟨w, mem, isWord⟩ := List.any_eq_true.1 found
    obtain ⟨behind, seen, split⟩ := List.append_of_mem mem
    have goesOn : ∀ t ∈ behind, t ∉ callStops := by
      intro t mem
      have := List.mem_takeWhile_imp (split ▸ List.mem_append_left _ mem)
      simpa using this
    obtain ⟨rest, whole⟩ := List.takeWhile_prefix (fun t => decide (t ∉ callStops))
      (l := before.reverse)
    refine ⟨(seen ++ rest).reverse, w, behind.reverse, ?_, isWord, by simpa using goesOn⟩
    rw [← List.reverse_reverse before, ← whole, split]
    simp

instance (before : List Token) : Decidable (Awaits before) :=
  decidable_of_iff _ awaits_iff.symm

/-- A parenthesis is closed; whether this ends a call depends on what stands in front of it. -/
lemma endsCall_closeParen_iff (nested : Nested inner) :
    EndsCall (outer ++ .mark .openParen :: inner) (.mark .closeParen) ↔ Awaits outer := by
  refine ⟨fun h => ?_, fun awaits => .parens awaits nested⟩
  generalize hbefore : outer ++ .mark .openParen :: inner = before at h
  generalize ht : Token.mark .closeParen = t at h
  cases h with
  | @parens outer' inner' awaits nested' =>
    exact opening_unique (b := .paren) hbefore nested nested' ▸ awaits
  | empty => cases ht

end EndsCall

/-! ## Sites -/

/-- An open bracket; of a parenthesis, whether it is that of a call, and how many calls wait
outside it. -/
inductive Open
  | brace
  | paren (call : Bool) (waiting : Nat)
  deriving DecidableEq

/-- A place in a row: how many calls wait at the level of the innermost open parenthesis, and which
brackets are open, the innermost first. -/
structure Site where
  waiting : Nat
  opened : List Open
  deriving DecidableEq

/-- The kind of an open bracket. -/
def Open.kind : Open → Bracket
  | brace => .brace
  | paren _ _ => .paren

/-- How many parentheses are open from the outermost one of a call on. -/
def callDepth : List Open → Nat
  | [] => 0
  | .brace :: outer => callDepth outer
  | .paren call _ :: outer => if call || callDepth outer != 0 then callDepth outer + 1 else 0

namespace Site

/-- In front of the first token. -/
def start : Site := ⟨0, []⟩

/-- The site behind a token. -/
def step (s : Site) : Token → Site
  | .mark .openBrace => { s with opened := .brace :: s.opened }
  | .mark .closeBrace => { s with opened := s.opened.tail }
  | .mark .openParen => ⟨0, .paren (s.waiting != 0) (s.waiting - 1) :: s.opened⟩
  | .mark .closeParen =>
    match s.opened with
    | .paren _ waiting :: outer => ⟨waiting, outer⟩
    | _ => s
  | .mark .emptyParens => { s with waiting := s.waiting - 1 }
  | t => if t.isWord callWords then { s with waiting := s.waiting + 1 } else s

/-- The site behind a row. -/
def after (s : Site) (ts : List Token) : Site :=
  ts.foldl step s

/-- A token ends a call: it closes the parenthesis of one, or it is an empty pair while one
waits. -/
def Ends (s : Site) : Token → Prop
  | .mark .closeParen => ∃ waiting outer, s.opened = .paren true waiting :: outer
  | .mark .emptyParens => s.waiting ≠ 0
  | _ => False

/-- No parenthesis is closed while a call waits inside it, and within the parentheses of a call no
second call and no empty pair comes up while one waits. -/
def Orderly (s : Site) (t : Token) : Prop :=
  s.waiting ≠ 0 → t ≠ .mark .closeParen ∧
    (callDepth s.opened ≠ 0 → t.isWord callWords = false ∧ t ≠ .mark .emptyParens)

/-- While a call waits, neither another call comes up nor a brace nor a closing parenthesis; and
within the parentheses of a call no empty pair does. -/
def Prompt (s : Site) (t : Token) : Prop :=
  s.waiting ≠ 0 → t.isWord callWords = false ∧
    t ∉ [.mark .closeParen, .mark .openBrace, .mark .closeBrace] ∧
    (callDepth s.opened ≠ 0 → t ≠ .mark .emptyParens)

instance (s : Site) (t : Token) : Decidable (s.Orderly t) :=
  inferInstanceAs (Decidable (_ → _))

instance (s : Site) (t : Token) : Decidable (s.Prompt t) :=
  inferInstanceAs (Decidable (_ → _))

/-- What holds of every token of a row at its site. -/
def Along (holds : Site → Token → Prop) (s : Site) : List Token → Prop
  | [] => True
  | t :: ts => holds s t ∧ Along holds (s.step t) ts

section Rows

variable {s : Site} {t : Token} {ts us : List Token}

@[simp] lemma after_nil : s.after [] = s := rfl

@[simp] lemma after_cons : s.after (t :: ts) = (s.step t).after ts := rfl

@[simp] lemma after_append : s.after (ts ++ us) = (s.after ts).after us :=
  List.foldl_append

variable {holds holds' : Site → Token → Prop}

lemma along_append :
    Along holds s (ts ++ us) ↔ Along holds s ts ∧ Along holds (s.after ts) us := by
  induction ts generalizing s with
  | nil => simp [Along]
  | cons t ts ih => simp only [List.cons_append, Along, ih, after_cons, and_assoc]

lemma Along.mono (imp : ∀ s t, holds s t → holds' s t) (h : Along holds s ts) :
    Along holds' s ts := by
  induction ts generalizing s with
  | nil => trivial
  | cons t ts ih => exact ⟨imp s t h.1, ih h.2⟩

instance decidableAlong [∀ s t, Decidable (holds s t)] : (s : Site) → (ts : List Token) →
    Decidable (Along holds s ts)
  | _, [] => inferInstanceAs (Decidable True)
  | s, t :: ts => @instDecidableAnd _ _ _ (decidableAlong (s.step t) ts)

lemma Prompt.orderly (h : s.Prompt t) : s.Orderly t := by
  intro waits
  obtain ⟨notWord, notClosing, notEmpty⟩ := h waits
  refine ⟨?_, fun inside => ⟨notWord, notEmpty inside⟩⟩
  rintro rfl
  exact notClosing (by simp)

end Rows

end Site

/-! ## What a token does to a site -/

section Step

/-- A token is a bracket, an empty pair or the word of a call, or a site stays as it is. -/
lemma site_cases (t : Token) :
    (∃ b : Bracket, t = .mark b.opening ∨ t = .mark b.closing) ∨ t = .mark .emptyParens ∨
      t.isWord callWords = true ∨
      (∀ s : Site, s.step t = s) ∧ t.isWord callWords = false ∧ t ≠ .mark .emptyParens ∧
        ∀ b : Bracket, t ≠ .mark b.opening ∧ t ≠ .mark b.closing := by
  by_cases isWord : t.isWord callWords = true
  · exact .inr (.inr (.inl isWord))
  · have notWord : t.isWord callWords = false := by simpa using isWord
    cases t with
    | mark m =>
      cases m with
      | openBrace => exact .inl ⟨.brace, .inl rfl⟩
      | closeBrace => exact .inl ⟨.brace, .inr rfl⟩
      | openParen => exact .inl ⟨.paren, .inl rfl⟩
      | closeParen => exact .inl ⟨.paren, .inr rfl⟩
      | emptyParens => exact .inr (.inl rfl)
      | _ => exact .inr (.inr (.inr ⟨fun _ => rfl, rfl, by decide, fun b => by cases b <;> decide⟩))
    | keyword word =>
      refine .inr (.inr (.inr ⟨fun s => ?_, notWord, by simp, by simp⟩))
      rw [Site.step, notWord]
      · rfl
      all_goals simp
    | _ => exact .inr (.inr (.inr ⟨fun _ => rfl, rfl, by simp, by simp⟩))

variable {s : Site} {t : Token}

lemma step_word (isWord : t.isWord callWords = true) :
    s.step t = { s with waiting := s.waiting + 1 } := by
  cases t with
  | keyword word =>
    rw [Site.step, isWord]
    · rfl
    all_goals simp
  | _ => simp [Token.isWord] at isWord

lemma stack_word (isWord : t.isWord callWords = true) (opened : List Bracket) :
    stack opened t = some opened := by
  cases t with
  | keyword word => rfl
  | _ => simp [Token.isWord] at isWord

/-- A site keeps the kinds of the open brackets, and whatever is open further out. -/
lemma opened_step {top base : List Open} {opened : List Bracket}
    (hs : s.opened = top ++ base) (h : stack (top.map Open.kind) t = some opened) :
    ∃ top', (s.step t).opened = top' ++ base ∧ top'.map Open.kind = opened := by
  rcases site_cases t with ⟨b, rfl | rfl⟩ | rfl | isWord | ⟨same, -, notEmpty, other⟩
  · rw [stack_opening] at h
    obtain rfl := Option.some.inj h
    cases b with
    | brace => exact ⟨.brace :: top, by simp [Bracket.opening, Site.step, hs], rfl⟩
    | paren =>
      exact ⟨.paren (s.waiting != 0) (s.waiting - 1) :: top,
        by simp [Bracket.opening, Site.step, hs], rfl⟩
  · rw [stack_closing, Bracket.close_eq_some, List.map_eq_cons_iff] at h
    obtain ⟨o, top, rfl, kind, rfl⟩ := h
    refine ⟨top, ?_, rfl⟩
    cases b with
    | brace => simp [Bracket.closing, Site.step, hs]
    | paren =>
      cases o with
      | brace => cases kind
      | paren call waiting => simp [Bracket.closing, Site.step, hs]
  · obtain rfl := Option.some.inj h
    exact ⟨top, hs, rfl⟩
  · rw [stack_word isWord] at h
    obtain rfl := Option.some.inj h
    exact ⟨top, by rw [step_word isWord, hs], rfl⟩
  · have unchanged : stack (top.map Open.kind) t = some (top.map Open.kind) := by
      rcases stack_cases t with ⟨b, rfl⟩ | ⟨b, rfl⟩ | ⟨same, -⟩
      · exact absurd rfl (other b).1
      · exact absurd rfl (other b).2
      · exact same _
    rw [unchanged] at h
    obtain rfl := Option.some.inj h
    exact ⟨top, by rw [same, hs], rfl⟩

lemma opened_after {top base : List Open} {opened : List Bracket} {ts : List Token}
    (hs : s.opened = top ++ base) (h : openFrom (top.map Open.kind) ts = some opened) :
    ∃ top', (s.after ts).opened = top' ++ base ∧ top'.map Open.kind = opened := by
  induction ts generalizing s top with
  | nil => exact ⟨top, hs, Option.some.inj h⟩
  | cons t ts ih =>
    obtain ⟨middle, first, rest⟩ := Option.bind_eq_some_iff.1 h
    obtain ⟨top', hs', rfl⟩ := opened_step hs first
    exact ih hs' rest

lemma kinds_after_start {ts : List Token} {opened : List Bracket}
    (h : openFrom [] ts = some opened) :
    (Site.start.after ts).opened.map Open.kind = opened := by
  have none : Site.start.opened = [] ++ [] := rfl
  obtain ⟨top, hs, kinds⟩ := opened_after none h
  rw [hs, List.append_nil, kinds]

lemma Nested.opened_after {ts : List Token} (h : Nested ts) : (s.after ts).opened = s.opened := by
  have same : s.opened = [] ++ s.opened := rfl
  obtain ⟨top, hs, kinds⟩ := Layout.opened_after same h
  rw [hs, List.map_eq_nil_iff.1 kinds, List.nil_append]

lemma opened_after_openParen {outer inner : List Token} (h : Nested inner) :
    (s.after (outer ++ .mark .openParen :: inner)).opened =
      .paren ((s.after outer).waiting != 0) ((s.after outer).waiting - 1) ::
        (s.after outer).opened := by
  rw [Site.after_append, Site.after_cons, h.opened_after]
  rfl

end Step

/-! ## Calls that wait -/

section Waiting

variable {s : Site} {t : Token} {ts before : List Token}

lemma waiting_after (waits : s.waiting ≠ 0) (between : ∀ t ∈ ts, t ∉ callStops)
    (orderly : Site.Along Site.Orderly s ts) : (s.after ts).waiting ≠ 0 := by
  induction ts generalizing s with
  | nil => exact waits
  | cons t ts ih =>
    obtain ⟨notStop, between⟩ := List.forall_mem_cons.1 between
    refine ih ?_ between orderly.2
    rcases site_cases t with ⟨b, rfl | rfl⟩ | rfl | isWord | ⟨same, -⟩
    · cases b <;> simp [callStops, Bracket.opening] at notStop
    · cases b with
      | brace => simp [callStops, Bracket.closing] at notStop
      | paren => exact absurd rfl (orderly.1 waits).1
    · simp [callStops] at notStop
    · rw [step_word isWord]
      exact Nat.succ_ne_zero _
    · rwa [same]

/-- In an orderly row a call waits at the site where its brackets are to stand. -/
lemma waiting_of_awaits (awaits : Awaits before)
    (orderly : Site.Along Site.Orderly .start before) :
    (Site.start.after before).waiting ≠ 0 := by
  obtain ⟨seen, w, between, rfl, isWord, between⟩ := awaits
  rw [Site.after_append, Site.after_cons]
  refine waiting_after ?_ between (Site.along_append.1 orderly).2.2
  rw [step_word isWord]
  exact Nat.succ_ne_zero _

/-- At most one call waits, and none outside the open parentheses. -/
def Site.Frugal (s : Site) : Prop :=
  s.waiting ≤ 1 ∧ ∀ call waiting, .paren call waiting ∈ s.opened → waiting = 0

/-- If calls get their brackets promptly, no more than one waits. -/
lemma Site.Frugal.step (frugal : s.Frugal) (prompt : s.Prompt t) : (s.step t).Frugal := by
  obtain ⟨atMost, outside⟩ := frugal
  rcases site_cases t with ⟨b, rfl | rfl⟩ | rfl | isWord | ⟨same, -⟩
  · cases b with
    | brace => exact ⟨atMost, by simpa [Bracket.opening, Site.step] using outside⟩
    | paren =>
      refine ⟨Nat.zero_le 1, ?_⟩
      rintro call waiting mem
      rcases List.mem_cons.1 mem with same | mem
      · cases same
        omega
      · exact outside call waiting mem
  · have tail : ∀ call waiting, .paren call waiting ∈ s.opened.tail → waiting = 0 :=
      fun call waiting mem => outside call waiting (List.mem_of_mem_tail mem)
    cases b with
    | brace => exact ⟨atMost, tail⟩
    | paren =>
      rw [Bracket.closing, Site.step]
      split
      · next call waiting outer hs =>
        rw [hs] at outside tail
        have none : waiting = 0 := outside call waiting List.mem_cons_self
        exact ⟨by simp [none], tail⟩
      · exact ⟨atMost, outside⟩
  · exact ⟨Nat.le_trans (Nat.sub_le _ _) atMost, outside⟩
  · have idle : s.waiting = 0 := by
      by_contra waits
      rw [(prompt waits).1] at isWord
      contradiction
    rw [step_word isWord, idle]
    exact ⟨Nat.le_refl 1, outside⟩
  · rw [same]
    exact ⟨atMost, outside⟩

lemma frugal_after (frugal : s.Frugal) (prompt : Site.Along Site.Prompt s ts) :
    (s.after ts).Frugal := by
  induction ts generalizing s with
  | nil => exact frugal
  | cons t ts ih => exact ih (frugal.step prompt.1) prompt.2

/-- In a prompt row no call waits but where its brackets are to stand. -/
lemma awaits_of_waiting (waits : (Site.start.after before).waiting ≠ 0)
    (prompt : Site.Along Site.Prompt .start before) : Awaits before := by
  -- from the end of the row: whatever comes while a call waits is no stop
  induction before using List.reverseRecOn with
  | nil => exact absurd rfl waits
  | append_singleton before t ih =>
    obtain ⟨earlier, here, -⟩ := Site.along_append.1 prompt
    rw [Site.after_append, Site.after_cons, Site.after_nil] at waits
    obtain ⟨atMost, outside⟩ : (Site.start.after before).Frugal :=
      frugal_after ⟨Nat.zero_le 1, by simp [Site.start]⟩ earlier
    rcases site_cases t with ⟨b, rfl | rfl⟩ | rfl | isWord | ⟨same, -, notEmpty, other⟩
    · cases b with
      | brace => exact absurd (List.mem_cons_of_mem _ List.mem_cons_self) (here waits).2.1
      | paren => exact absurd rfl waits
    · cases b with
      | brace =>
        exact absurd (by simp [Bracket.closing]) (here waits).2.1
      | paren =>
        simp only [Bracket.closing, Site.step] at waits
        split at waits
        · next call waiting outer hs =>
          exact absurd (outside call waiting (hs ▸ List.mem_cons_self)) waits
        · exact absurd (by simp [Bracket.closing]) (here waits).2.1
    · simp only [Site.step] at waits
      omega
    · exact .of_word isWord
    · rw [same] at waits
      refine (ih waits earlier).append ?_
      have openBrace := (other .brace).1
      have closeBrace := (other .brace).2
      have openParen := (other .paren).1
      simp only [Bracket.opening, Bracket.closing] at openBrace closeBrace openParen
      simp [callStops, openBrace, closeBrace, openParen, notEmpty]

end Waiting

/-! ## Where calls end, going forward -/

section Ends

variable {before : List Token} {t : Token}

/-- What ends a call in an orderly row ends one at its site. -/
theorem EndsCall.ends (h : EndsCall before t) (orderly : Site.Along Site.Orderly .start before) :
    (Site.start.after before).Ends t := by
  cases h with
  | @parens outer inner awaits nested =>
    have waits := waiting_of_awaits awaits (Site.along_append.1 orderly).1
    exact ⟨_, _, by rw [opened_after_openParen nested, bne_iff_ne.2 waits]⟩
  | empty awaits => exact waiting_of_awaits awaits orderly

/-- In a prompt row the two agree. -/
theorem ends_iff_endsCall {opened : List Bracket} (opens : openFrom [] before = some opened)
    (prompt : Site.Along Site.Prompt .start before) :
    (Site.start.after before).Ends t ↔ EndsCall before t := by
  refine ⟨fun ends => ?_, fun h => h.ends (prompt.mono fun _ _ => Site.Prompt.orderly)⟩
  have kinds := kinds_after_start opens
  unfold Site.Ends at ends
  split at ends
  · obtain ⟨waiting, outside, hs⟩ := ends
    rw [hs, List.map_cons, Open.kind] at kinds
    subst kinds
    obtain ⟨outer, inner, rfl, -, nested⟩ := exists_opening opens
    rw [Bracket.opening, opened_after_openParen nested] at hs
    have call : ((Site.start.after outer).waiting != 0) = true := by
      injection hs with top
      injection top
    exact .parens (awaits_of_waiting (bne_iff_ne.1 call) (Site.along_append.1 prompt).1) nested
  · exact .empty (awaits_of_waiting ends prompt)
  · contradiction

end Ends

end SparqlFormat.Layout
